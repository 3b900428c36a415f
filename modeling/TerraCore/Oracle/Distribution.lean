import TerraCore.Mint.Counting
import TerraCore.Oracle.Claims

/-!
# Who receives the swap fees

The payout of the fee pool, account by account. A claim earns its share of
every fee, rounded down twice. The share of a validator is allocated to it, the
share of a claimant that is no validator any more goes to the fee collector,
and so does everything that rounding leaves over. Claims are recorded for
validators only, under addresses that can be parsed back; every run keeps that.
-/

namespace TerraCore.Oracle

open Mint

/-- The share of a claim in a fee: the fee per unit of weight is rounded down
to a decimal, the share to a whole coin. -/
def share (fee : ℤ) (weightSum weight : ℕ) : ℤ :=
  fee * 10 ^ 18 / weightSum * weight / 10 ^ 18

theorem rewardShare_eq_share (weightSum weight : ℕ) {fee : ℤ} (nonneg : 0 ≤ fee) :
    rewardShare weightSum weight fee = share fee weightSum weight := by
  have scaled : 0 ≤ fee * Dec.precision := mul_nonneg nonneg Dec.precision_pos.le
  have perWeight : 0 ≤ fee * Dec.precision / weightSum :=
    Int.ediv_nonneg scaled (Int.natCast_nonneg _)
  simp only [rewardShare, Dec.truncateInt, Dec.mulInt, Dec.quoInt64, Dec.ofInt]
  rw [Int.tdiv_eq_ediv_of_nonneg scaled,
    Int.tdiv_eq_ediv_of_nonneg (mul_nonneg perWeight (Int.natCast_nonneg _))]
  rfl

theorem share_zero (weightSum weight : ℕ) : share 0 weightSum weight = 0 := by
  simp [share]

theorem rewardOf_eq_zero {fees : List Coin} {denom : Denom}
    (absent : ∀ coin ∈ fees, coin.denom ≠ denom) (weightSum weight : ℕ) :
    rewardOf fees weightSum weight denom = 0 := by
  have none : fees.filter (fun coin => coin.denom = denom) = [] := by
    apply List.filter_eq_nil_iff.mpr
    intro coin coinMem
    simpa using absent coin coinMem
  simp only [rewardOf]
  rw [none]
  rfl

/-- A valid pool has one coin of a denomination at most. -/
theorem rewardOf_eq_share (pool : Coins) (weightSum weight : ℕ) (denom : Denom) :
    rewardOf pool.toList weightSum weight denom =
      share (pool.amountOf denom) weightSum weight := by
  have general : ∀ fees : List Coin, Proper fees → (∀ coin ∈ fees, 0 ≤ coin.amount) →
      rewardOf fees weightSum weight denom =
        share (TerraCore.amountOf fees denom) weightSum weight := by
    intro fees
    induction fees with
    | nil =>
        intro _ _
        exact (share_zero weightSum weight).symm
    | cons head tail ih =>
        intro proper nonneg
        by_cases here : head.denom = denom
        · subst here
          have tailless := rewardOf_eq_zero (fun other => proper.denom_ne) weightSum weight
          have split : rewardOf (head :: tail) weightSum weight head.denom =
              rewardShare weightSum weight head.amount +
                rewardOf tail weightSum weight head.denom := by
            simp [rewardOf]
          rw [split, tailless, add_zero, amountOf_cons, if_pos rfl, proper.amountOf_tail, add_zero]
          exact rewardShare_eq_share _ _ (nonneg head List.mem_cons_self)
        · have skip : rewardOf (head :: tail) weightSum weight denom =
              rewardOf tail weightSum weight denom := by
            simp [rewardOf, here]
          rw [skip, amountOf_cons, if_neg here, zero_add]
          exact ih proper.tail fun other otherMem => nonneg other (List.mem_cons_of_mem _ otherMem)
  exact general pool.toList pool.proper fun coin coinMem => (pool.amount_pos coinMem).le

/-- Validators are allocated what they earned and the fee collector gains the
rest, while no account is touched. -/
structure Receives {L : Type} [Ledger L] (earned : Address → Denom → ℤ) (collected : Denom → ℤ)
    (before after : L) : Prop where
  balance : ∀ address denom,
    Ledger.balance after address denom = Ledger.balance before address denom
  allocatedTo : ∀ address denom,
    Ledger.allocatedTo after address denom =
      Ledger.allocatedTo before address denom + earned address denom
  collectedFees : ∀ denom,
    Ledger.collectedFees after denom = Ledger.collectedFees before denom + collected denom

section Payments

variable {L : Type} [Sdk L]

theorem Receives.refl (ledger : L) : Receives 0 0 ledger ledger :=
  ⟨fun _ _ => rfl, fun _ _ => (add_zero _).symm, fun _ => (add_zero _).symm⟩

theorem Receives.trans {earned moreEarned : Address → Denom → ℤ}
    {collected moreCollected : Denom → ℤ} {before middle after : L}
    (first : Receives earned collected before middle)
    (second : Receives moreEarned moreCollected middle after) :
    Receives (earned + moreEarned) (collected + moreCollected) before after where
  balance address denom := (second.balance address denom).trans (first.balance address denom)
  allocatedTo address denom := by
    rw [second.allocatedTo, first.allocatedTo, add_assoc]
    rfl
  collectedFees denom := by
    rw [second.collectedFees, first.collectedFees, add_assoc]
    rfl

/-- Fees and allocations leave the accounts alone. -/
theorem Receives.of_moves {before after : L} {fees : List Coin}
    {allocations : List (Address × List Coin)}
    (moves : Moves before after { fees, allocations }) :
    Receives (credited allocations) (amountOf fees) before after where
  balance address denom := by
    have moved := moves.balance address denom
    simp only [credited_nil, sub_zero, add_zero] at moved
    exact_mod_cast moved
  allocatedTo := moves.allocatedTo
  collectedFees := moves.collectedFees

/-- What a claim allocates to an address. -/
def allocation (staking : Staking) (pool : Coins) (weightSum : ℕ) (claim : Address × ℕ)
    (address : Address) (denom : Denom) : ℤ :=
  if claim.1 = address ∧ (staking.validator claim.1).isSome then
    share (pool.amountOf denom) weightSum claim.2
  else 0

/-- What a claim leaves to the fee collector. -/
def forfeit (staking : Staking) (pool : Coins) (weightSum : ℕ) (claim : Address × ℕ)
    (denom : Denom) : ℤ :=
  if (staking.validator claim.1).isSome then 0
  else share (pool.amountOf denom) weightSum claim.2

theorem payClaim_receives {pool : Coins} {weightSum : ℕ} (someWeight : weightSum ≠ 0)
    {ctx next : Context L} {distributed more : Coins} {claim : Address × ℕ}
    (paid : payClaim pool weightSum (ctx, distributed) claim = .ok (next, more)) :
    next = { ctx with ledger := next.ledger } ∧
      Receives (allocation ctx.staking pool weightSum claim)
        (forfeit ctx.staking pool weightSum claim) ctx.ledger next.ledger := by
  rcases rewardCoins_spec pool someWeight claim.2 with ⟨rewards, computed, amounts⟩
  have earns : ∀ denom, TerraCore.amountOf rewards.toList denom =
      share (pool.amountOf denom) weightSum claim.2 := by
    intro denom
    rw [← rewardOf_eq_share]
    exact amounts denom
  simp only [payClaim, computed, bind, Except.bind, pure, Except.pure] at paid
  cases paid
  refine ⟨rfl, ?_⟩
  cases isValidator : ctx.staking.validator claim.1 with
  | some bonded =>
      have moved := Receives.of_moves (Sdk.allocateTokensToValidator_moves ctx.ledger claim.1 rewards)
      refine ⟨moved.balance, ?_, ?_⟩
      · intro address denom
        rw [moved.allocatedTo, credited_cons, earns]
        simp [allocation, isValidator]
      · intro denom
        rw [moved.collectedFees]
        simp [forfeit, isValidator]
  | none =>
      have moved := Receives.of_moves (Sdk.addCollectedFees_moves ctx.ledger rewards)
      refine ⟨moved.balance, ?_, ?_⟩
      · intro address denom
        rw [moved.allocatedTo]
        simp [allocation, isValidator]
      · intro denom
        rw [moved.collectedFees, earns]
        simp [forfeit, isValidator]

theorem payClaims_receives {pool : Coins} {weightSum : ℕ} (someWeight : weightSum ≠ 0)
    {claims : List (Address × ℕ)} {ctx next : Context L} {distributed more : Coins}
    (paid : claims.foldlM (payClaim pool weightSum) (ctx, distributed) = .ok (next, more)) :
    next = { ctx with ledger := next.ledger } ∧
      Receives
        (fun address denom =>
          (claims.map fun claim => allocation ctx.staking pool weightSum claim address denom).sum)
        (fun denom => (claims.map fun claim => forfeit ctx.staking pool weightSum claim denom).sum)
        ctx.ledger next.ledger := by
  induction claims generalizing ctx distributed with
  | nil =>
      cases paid
      exact ⟨rfl, Receives.refl _⟩
  | cons claim claims ih =>
      rw [List.foldlM_cons] at paid
      rcases Outcome.bind_eq_ok.mp paid with ⟨⟨middle, soFar⟩, first, rest⟩
      rcases payClaim_receives someWeight first with ⟨middleEq, one⟩
      rcases ih rest with ⟨nextEq, others⟩
      have sameStaking : middle.staking = ctx.staking := by rw [middleEq]
      rw [sameStaking] at others
      refine ⟨?_, one.trans others⟩
      rw [nextEq, middleEq]

/-- What is distributed is the sum of the shares. -/
theorem payClaims_distributed {pool : Coins} {weightSum : ℕ} (someWeight : weightSum ≠ 0)
    {claims : List (Address × ℕ)} {ctx next : Context L} {distributed : Coins}
    (paid : claims.foldlM (payClaim pool weightSum) (ctx, Coins.empty) = .ok (next, distributed))
    (denom : Denom) :
    distributed.amountOf denom =
      (claims.map fun claim => share (pool.amountOf denom) weightSum claim.2).sum := by
  rcases payClaims_spec pool someWeight claims ctx Coins.empty with ⟨_, spent, folded, amounts, -⟩
  rw [paid] at folded
  cases folded
  rw [amounts, Coins.amountOf_empty, zero_add]
  simp only [rewardOf_eq_share]

/-- The issuance of every fee is raised by its amount. -/
theorem changeIssuances_counted {fees : List Coin} {ctx next : Context L}
    (raised : fees.foldlM (fun ctx feeCoin =>
      mustSucceed (changeIssuance ctx feeCoin.denom feeCoin.amount)) ctx = .ok next)
    {denom : Denom} (ready : ∀ coin ∈ fees, coin.denom = denom → HasSnapshot ctx denom) :
    next = { ctx with mint := next.mint } ∧
      Counted denom (TerraCore.amountOf fees denom) ctx next := by
  induction fees generalizing ctx with
  | nil =>
      cases raised
      exact ⟨rfl, Counted.refl _⟩
  | cons coin fees ih =>
      rw [List.foldlM_cons] at raised
      rcases Outcome.bind_eq_ok.mp raised with ⟨middle, first, rest⟩
      have changed := mustSucceed_eq_ok.mp first
      have one := changeIssuance_counted changed (ready coin List.mem_cons_self)
      rcases ih rest fun other otherMem same =>
          one.snapshot (ready other (List.mem_cons_of_mem _ otherMem) same) with
        ⟨nextEq, others⟩
      refine ⟨?_, ?_⟩
      · rw [nextEq, changeIssuance_frame changed]
      · rw [amountOf_cons]
        exact one.trans others

end Payments

section Payout

variable {L : Type} [Sdk L]

/-- The whole pool has been handed out, counted and cleared, together with the claims. -/
structure PaidOut (pool : Coins) (weightSum : ℕ) (before after : Context L) : Prop where
  balance : ∀ address denom,
    Ledger.balance after.ledger address denom = Ledger.balance before.ledger address denom
  toValidators : ∀ address denom,
    Ledger.allocatedTo after.ledger address denom =
      Ledger.allocatedTo before.ledger address denom +
        if (before.staking.validator address).isSome then
          share (pool.amountOf denom) weightSum ((before.oracle.claims[address]?).getD 0)
        else 0
  dust : ∀ denom,
    Store.sum (fun _ weight => share (pool.amountOf denom) weightSum weight)
      before.oracle.claims ≤ pool.amountOf denom
  toCollector : ∀ denom,
    Ledger.collectedFees after.ledger denom =
      Ledger.collectedFees before.ledger denom +
        Store.sum (fun claimant weight =>
          if (before.staking.validator claimant).isSome then 0
          else share (pool.amountOf denom) weightSum weight) before.oracle.claims +
        (pool.amountOf denom -
          Store.sum (fun _ weight => share (pool.amountOf denom) weightSum weight)
            before.oracle.claims)
  whole : ∀ denom,
    holdings after.ledger denom = holdings before.ledger denom + pool.amountOf denom
  issuance : ∀ denom,
    (issuanceAt after denom after.today : ℤ) =
      issuanceAt before denom before.today + pool.amountOf denom
  cleared : after.oracle = { before.oracle with swapFeePool := none, claims := ∅ }
  rest : after =
    { before with ledger := after.ledger, mint := after.mint, oracle := after.oracle }

/-- What is left of the pool goes to the fee collector. -/
theorem collectLeft_receives (ctx : Context L) (leftFee : Coins) :
    ∃ ledger : L,
      (if leftFee.toList ≠ [] then { ctx with ledger := Sdk.addCollectedFees ctx.ledger leftFee }
        else ctx) = { ctx with ledger } ∧
        Receives 0 leftFee.amountOf ctx.ledger ledger := by
  by_cases isEmpty : leftFee.toList = []
  · refine ⟨ctx.ledger, by simp [isEmpty], (Receives.refl ctx.ledger).balance,
      (Receives.refl ctx.ledger).allocatedTo, ?_⟩
    intro denom
    rw [Coins.amountOf_eq_zero_of_isEmpty isEmpty, add_zero]
  · have moved := Receives.of_moves (Sdk.addCollectedFees_moves ctx.ledger leftFee)
    refine ⟨Sdk.addCollectedFees ctx.ledger leftFee, by simp [isEmpty], moved.balance, ?_,
      moved.collectedFees⟩
    intro address denom
    rw [moved.allocatedTo, credited_nil]
    rfl

/-- What `doleOutRewards` does when it succeeds. -/
theorem doleOutRewards_receives {ctx after : Context L} {pool : Coins} {weightSum : ℕ}
    (someWeight : weightSum ≠ 0)
    (ready : ∀ coin ∈ pool.toList, HasSnapshot ctx coin.denom)
    (done : doleOutRewards ctx pool weightSum = .ok after) :
    (after = { ctx with
        ledger := after.ledger, mint := after.mint, oracle := ctx.oracle.clearSwapFeePool }) ∧
      (∀ denom, (ctx.oracle.claimPool.map fun claim =>
        share (pool.amountOf denom) weightSum claim.2).sum ≤ pool.amountOf denom) ∧
      Receives
        (fun address denom => (ctx.oracle.claimPool.map fun claim =>
          allocation ctx.staking pool weightSum claim address denom).sum)
        (fun denom => (ctx.oracle.claimPool.map fun claim =>
          forfeit ctx.staking pool weightSum claim denom).sum +
            (pool.amountOf denom - (ctx.oracle.claimPool.map fun claim =>
              share (pool.amountOf denom) weightSum claim.2).sum)) ctx.ledger after.ledger ∧
      ∀ denom, Counted denom (pool.amountOf denom) ctx after := by
  rcases Outcome.bind_eq_ok.mp done with ⟨⟨paid, distributed⟩, payment, done⟩
  rcases Outcome.bind_eq_ok.mp done with ⟨leftFee, subtracted, done⟩
  rcases Outcome.bind_eq_ok.mp done with ⟨counted, raised, done⟩
  rcases payClaims_receives someWeight payment with ⟨paidEq, received⟩
  rcases collectLeft_receives paid leftFee with ⟨ledger, collectEq, collected⟩
  rw [collectEq] at raised
  have leftEq : ∀ denom, leftFee.amountOf denom = pool.amountOf denom -
      (ctx.oracle.claimPool.map fun claim =>
        share (pool.amountOf denom) weightSum claim.2).sum := by
    intro denom
    rw [Coins.amountOf_of_sub subtracted, payClaims_distributed someWeight payment]
  have total := received.trans collected
  have raisedBy := fun denom => changeIssuances_counted raised
    (fun coin coinMem (same : coin.denom = denom) => by
      rw [paidEq]
      exact same ▸ ready coin coinMem)
  have countedEq := (raisedBy []).1
  have ledgerEq : counted.ledger = ledger := by rw [countedEq]
  cases done
  refine ⟨?_, ?_, ?_, ?_⟩
  · rw [countedEq, paidEq]
  · intro denom
    have nonneg := leftFee.amountOf_nonneg denom
    rw [leftEq] at nonneg
    exact sub_nonneg.mp nonneg
  · refine ⟨?_, ?_, ?_⟩
    · rw [ledgerEq]
      exact total.balance
    · intro address denom
      rw [ledgerEq, total.allocatedTo]
      simp
    · intro denom
      rw [ledgerEq, total.collectedFees]
      simp only [Pi.add_apply, leftEq]
  · intro denom
    have held : Counted denom 0 ctx { paid with ledger } := by
      refine Counted.of_mint_eq ?_ ?_ (Or.inr (supply_congr fun address => total.balance _ _))
      · rw [paidEq]
      · rw [paidEq]
    have cleared : Counted denom 0 counted
        { counted with oracle := counted.oracle.clearSwapFeePool } :=
      Counted.of_mint_eq rfl rfl (Or.inr rfl)
    have all := (held.trans (raisedBy denom).2).trans cleared
    rw [zero_add, add_zero] at all
    exact all

/-- All claims together allocate to a validator the share of its own claim. -/
theorem sum_allocation (claims : Store Address ℕ) (staking : Staking) (pool : Coins)
    (weightSum : ℕ) (address : Address) (denom : Denom) :
    (claims.toList.map fun claim => allocation staking pool weightSum claim address denom).sum =
      if (staking.validator address).isSome then
        share (pool.amountOf denom) weightSum ((claims[address]?).getD 0)
      else 0 := by
  let earns (weight : ℕ) : ℤ :=
    if (staking.validator address).isSome then share (pool.amountOf denom) weightSum weight else 0
  have byKey : ∀ claim : Address × ℕ, allocation staking pool weightSum claim address denom =
      if claim.1 = address then earns claim.2 else 0 := by
    intro claim
    simp only [allocation, earns]
    by_cases here : claim.1 = address <;> simp [here]
  have single := Store.sum_at earns claims address
  simp only [Store.sum] at single
  simp only [byKey, single]
  cases claims[address]? with
  | some weight => rfl
  | none => simp [share]

/-- The payout conserves the fees: nothing happens while the claims weigh
nothing, the claims alone are cleared while there are no fees, and otherwise
the whole pool is handed out, counted and cleared. -/
theorem rewards_conserve_fees (ctx : Context L) (addressed : ClaimsAddressed ctx.oracle) :
    (claimWeightSum ctx.oracle = 0 → rewardPrevBallotWinners ctx = .ok ctx) ∧
      (claimWeightSum ctx.oracle ≠ 0 → ctx.oracle.getSwapFeePool.toList = [] →
        rewardPrevBallotWinners ctx =
          .ok { ctx with oracle := { ctx.oracle with claims := ∅ } }) ∧
      (claimWeightSum ctx.oracle ≠ 0 → ctx.oracle.getSwapFeePool.toList ≠ [] →
        (∀ coin ∈ ctx.oracle.getSwapFeePool.toList, HasSnapshot ctx coin.denom) →
          ∃ after, rewardPrevBallotWinners ctx = .ok after ∧
            PaidOut ctx.oracle.getSwapFeePool (claimWeightSum ctx.oracle) ctx after) := by
  have clears : ∀ store : OracleStore, store.claims = ctx.oracle.claims →
      store.clearClaimPool = { store with claims := ∅ } := by
    intro store sameClaims
    have storeAddressed : ClaimsAddressed store := by
      intro recipient weight present
      exact addressed recipient weight (sameClaims ▸ present)
    have emptied := clearClaimPool_claims storeAddressed
    simp only [OracleStore.clearClaimPool] at emptied ⊢
    rw [emptied]
  refine ⟨?_, ?_, ?_⟩
  · intro noWeight
    simp [rewardPrevBallotWinners, noWeight, pure, Except.pure]
  · intro someWeight noFees
    simp only [rewardPrevBallotWinners, someWeight, noFees, ne_eq, not_true_eq_false,
      not_false_eq_true, if_true, if_false, pure, Except.pure, bind, Except.bind]
    rw [clears ctx.oracle rfl]
  · intro someWeight someFees ready
    rcases rewardPrevBallotWinners_spec ctx with ⟨after, done, -, -, -, changes⟩
    refine ⟨after, done, ?_⟩
    simp only [rewardPrevBallotWinners, someWeight, someFees, ne_eq, not_false_eq_true,
      if_true] at done
    rcases Outcome.bind_eq_ok.mp done with ⟨doled, dole, done⟩
    cases done
    rcases doleOutRewards_receives someWeight ready dole with
      ⟨doledEq, dust, received, counted⟩
    rw [claimPool_eq addressed] at dust received
    have doledOracle : doled.oracle = ctx.oracle.clearSwapFeePool := by rw [doledEq]
    exact
      { balance := received.balance
        toValidators := fun address denom => by
          rw [received.allocatedTo address denom, sum_allocation]
        dust := dust
        toCollector := fun denom => by
          rw [received.collectedFees denom, ← add_assoc]
          rfl
        whole := fun denom => by
          rw [changes.holdings denom, payout, if_neg someWeight]
        issuance := fun denom => by
          have day : ({ doled with oracle := doled.oracle.clearClaimPool } : Context L).today =
              ctx.today := (counted denom).sameDay
          rw [day, ← (counted denom).today]
          rfl
        cleared := by
          simp only [doledOracle]
          exact clears ctx.oracle.clearSwapFeePool rfl
        rest := by rw [doledEq] }

end Payout

/-- A fee of one hundred, to be shared by a validator and somebody who left. -/
def sampleFees : Coins := ⟨[⟨microSDRDenom, 100⟩], by decide⟩

def samplePayout : Context Book :=
  let start := Context.genesis Book.empty (Staking.single (List.replicate 20 1) 10 single_length)
  { start with
    oracle := (start.oracle.addSwapFeePool sampleFees).addClaimPool
      [⟨3, List.replicate 20 1⟩, ⟨4, List.replicate 20 2⟩]
    mint := { issuance := (∅ : Store (Denom × ℤ) ℕ).insert (microSDRDenom, 0) 1000 } }

theorem rewards_conserve_fees_sample :
    claimWeightSum samplePayout.oracle = 7 ∧
      ∃ after, rewardPrevBallotWinners samplePayout = .ok after ∧
        PaidOut samplePayout.oracle.getSwapFeePool (claimWeightSum samplePayout.oracle)
          samplePayout after := by
  have weight : claimWeightSum samplePayout.oracle = 7 := by decide +kernel
  have fees : samplePayout.oracle.getSwapFeePool = sampleFees := by decide +kernel
  have addressed : ClaimsAddressed samplePayout.oracle := by
    have listed : ∀ claim ∈ samplePayout.oracle.claims.toList, claim.1.length = addrLen := by
      decide +kernel
    intro recipient amount present
    exact listed (recipient, amount) ((Store.mem_toList_iff _ _).mpr present)
  refine ⟨weight, (rewards_conserve_fees samplePayout addressed).2.2 ?_ ?_ ?_⟩
  · rw [weight]
    decide
  · rw [fees]
    decide
  · rw [fees]
    intro coin coinMem
    rw [List.mem_singleton.mp coinMem]
    exact ⟨1000, by decide +kernel⟩

end TerraCore.Oracle
