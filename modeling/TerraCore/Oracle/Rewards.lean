import TerraCore.Oracle.EndBlocker

/-!
# Paying the winners of the previous ballots

The fee pool is split among the claims in proportion to their weights. Shares
are rounded down, so that together they never exceed the pool, and whatever is
left over goes to the fee collector. The whole pool therefore enters the ledger
and is added to the issuance, whatever the claims are. The unbonded tokens of
the staking pool are not touched.
-/

namespace TerraCore

namespace Oracle

open Mint

/-- The share of a claim in a fee of the given amount. -/
def rewardShare (weightSum weight : ℕ) (amount : ℤ) : ℤ :=
  (((Dec.ofInt amount).quoInt64 weightSum).mulInt weight).truncateInt

theorem rewardAmt_eq {weightSum : ℕ} (someWeight : weightSum ≠ 0) (weight : ℕ) (feeCoin : Coin) :
    rewardAmt weightSum weight feeCoin = .ok (rewardShare weightSum weight feeCoin.amount) := by
  have nonzero : ((weightSum : ℕ) : ℤ) ≠ 0 := by exact_mod_cast someWeight
  unfold rewardAmt Dec.quoInt
  rw [if_neg nonzero]
  rfl

theorem rewardShare_nonneg (weightSum weight : ℕ) {amount : ℤ} (nonneg : 0 ≤ amount) :
    0 ≤ rewardShare weightSum weight amount := by
  have scaled : 0 ≤ amount * Dec.precision := mul_nonneg nonneg Dec.precision_pos.le
  have share : 0 ≤ (amount * Dec.precision).tdiv weightSum :=
    Int.tdiv_nonneg scaled (Int.natCast_nonneg _)
  exact Int.tdiv_nonneg (mul_nonneg share (Int.natCast_nonneg _)) Dec.precision_pos.le

/-- The shares of all claims together do not exceed the fee. -/
theorem sum_rewardShare_le {weights : List ℕ} {weightSum : ℕ} (total : weights.sum = weightSum)
    (someWeight : weightSum ≠ 0) {amount : ℤ} (nonneg : 0 ≤ amount) :
    (weights.map fun weight => rewardShare weightSum weight amount).sum ≤ amount := by
  have precisionPos := Dec.precision_pos
  have scaled : 0 ≤ amount * Dec.precision := mul_nonneg nonneg precisionPos.le
  obtain ⟨perWeight, perWeightEq⟩ :
      ∃ perWeight, perWeight = (amount * Dec.precision).tdiv weightSum :=
    ⟨_, rfl⟩
  have perWeightNonneg : 0 ≤ perWeight :=
    perWeightEq ▸ Int.tdiv_nonneg scaled (Int.natCast_nonneg _)
  -- Each share costs at most its weight, and the weights add up to the divisor.
  have bounded : (weights.map fun weight => rewardShare weightSum weight amount).sum *
      Dec.precision ≤ perWeight * (weights.sum : ℕ) := by
    clear total
    induction weights with
    | nil => simp
    | cons weight weights ih =>
        have one : rewardShare weightSum weight amount * Dec.precision ≤ perWeight * weight := by
          have value : rewardShare weightSum weight amount =
              (perWeight * weight).tdiv Dec.precision := by
            rw [perWeightEq]
            rfl
          rw [value, Int.tdiv_eq_ediv_of_nonneg
            (mul_nonneg perWeightNonneg (Int.natCast_nonneg _))]
          exact Int.ediv_mul_le _ precisionPos.ne'
        rw [List.map_cons, List.sum_cons, List.sum_cons, add_mul, Nat.cast_add, mul_add]
        exact add_le_add one ih
  have whole : perWeight * (weightSum : ℤ) ≤ amount * Dec.precision := by
    rw [perWeightEq, Int.tdiv_eq_ediv_of_nonneg scaled]
    exact Int.ediv_mul_le _ (by exact_mod_cast someWeight)
  rw [total] at bounded
  exact le_of_mul_le_mul_right (bounded.trans whole) precisionPos

/-- The reward of a claim in one denomination, out of the given fees. -/
def rewardOf (fees : List Coin) (weightSum weight : ℕ) (denom : Denom) : ℤ :=
  ((fees.filter fun feeCoin => feeCoin.denom = denom).map fun feeCoin =>
    rewardShare weightSum weight feeCoin.amount).sum

/-- The reward of a claim can always be computed. -/
theorem rewardCoins_spec (accmFeePool : Coins) {weightSum : ℕ} (someWeight : weightSum ≠ 0)
    (weight : ℕ) :
    ∃ coins, rewardCoins accmFeePool weightSum weight = .ok coins ∧
      ∀ denom, coins.amountOf denom = rewardOf accmFeePool.toList weightSum weight denom := by
  have general : ∀ (fees : List Coin) (start : Coins),
      (∀ feeCoin ∈ fees, validateDenom feeCoin.denom = true ∧ 0 ≤ feeCoin.amount) →
      ∃ coins, fees.foldlM (fun rewardCoins feeCoin => do
          let amount ← rewardAmt weightSum weight feeCoin
          let coin ← newCoin feeCoin.denom amount
          let coins ← Coins.ofCoin coin
          pure (rewardCoins.add coins)) start = (.ok coins : Outcome Coins) ∧
        ∀ denom, coins.amountOf denom =
          start.amountOf denom + rewardOf fees weightSum weight denom := by
    intro fees
    induction fees with
    | nil =>
        intro start _
        exact ⟨start, rfl, by simp [rewardOf]⟩
    | cons feeCoin fees ih =>
        intro start valid
        rcases valid feeCoin List.mem_cons_self with ⟨denomValid, amountNonneg⟩
        have shareNonneg := rewardShare_nonneg weightSum weight amountNonneg
        rcases Coins.ofCoin_isOk denomValid shareNonneg with ⟨reward, made⟩
        have laterValid := fun other otherMem => valid other (List.mem_cons_of_mem _ otherMem)
        rcases ih (start.add reward) laterValid with ⟨coins, folded, amounts⟩
        refine ⟨coins, ?_, ?_⟩
        · rw [List.foldlM_cons, rewardAmt_eq someWeight]
          have coinMade : newCoin feeCoin.denom (rewardShare weightSum weight feeCoin.amount) =
              .ok ⟨feeCoin.denom, rewardShare weightSum weight feeCoin.amount⟩ :=
            newCoin_eq_ok.mpr ⟨denomValid, shareNonneg, rfl⟩
          simp only [bind, Except.bind, coinMade, made]
          exact folded
        · intro denom
          rw [amounts, Coins.amountOf_add, Coins.amountOf_ofCoin made]
          unfold rewardOf
          by_cases here : feeCoin.denom = denom
          · simp [here, add_assoc]
          · simp [here]
  rcases general accmFeePool.toList Coins.empty fun feeCoin feeMem =>
      ⟨accmFeePool.proper.denoms feeCoin feeMem, (accmFeePool.amount_pos feeMem).le⟩ with
    ⟨coins, folded, amounts⟩
  exact ⟨coins, folded, by simpa using amounts⟩

theorem sum_rewardOf_le (accmFeePool : Coins) {weights : List ℕ} {weightSum : ℕ}
    (total : weights.sum = weightSum) (someWeight : weightSum ≠ 0) (denom : Denom) :
    (weights.map fun weight => rewardOf accmFeePool.toList weightSum weight denom).sum ≤
      accmFeePool.amountOf denom := by
  have general : ∀ fees : List Coin, (∀ feeCoin ∈ fees, 0 ≤ feeCoin.amount) →
      (weights.map fun weight => rewardOf fees weightSum weight denom).sum ≤
        TerraCore.amountOf fees denom := by
    intro fees
    induction fees with
    | nil =>
        intro _
        simp [rewardOf]
    | cons feeCoin fees ih =>
        intro nonneg
        have rest := ih fun other otherMem => nonneg other (List.mem_cons_of_mem _ otherMem)
        rw [amountOf_cons]
        by_cases here : feeCoin.denom = denom
        · have one := sum_rewardShare_le total someWeight (nonneg feeCoin List.mem_cons_self)
          have splitSum : (weights.map fun weight =>
              rewardOf (feeCoin :: fees) weightSum weight denom).sum =
                (weights.map fun weight => rewardShare weightSum weight feeCoin.amount).sum +
                  (weights.map fun weight => rewardOf fees weightSum weight denom).sum := by
            rw [← List.sum_map_add]
            simp [rewardOf, here]
          rw [splitSum, if_pos here]
          exact add_le_add one rest
        · simpa [rewardOf, here] using rest
  exact general _ fun feeCoin feeMem => (accmFeePool.amount_pos feeMem).le

section Payout

variable {L : Type} [Sdk L]

/-- Paying claims only touches the ledger, which gains what is distributed. -/
theorem payClaims_spec (accmFeePool : Coins) {weightSum : ℕ} (someWeight : weightSum ≠ 0)
    (claims : List (Address × ℕ)) (ctx : Context L) (distributedFee : Coins) :
    ∃ (ledger : L) (distributed : Coins),
      claims.foldlM (payClaim accmFeePool weightSum) (ctx, distributedFee) =
          (.ok ({ ctx with ledger }, distributed) : Outcome (Context L × Coins)) ∧
        (∀ denom, distributed.amountOf denom = distributedFee.amountOf denom +
          (claims.map fun claim =>
            rewardOf accmFeePool.toList weightSum claim.2 denom).sum) ∧
        Changes (fun denom => (claims.map fun claim =>
          rewardOf accmFeePool.toList weightSum claim.2 denom).sum) 0 0 ctx
            { ctx with ledger } := by
  induction claims generalizing ctx distributedFee with
  | nil =>
      refine ⟨ctx.ledger, distributedFee, rfl, by simp, ?_⟩
      exact (Changes.refl ctx).of_eq (by simp) (by simp) rfl
  | cons claim claims ih =>
      rcases rewardCoins_spec accmFeePool someWeight claim.2 with ⟨rewards, computed, amounts⟩
      obtain ⟨paid, one, moves⟩ : ∃ paid : L,
          payClaim accmFeePool weightSum (ctx, distributedFee) claim =
              .ok ({ ctx with ledger := paid }, distributedFee.add rewards) ∧
            Changes (fun denom => rewards.amountOf denom) 0 0 ctx
              { ctx with ledger := paid } := by
        unfold payClaim
        simp only [computed, bind, Except.bind]
        cases ctx.staking.validator claim.1 with
        | some bonded =>
            refine ⟨_, rfl, ?_⟩
            exact (Changes.of_moves ctx (Sdk.allocateTokensToValidator_moves ctx.ledger claim.1
              rewards)).of_eq (by simp [creditedTotal_cons, Coins.amountOf]) (by simp) rfl
        | none =>
            refine ⟨_, rfl, ?_⟩
            exact (Changes.of_moves ctx (Sdk.addCollectedFees_moves ctx.ledger rewards)).of_eq
              (by simp [Coins.amountOf]) (by simp) rfl
      rcases ih { ctx with ledger := paid } (distributedFee.add rewards) with
        ⟨ledger, distributed, folded, distributedAmounts, restMoves⟩
      refine ⟨ledger, distributed, ?_, ?_, ?_⟩
      · rw [List.foldlM_cons, one]
        exact folded
      · intro denom
        rw [distributedAmounts, Coins.amountOf_add, amounts, List.map_cons, List.sum_cons,
          add_assoc]
      · refine (moves.trans restMoves).of_eq ?_ (by simp) rfl
        intro denom
        simp [amounts]

/-- The issuance of every fee is raised. -/
theorem changeIssuances_spec (fees : List Coin) (nonneg : ∀ feeCoin ∈ fees, 0 ≤ feeCoin.amount)
    (ctx : Context L) :
    ∃ mint : MintStore,
      fees.foldlM (fun ctx feeCoin =>
        mustSucceed (changeIssuance ctx feeCoin.denom feeCoin.amount)) ctx =
          (.ok { ctx with mint } : Outcome (Context L)) ∧
        Changes 0 (amountOf fees) 0 ctx { ctx with mint } := by
  induction fees generalizing ctx with
  | nil =>
      refine ⟨ctx.mint, rfl, ?_⟩
      exact (Changes.refl ctx).of_eq (by simp) (by simp) rfl
  | cons feeCoin fees ih =>
      rcases changeIssuance_isOk ctx feeCoin.denom (nonneg feeCoin List.mem_cons_self) with
        ⟨raised, changed⟩
      have counted := changeIssuance_changes changed
      obtain ⟨mint, rfl⟩ : ∃ mint, raised = { ctx with mint } := ⟨_, changeIssuance_frame changed⟩
      have laterNonneg := fun other otherMem => nonneg other (List.mem_cons_of_mem _ otherMem)
      rcases ih laterNonneg { ctx with mint } with ⟨mint, folded, restCounted⟩
      refine ⟨mint, ?_, ?_⟩
      · rw [List.foldlM_cons, mustSucceed_eq_ok.mpr changed]
        exact folded
      · refine (counted.trans restCounted).of_eq (by simp) ?_ rfl
        intro denom
        simp [amountOf_cons, only]

theorem claimWeightSum_eq (store : OracleStore) :
    claimWeightSum store = (store.claimPool.map Prod.snd).sum := by
  unfold claimWeightSum
  have fromStart : ∀ (claims : List (Address × ℕ)) (start : ℕ),
      claims.foldl (fun weightSum claim => weightSum + claim.2) start =
        start + (claims.map Prod.snd).sum := by
    intro claims
    induction claims with
    | nil => simp
    | cons claim claims ih =>
        intro start
        rw [List.foldl_cons, ih, List.map_cons, List.sum_cons, add_assoc]
  rw [fromStart, zero_add]

/-- The fee pool is paid out in full: it enters the ledger and the issuance. -/
theorem doleOutRewards_spec (ctx : Context L)
    (someWeight : claimWeightSum ctx.oracle ≠ 0) :
    ∃ after : Context L,
      doleOutRewards ctx ctx.oracle.getSwapFeePool (claimWeightSum ctx.oracle) = .ok after ∧
        after.oracle = ctx.oracle.clearSwapFeePool ∧ after.staking = ctx.staking ∧
        after.treasury = ctx.treasury ∧
        Changes ctx.oracle.getSwapFeePool.amountOf ctx.oracle.getSwapFeePool.amountOf 0
          ctx after := by
  obtain ⟨pool, poolEq⟩ : ∃ pool, pool = ctx.oracle.getSwapFeePool := ⟨_, rfl⟩
  rw [← poolEq]
  rcases payClaims_spec pool someWeight ctx.oracle.claimPool ctx Coins.empty with
    ⟨ledger, distributed, folded, distributedAmounts, moved⟩
  simp only [Coins.amountOf_empty, zero_add] at distributedAmounts
  have covered : ∀ denom, distributed.amountOf denom ≤ pool.amountOf denom := by
    intro denom
    have bound := sum_rewardOf_le pool (claimWeightSum_eq ctx.oracle).symm someWeight denom
    rw [distributedAmounts]
    simpa [List.map_map, Function.comp_def] using bound
  rcases Coins.sub_isOk covered with ⟨leftFee, subtracted⟩
  -- Whether the rest is empty or not, the ledger now holds the whole pool.
  obtain ⟨collected, collect, collectMoved⟩ : ∃ collected : L,
      (if leftFee.toList ≠ [] then
          { ctx with ledger := Sdk.addCollectedFees ledger leftFee }
        else { ctx with ledger }) = { ctx with ledger := collected } ∧
        Changes leftFee.amountOf 0 0 { ctx with ledger } { ctx with ledger := collected } := by
    by_cases isEmpty : leftFee.toList = []
    · refine ⟨ledger, by simp [isEmpty], (Changes.refl _).of_eq ?_ (by simp) rfl⟩
      intro denom
      exact (Coins.amountOf_eq_zero_of_isEmpty isEmpty denom).symm
    · refine ⟨Sdk.addCollectedFees ledger leftFee, by simp [isEmpty], ?_⟩
      exact (Changes.of_moves { ctx with ledger } (Sdk.addCollectedFees_moves ledger
        leftFee)).of_eq (by simp [Coins.amountOf]) (by simp) rfl
  have feesNonneg : ∀ feeCoin ∈ pool.toList, 0 ≤ feeCoin.amount := fun feeCoin feeMem =>
    (pool.amount_pos feeMem).le
  rcases changeIssuances_spec pool.toList feesNonneg { ctx with ledger := collected } with
    ⟨mint, raised, counted⟩
  refine ⟨{ ctx with ledger := collected, mint, oracle := ctx.oracle.clearSwapFeePool },
    ?_, rfl, rfl, rfl, ?_⟩
  · unfold doleOutRewards
    rw [folded]
    simp only [bind, Except.bind, subtracted]
    rw [collect, raised]
    rfl
  · have cleared := Changes.of_oracle { ctx with ledger := collected, mint }
      ctx.oracle.clearSwapFeePool
    refine (((moved.trans collectMoved).trans counted).trans cleared).of_eq ?_ ?_ rfl
    · intro denom
      simp only [Pi.add_apply, Pi.zero_apply, add_zero, Coins.amountOf_of_sub subtracted,
        distributedAmounts]
      ring
    · intro denom
      simp [Coins.amountOf]

/-- The fees that the next payout distributes. -/
def payout (store : OracleStore) (denom : Denom) : ℤ :=
  if claimWeightSum store = 0 then 0 else store.getSwapFeePool.amountOf denom

theorem payout_nonneg (store : OracleStore) (denom : Denom) : 0 ≤ payout store denom := by
  unfold payout
  split
  · exact le_rfl
  · exact store.getSwapFeePool.amountOf_nonneg denom

/-- The oracle store after the payout. -/
def settled (store : OracleStore) : OracleStore :=
  if claimWeightSum store = 0 then store
  else if store.getSwapFeePool.toList = [] then store.clearClaimPool
  else store.clearSwapFeePool.clearClaimPool

/-- `rewardPrevBallotWinners` never fails. -/
theorem rewardPrevBallotWinners_spec (ctx : Context L) :
    ∃ after : Context L, rewardPrevBallotWinners ctx = .ok after ∧
      after.oracle = settled ctx.oracle ∧ after.staking = ctx.staking ∧
      after.treasury = ctx.treasury ∧
      Changes (payout ctx.oracle) (payout ctx.oracle) 0 ctx after := by
  unfold rewardPrevBallotWinners settled
  by_cases noWeight : claimWeightSum ctx.oracle = 0
  · have nothing : payout ctx.oracle = 0 := by
      funext denom
      simp [payout, noWeight]
    simp only [noWeight, nothing]
    exact ⟨ctx, rfl, rfl, rfl, rfl, Changes.refl ctx⟩
  · have whole : payout ctx.oracle = ctx.oracle.getSwapFeePool.amountOf := by
      funext denom
      simp [payout, noWeight]
    simp only [whole, ne_eq, noWeight, not_false_eq_true, if_true, if_false]
    by_cases noFees : ctx.oracle.getSwapFeePool.toList = []
    · have nothing := fun denom => (Coins.amountOf_eq_zero_of_isEmpty noFees denom).symm
      refine ⟨{ ctx with oracle := ctx.oracle.clearClaimPool }, ?_, ?_, rfl, rfl, ?_⟩
      · simp [noFees, bind, Except.bind, pure, Except.pure]
      · simp [noFees]
      · exact (Changes.of_oracle ctx ctx.oracle.clearClaimPool).of_eq nothing nothing rfl
    · rcases doleOutRewards_spec ctx noWeight with
        ⟨paid, doled, oracleEq, stakingEq, treasuryEq, changes⟩
      refine ⟨{ paid with oracle := paid.oracle.clearClaimPool }, ?_, ?_, stakingEq, treasuryEq, ?_⟩
      · simp [noFees, doled, bind, Except.bind, pure, Except.pure]
      · simp [noFees, oracleEq]
      · exact (changes.trans (Changes.of_oracle paid paid.oracle.clearClaimPool)).of_eq
          (by simp) (by simp) rfl

end Payout

end Oracle

end TerraCore
