import TerraCore.Budget.Halting
import TerraCore.Mint.Counting

/-!
# Whom the claims are paid to

A claim is stored under the printed address of an executor. The address is
parsed again to pay the claim and to delete it, and a parse error is ignored:
an executor whose address does not have twenty bytes is read as the empty
address. Its reward is then minted to nobody, and its claim stays.
-/

namespace TerraCore.Budget

open Transition

variable {L : Type} [Sdk L]

/-- The address that is read back from the key of a claim. -/
def readBack (recipient : Address) : Address := (accAddressFromBech32 recipient).getD []

theorem readBack_of_length {recipient : Address} (length : recipient.length = addrLen) :
    readBack recipient = recipient := by
  simp [readBack, length]

theorem readBack_eq_self_iff (recipient : Address) :
    readBack recipient = recipient ↔ recipient.length = addrLen ∨ recipient = [] := by
  simp only [readBack, accAddressFromBech32]
  split
  · next readable => simp [readable.symm]
  · next unreadable =>
      rw [Readable, not_or] at unreadable
      simp [unreadable.2, eq_comm]

/-- The reward of one claim. -/
def rewardAmt (pool : DecCoin) (weightSum weight : ℤ) : ℤ :=
  ((pool.amount.mulInt weight).quoInt64 weightSum).truncateInt

theorem payClaim_balance {pool : DecCoin} {weightSum : ℤ} {before after : Context L}
    {claim : Address × ℤ} (done : payClaim pool weightSum before claim = .ok after)
    (address : Address) (denom : Denom) :
    (Ledger.balance after.ledger address denom : ℤ) =
      Ledger.balance before.ledger address denom +
        if claim.1 = address then Mint.only pool.denom (rewardAmt pool weightSum claim.2) denom
        else 0 := by
  rcases Outcome.bind_eq_ok.mp done with ⟨share, divided, done⟩
  rcases Outcome.bind_eq_ok.mp done with ⟨coin, made, done⟩
  simp only [Dec.quoInt] at divided
  split at divided
  · cases divided
  · cases divided
    rcases newCoin_eq_ok.mp made with ⟨-, -, rfl⟩
    rcases Mint.mint_writes (mustSucceed_eq_ok.mp done) with ⟨ledger, mint, moves, rfl⟩
    rw [moves.balance address denom]
    simp only [credited_cons, credited_nil, amountOf_cons, amountOf_nil, add_zero, sub_zero,
      Mint.only]
    rfl

theorem payClaims_balance {pool : DecCoin} {weightSum : ℤ} {claims : List (Address × ℤ)}
    {before after : Context L}
    (done : claims.foldlM (payClaim pool weightSum) before = .ok after)
    (address : Address) (denom : Denom) :
    (Ledger.balance after.ledger address denom : ℤ) =
      Ledger.balance before.ledger address denom + (claims.map fun claim =>
        if claim.1 = address then Mint.only pool.denom (rewardAmt pool weightSum claim.2) denom
        else 0).sum := by
  induction claims generalizing before with
  | nil =>
      cases done
      simp
  | cons claim claims ih =>
      rw [List.foldlM_cons] at done
      rcases Outcome.bind_eq_ok.mp done with ⟨middle, first, rest⟩
      rw [ih rest, payClaim_balance first]
      simp only [List.map_cons, List.sum_cons]
      ring

/-- What the claims of an address are worth. -/
def claimedReward (pool : DecCoin) (claims : Store Address ℤ) (address : Address) (denom : Denom) :
    ℤ :=
  ((claims[address]?).map fun weight =>
    Mint.only pool.denom (rewardAmt pool (claimTotal claims) weight) denom).getD 0

/-- When all addresses can be read back, everybody receives their own reward. -/
theorem sum_claimPool {store : BudgetStore} (pool : DecCoin)
    (readable : ∀ (recipient : Address) (weight : ℤ),
      store.claims[recipient]? = some weight → readBack recipient = recipient)
    (address : Address) (denom : Denom) :
    (store.claimPool.map fun claim => if claim.1 = address then
        Mint.only pool.denom (rewardAmt pool (claimWeightSum store) claim.2) denom
      else 0).sum = claimedReward pool store.claims address denom := by
  rw [claimWeightSum_eq, claimedReward, ← Store.sum_at]
  simp only [Store.sum, BudgetStore.claimPool, List.map_map]
  congr 1
  apply List.map_congr_left
  intro claim claimMem
  have present := (Store.mem_toList_iff store.claims claim).mp claimMem
  have same : (accAddressFromBech32 claim.1).getD [] = claim.1 := readable claim.1 claim.2 present
  simp only [Function.comp_apply, same]

/-- The claims are all deleted exactly when their addresses can be read back. -/
theorem clearClaimPool_eq_empty_iff (store : BudgetStore) :
    store.clearClaimPool.claims = ∅ ↔
      ∀ (recipient : Address) (weight : ℤ),
        store.claims[recipient]? = some weight → readBack recipient = recipient := by
  have readKeys : store.claimPool.map Prod.fst = store.claims.toList.map fun claim =>
      readBack claim.1 := by
    simp only [BudgetStore.claimPool, List.map_map]
    rfl
  simp only [BudgetStore.clearClaimPool, readKeys]
  constructor
  · intro cleared recipient weight present
    have erased := Store.get_eraseAll store.claims
      (store.claims.toList.map fun claim => readBack claim.1) recipient
    rw [cleared, Store.get_empty] at erased
    split at erased
    · next listed =>
        -- What is deleted was read back from a key: it is that key, or empty.
        rcases List.mem_map.mp listed with ⟨claim, -, readEq⟩
        rw [readBack_eq_self_iff]
        by_cases readable : Readable claim.1
        · have same := (readBack_eq_self_iff claim.1).mpr readable.symm
          rw [← readEq, same]
          exact readable.symm
        · right
          rw [← readEq]
          simp [readBack, accAddressFromBech32, readable]
    · rw [present] at erased
      cases erased
  · intro readable
    have sameKeys : store.claims.toList.map (fun claim => readBack claim.1) =
        store.claims.keys := by
      rw [← Std.ExtTreeMap.map_fst_toList_eq_keys]
      apply List.map_congr_left
      intro claim claimMem
      exact readable claim.1 claim.2 ((Store.mem_toList_iff store.claims claim).mp claimMem)
    rw [sameKeys]
    exact Store.eraseAll_keys store.claims

/-- What an address earns when the epoch ends with the block. -/
def epochShare (ctx : Context L) (address : Address) (denom : Denom) : ℤ :=
  if Dec.zero < epochReward ctx then
    match rewardPoolCoin ctx (epochReward ctx) with
    | .ok pool => claimedReward pool (dueClaims ctx) address denom
    | .error _ => 0
  else 0

/-- Every reward was minted to the executor that its claim was recorded for,
and the claims are gone. -/
structure ClaimsSettled (ctx after : Context L) : Prop where
  paid : ∀ address denom, (Ledger.balance after.ledger address denom : ℤ) =
    Ledger.balance ctx.ledger address denom + epochShare ctx address denom
  cleared : after.budget.claims = ∅

theorem rewardPool_eq_ok {ctx read : Context L} {budget : BudgetStore} {pool : Dec}
    (done : rewardPool { ctx with budget } = .ok (pool, read)) :
    pool = epochReward ctx ∧ read.ledger = ctx.ledger := by
  have sameWeight : (Treasury.getRewardWeight { ctx with budget } ctx.getEpoch).1 =
      (Treasury.getRewardWeight ctx ctx.getEpoch).1 := by
    simp only [Treasury.getRewardWeight]
    cases ctx.treasury.rewardWeights[ctx.getEpoch]? <;> rfl
  have sameSeigniorage : (Mint.peekEpochSeigniorage
      (Treasury.getRewardWeight { ctx with budget } ctx.getEpoch).2 ctx.getEpoch).1 =
      (Mint.peekEpochSeigniorage ctx ctx.getEpoch).1 := by
    simp only [Treasury.getRewardWeight]
    cases ctx.treasury.rewardWeights[ctx.getEpoch]? <;> rfl
  have sameLedger : (Treasury.getRewardWeight { ctx with budget } ctx.getEpoch).2.ledger =
      ctx.ledger := by
    simp only [Treasury.getRewardWeight]
    cases ctx.treasury.rewardWeights[ctx.getEpoch]? <;> rfl
  have sameEpoch : ({ ctx with budget } : Context L).getEpoch = ctx.getEpoch := rfl
  simp only [rewardPool, sameEpoch, sameWeight, sameSeigniorage] at done
  cases found : (Treasury.getRewardWeight ctx ctx.getEpoch).1 with
  | none =>
      rw [found] at done
      cases done
  | some weight =>
      rw [found] at done
      cases done
      refine ⟨?_, sameLedger⟩
      rw [epochReward, found]
      rfl

/-- The end of an epoch pays the claims that the third phase finds and then deletes them. -/
theorem endBlocker_pays {ctx after : Context L} {tags : Tags}
    (last : ctx.LastBlock blocksPerEpoch) (done : endBlocker ctx = .ok (tags, after)) :
    ∃ read paid : Context L, read.ledger = ctx.ledger ∧ read.oracle = ctx.oracle ∧
      read.budget = reweighed ctx ∧ payRewards read (epochReward ctx) = .ok paid ∧
      after.ledger = paid.ledger ∧ after.budget = read.budget.clearClaimPool := by
  rcases endBlocker_steps done with ⟨notLast, -⟩ | ⟨-, pool, read, paid, pooled, paying, rfl⟩
  · exact absurd last notLast
  · rcases rewardPool_reads pooled with ⟨readOracle, readBudget⟩
    rcases rewardPool_eq_ok pooled with ⟨rfl, sameLedger⟩
    refine ⟨read, paid, sameLedger, readOracle, readBudget, paying, rfl, ?_⟩
    rw [(payRewards_frame paying).budget]

/-- At the end of an epoch the claims are settled exactly when every address
that they are recorded for can be read back. -/
theorem claimsSettled_iff {ctx after : Context L} {tags : Tags}
    (wellFormed : WellFormed ctx.budget) (last : ctx.LastBlock blocksPerEpoch)
    (done : endBlocker ctx = .ok (tags, after)) :
    ClaimsSettled ctx after ↔
      ∀ (recipient : Address) (weight : ℤ),
        (dueClaims ctx)[recipient]? = some weight → readBack recipient = recipient := by
  rcases endBlocker_pays last done with
    ⟨read, paid, sameLedger, sameOracle, sameBudget, paying, paidLedger, clearedBudget⟩
  have due : read.budget.claims = dueClaims ctx := by
    rw [sameBudget]
    exact reweighed_claims wellFormed
  have clearedIff := clearClaimPool_eq_empty_iff read.budget
  rw [← clearedBudget, due] at clearedIff
  constructor
  · intro settled
    exact clearedIff.mp settled.cleared
  · intro readable
    refine ⟨?_, clearedIff.mpr readable⟩
    intro address denom
    rw [paidLedger, ← sameLedger]
    simp only [payRewards, rewardPoolCoin_congr sameOracle] at paying
    simp only [epochShare]
    split at paying
    · next positive =>
        rcases Outcome.bind_eq_ok.mp paying with ⟨pool, pooled, paying⟩
        rw [if_pos positive, pooled]
        rw [payClaims_balance paying address denom, sum_claimPool pool (due ▸ readable), due]
    · next notPositive =>
        cases paying
        rw [if_neg notPositive, add_zero]

/-- All executors have the property, those of the claims included. -/
structure Executors (property : Address → Prop) (store : BudgetStore) : Prop where
  programs : ∀ (programID : ℕ) (program : Program),
    store.programs[programID]? = some program → property program.executor
  claims : ∀ (recipient : Address) (weight : ℤ),
    store.claims[recipient]? = some weight → property recipient

/-- Programs are only submitted with executors that have the property. -/
def SubmitsOnly (property : Address → Prop) (action : Action L) : Prop :=
  ∀ msg, action = .submitProgram msg → property msg.executor

variable {property : Address → Prop}

omit [Sdk L] in
theorem Executors.dueClaims {ctx : Context L} (executors : Executors property ctx.budget)
    (recipient : Address) (weight : ℤ) (present : (dueClaims ctx)[recipient]? = some weight) :
    property recipient := by
  simp only [Budget.dueClaims] at present
  split at present
  · rcases (Store.mem_accumulateAll_iff _ _ recipient).mp ⟨weight, present⟩ with
      ⟨earlier, stored⟩ | ⟨entry, entryMem, rfl⟩
    · exact executors.claims recipient earlier stored
    · rcases List.mem_map.mp entryMem with ⟨claim, claimMem, rfl⟩
      rcases List.mem_flatMap.mp claimMem with ⟨program, listed, granted⟩
      simp only [dueGrant] at granted
      split at granted
      · rw [List.mem_singleton.mp granted]
        exact executors.programs _ program ((mem_programsOf_iff ctx.budget program).mp listed)
      · cases granted
  · exact executors.claims recipient weight present

theorem step_executors {ctx next : Context L} {action : Action L}
    (taken : step ctx action = some next) (submits : SubmitsOnly property action)
    (wellFormed : WellFormed ctx.budget) (executors : Executors property ctx.budget) :
    Executors property next.budget := by
  cases step_effect taken with
  | kept _ _ budget => exact budget ▸ executors
  | @submitted msg _ _ _ budget =>
      rw [budget]
      refine ⟨?_, executors.claims⟩
      intro programID program present
      rw [addCandidate_programs] at present
      split at present
      · cases present
        exact submits msg rfl
      · exact executors.programs programID program present
  | @withdrew msg _ program _ _ _ budget =>
      rw [budget]
      refine ⟨?_, executors.claims⟩
      intro programID found present
      exact executors.programs programID found
        ((Shrinks.withdrawn ctx.budget program msg.programID).programs _ _ present)
  | voted _ _ budget =>
      rw [budget]
      exact ⟨executors.programs, executors.claims⟩
  | ended _ budget =>
      have shrinks := (rewarded_sameRecords ctx).shrinks (blockEnd_shrinks ctx)
      rw [budget]
      refine ⟨fun programID program present =>
        executors.programs programID program (shrinks.programs _ _ present), ?_⟩
      intro recipient weight present
      apply executors.dueClaims recipient weight
      rw [← reweighed_claims wellFormed]
      simp only [rewarded] at present
      split at present
      · exact Store.get_of_get_eraseAll present
      · exact present
  | paramsSet _ budget =>
      rw [budget]
      exact ⟨executors.programs, executors.claims⟩

/-- Only executors of submitted programs earn claims. -/
theorem reaches_executors {params : Params} {start ctx : Context L} {actions : List (Action L)}
    (votePeriod : 0 < params.votePeriod) (initial : start.budget = BudgetStore.initial params)
    (reached : Reaches step start actions ctx)
    (submits : ∀ action ∈ actions, SubmitsOnly property action) :
    Executors property ctx.budget := by
  have along : Along step (fun _ action => SubmitsOnly property action) start actions :=
    along_of_forall (fun action listed _ => submits action listed) start
  have both := reached.invariant_of_along
    (fun state => Consistent state ∧ Executors property state.budget) ?_ along ?_
  · exact both.2
  · rintro before action after ⟨consistent, executors⟩ submitsNow taken
    exact ⟨step_consistent taken consistent,
      step_executors taken submitsNow consistent.wellFormed executors⟩
  · refine ⟨initial_consistent votePeriod initial, ?_⟩
    rw [initial]
    exact ⟨fun _ _ present => by simp [BudgetStore.initial] at present,
      fun _ _ present => by simp [BudgetStore.initial] at present⟩

/-- In every state that is reached with executors that the message check lets
in, an epoch that ends settles its claims exactly when all of them are recorded
for addresses of twenty bytes. It always does when all submitted programs have
such executors. -/
theorem claims_settled_iff_addresses {params : Params} {start ctx after : Context L}
    {actions : List (Action L)} {tags : Tags} (votePeriod : 0 < params.votePeriod)
    (initial : start.budget = BudgetStore.initial params)
    (reached : Reaches step start actions ctx)
    (accepted : ∀ action ∈ actions, SubmitsOnly (· ≠ []) action)
    (last : ctx.LastBlock blocksPerEpoch) (done : endBlocker ctx = .ok (tags, after)) :
    (ClaimsSettled ctx after ↔
        ∀ (recipient : Address) (weight : ℤ),
          (dueClaims ctx)[recipient]? = some weight → recipient.length = addrLen) ∧
      ((∀ action ∈ actions, SubmitsOnly (fun executor => executor.length = addrLen) action) →
        ClaimsSettled ctx after) := by
  have consistent := reaches_consistent reached (initial_consistent votePeriod initial)
  have settledIff := claimsSettled_iff consistent.wellFormed last done
  have nonempty := (reaches_executors votePeriod initial reached accepted).dueClaims
  have addressedIff : (∀ (recipient : Address) (weight : ℤ),
      (dueClaims ctx)[recipient]? = some weight → readBack recipient = recipient) ↔
      ∀ (recipient : Address) (weight : ℤ),
        (dueClaims ctx)[recipient]? = some weight → recipient.length = addrLen := by
    constructor
    · intro readable recipient weight present
      rcases (readBack_eq_self_iff recipient).mp (readable recipient weight present) with
        length | isEmpty
      · exact length
      · exact absurd isEmpty (nonempty recipient weight present)
    · intro lengths recipient weight present
      exact readBack_of_length (lengths recipient weight present)
  rw [settledIff, addressedIff]
  refine ⟨Iff.rfl, ?_⟩
  intro submits
  exact (reaches_executors votePeriod initial reached submits).dueClaims

section Epoch

variable (executor : Address)

/-- A program for the executor and another one are submitted, and a validator
votes for the first. -/
def openingFor : List (Action Book) :=
  [.submitProgram { sampleProgram with executor }, .submitProgram sampleProgram,
    .voteProgram ⟨1, true, List.replicate 20 1⟩]

/-- The other program is withdrawn, so that Luna is minted, and the first becomes active. -/
def passingActions : List (Action Book) :=
  [.endBlock, .withdrawProgram ⟨2, List.replicate 20 3⟩, .endBlock]

def openedFor : Context Book := performed sampleStart (openingFor executor)

def passedFor : Context Book := performed { openedFor executor with height := 50399 } passingActions

/-- The last block of the first epoch. -/
def endingFor : Context Book := { passedFor executor with height := 100799 }

def epochActions : List (Action Book) :=
  openingFor executor ++ List.replicate 50399 .endBlock ++ passingActions ++
    List.replicate 50398 .endBlock

/-- What has to be computed to see that the actions lead to the end of the epoch. -/
structure EpochRuns : Prop where
  opens : (perform step sampleStart (openingFor executor)).isSome = true
  openedHeight : (openedFor executor).height = 0
  openedPeriod : (openedFor executor).budget.params.votePeriod = (50400 : ℕ)
  openedQueue : (openedFor executor).budget.expiredCandidates 50399 = []
  passes : (perform step { openedFor executor with height := 50399 } passingActions).isSome = true
  passedHeight : (passedFor executor).height = 50401
  passedPeriod : (passedFor executor).budget.params.votePeriod = (50400 : ℕ)
  passedQueue : (passedFor executor).budget.expiredCandidates 100799 = []

variable {executor}

theorem reaches_endingFor (runs : EpochRuns executor) :
    Reaches step sampleStart (epochActions executor) (endingFor executor) := by
  have opens : Reaches step sampleStart (openingFor executor) (openedFor executor) :=
    reaches_performed runs.opens
  have passes : Reaches step { openedFor executor with height := 50399 } passingActions
      (passedFor executor) := reaches_performed runs.passes
  exact reaches_epochEnd opens runs.openedHeight runs.openedPeriod runs.openedQueue passes
    runs.passedHeight runs.passedPeriod runs.passedQueue

theorem endingFor_lastBlock : (endingFor executor).LastBlock blocksPerEpoch := by
  rw [Context.lastBlock_natCast]
  exact Nat.mod_self blocksPerEpoch

theorem epochActions_submit (holds : property executor)
    (sampleHolds : property sampleProgram.executor) :
    ∀ action ∈ epochActions executor, SubmitsOnly property action := by
  have opening : ∀ action ∈ openingFor executor, SubmitsOnly property action := by
    simp only [openingFor, List.forall_mem_cons, List.not_mem_nil, false_implies, implies_true,
      and_true]
    refine ⟨?_, ?_, by simp [SubmitsOnly]⟩
    · rintro msg ⟨rfl⟩
      exact holds
    · rintro msg ⟨rfl⟩
      exact sampleHolds
  have passing : ∀ action ∈ passingActions, SubmitsOnly property action := by
    simp [passingActions, SubmitsOnly]
  exact forall_mem_epoch opening passing (by simp [SubmitsOnly]) _ _

end Epoch

theorem epochRuns_proper : EpochRuns (List.replicate 20 4) := by
  constructor <;> decide +kernel

theorem epochRuns_short : EpochRuns [7] := by
  constructor <;> decide +kernel

/-- The claim of the executor, its Luna and the Luna of the empty address after
the end of a block. -/
def settlement (executor : Address) (ctx : Context Book) : Option (Option ℤ × ℕ × ℕ) :=
  match endBlocker ctx with
  | .ok (_, after) => some (after.budget.claims[executor]?,
      Ledger.balance after.ledger executor microLunaDenom,
      Ledger.balance after.ledger [] microLunaDenom)
  | .error _ => none

theorem settlement_eq_some {executor : Address} {ctx : Context Book} {claim : Option ℤ}
    {held lost : ℕ} (computed : settlement executor ctx = some (claim, held, lost)) :
    ∃ (tags : Tags) (after : Context Book), endBlocker ctx = .ok (tags, after) ∧
      after.budget.claims[executor]? = claim ∧
      Ledger.balance after.ledger executor microLunaDenom = held ∧
      Ledger.balance after.ledger [] microLunaDenom = lost := by
  simp only [settlement] at computed
  split at computed
  · next tags after ended =>
      cases computed
      exact ⟨tags, after, ended, rfl, rfl, rfl⟩
  · cases computed

theorem settlement_proper :
    settlement (List.replicate 20 4) (endingFor (List.replicate 20 4)) = some (none, 95, 0) := by
  decide +kernel

theorem settlement_short : settlement [7] (endingFor [7]) = some (some 10, 0, 95) := by
  decide +kernel

theorem claims_settled_iff_addresses_proper :
    ∃ (tags : Tags) (after : Context Book),
      endBlocker (endingFor (List.replicate 20 4)) = .ok (tags, after) ∧
        ClaimsSettled (endingFor (List.replicate 20 4)) after ∧
        Ledger.balance after.ledger (List.replicate 20 4 : Address) microLunaDenom = 95 := by
  rcases settlement_eq_some settlement_proper with ⟨tags, after, ended, -, held, -⟩
  have accepted : ∀ action ∈ epochActions (List.replicate 20 4), SubmitsOnly (· ≠ []) action :=
    epochActions_submit (List.cons_ne_nil _ _) (List.cons_ne_nil _ _)
  have addressed : ∀ action ∈ epochActions (List.replicate 20 4),
      SubmitsOnly (fun executor => executor.length = addrLen) action :=
    epochActions_submit List.length_replicate List.length_replicate
  have settled := (claims_settled_iff_addresses sampleParams_valid.votePeriod rfl
    (reaches_endingFor epochRuns_proper) accepted endingFor_lastBlock ended).2 addressed
  exact ⟨tags, after, ended, settled, held⟩

/-- The executor has one byte: its reward goes to the empty address, and its
claim is still there when the epoch has ended. -/
theorem short_executor_not_settled :
    sampleStart.budget = BudgetStore.initial sampleParams ∧ sampleParams.Valid ∧
      Reaches step sampleStart (epochActions [7]) (endingFor [7]) ∧
      (∀ action ∈ epochActions [7], SubmitsOnly (· ≠ []) action) ∧
      (endingFor [7]).LastBlock blocksPerEpoch ∧
      ∃ (tags : Tags) (after : Context Book),
        endBlocker (endingFor [7]) = .ok (tags, after) ∧
          after.budget.claims[([7] : Address)]? = some 10 ∧
          Ledger.balance after.ledger ([7] : Address) microLunaDenom = 0 ∧
          Ledger.balance after.ledger ([] : Address) microLunaDenom = 95 ∧
          ¬ClaimsSettled (endingFor [7]) after := by
  refine ⟨rfl, sampleParams_valid, reaches_endingFor epochRuns_short,
    epochActions_submit (by decide) (by decide), endingFor_lastBlock, ?_⟩
  rcases settlement_eq_some settlement_short with ⟨tags, after, ended, stays, held, lost⟩
  refine ⟨tags, after, ended, stays, held, lost, ?_⟩
  intro settled
  rw [settled.cleared, Store.get_empty] at stays
  cases stays

end TerraCore.Budget
