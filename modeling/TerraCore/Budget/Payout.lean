import TerraCore.Budget.Consistency

/-!
# When the rewards can be paid

At the end of an epoch every claim receives its share of the reward pool. Each
share is minted, which panics unless it is positive. Whether the end blocker
finishes therefore depends on the claims that are due: those in the store, and
those which programs earn at the same time because a vote period ends as well.
-/

namespace TerraCore.Budget

variable {L : Type} [Sdk L]

/-- The program is active when the programs are weighed: it is no candidate, or
its vote has ended and it passes. -/
def Eligible (ctx : Context L) (program : Program) : Prop :=
  isQueued ctx.budget program = true →
    program.getVotingEndBlock ctx.budget.params ≤ ctx.height ∧
      Passes ctx.staking ctx.budget program.programID

instance (ctx : Context L) (program : Program) : Decidable (Eligible ctx program) :=
  inferInstanceAs (Decidable (_ → _))

/-- The claim that a program earns when a vote period ends with the block. -/
def dueGrant (ctx : Context L) (program : Program) : List (Claim ℤ) :=
  if Eligible ctx program ∧ Survives ctx.staking ctx.budget program.programID then
    [⟨votePower ctx.staking ctx.budget program.programID, program.executor⟩]
  else []

/-- The claims that are due when the block ends. -/
def dueClaims (ctx : Context L) : Store Address ℤ :=
  if ctx.LastBlock ctx.budget.params.votePeriod then
    addClaims ctx.budget.claims ((programsOf ctx.budget).flatMap (dueGrant ctx))
  else ctx.budget.claims

omit [Sdk L] in
/-- A candidate whose vote has ended earns what the first phase leaves to it. -/
theorem dueGrant_of_expired {ctx : Context L} (wellFormed : WellFormed ctx.budget)
    {program : Program} (stored : ctx.budget.programs[program.programID]? = some program)
    (expired : program.programID ∈ ctx.budget.expiredCandidates ctx.height) :
    dueGrant ctx program =
      if (decided ctx).programs[program.programID]? = some program then
        grant ctx.staking (decided ctx) program
      else [] := by
  rcases (BudgetStore.mem_expiredCandidates_iff _ _ _).mp expired with ⟨due, overdue, present⟩
  have queued := wellFormed.isQueued_of_present stored present
  rcases wellFormed.queued _ _ present with ⟨other, otherStored, ends⟩
  have programEq : program = other := Option.some.inj (stored.symm.trans otherStored)
  subst programEq
  have ended : program.getVotingEndBlock ctx.budget.params ≤ ctx.height := ends.trans_le overdue
  have agree := decideCandidates_of_expired ctx.staking
    (wellFormed.expiredCandidates_nodup ctx.height) expired
  rw [decideCandidate_of_stored ctx.staking stored] at agree
  replace agree : Agree program.programID (decided ctx) _ := agree
  have programAfter := agree.program
  change _ = (settle ctx.staking ctx.budget program.programID _).programs[program.programID]?
    at programAfter
  rw [get_settle_programs] at programAfter
  unfold dueGrant
  by_cases passes : Passes ctx.staking ctx.budget program.programID
  · have eligible : Eligible ctx program := fun _ => ⟨ended, passes⟩
    have unqueued : isQueued (decided ctx) program = false := by
      rw [agree.isQueued]
      unfold isQueued BudgetStore.candQueueHas
      rw [BudgetStore.get_candQueueRemove, settle_candQueue, ← BudgetStore.get_candQueueRemove,
        wellFormed.queue_cleared stored]
      rfl
    have samePower : votePower ctx.staking (decided ctx) program.programID =
        votePower ctx.staking ctx.budget program.programID := by
      rw [agree.votePower ctx.staking, decide_eq_true passes]
      exact votePower_tally ctx.staking ctx.budget _ _
    have sameSurvives : Survives ctx.staking (decided ctx) program.programID ↔
        Survives ctx.staking ctx.budget program.programID := by
      have sameParams : (decided ctx).params = ctx.budget.params :=
        (decideCandidates_sameRest _ _ _).1
      unfold Survives
      rw [samePower, sameParams]
    rw [if_neg (by simp [passes])] at programAfter
    rw [if_pos (programAfter.trans stored)]
    unfold grant
    simp only [unqueued, eligible, sameSurvives, samePower, true_and, Bool.false_eq_true, if_false]
  · have ineligible : ¬Eligible ctx program := fun eligible => passes (eligible queued).2
    rw [if_pos (by simp [passes])] at programAfter
    rw [programAfter, if_neg (by simp [ineligible]), if_neg (by simp)]

omit [Sdk L] in
/-- Any other program earns the same as before the first phase. -/
theorem dueGrant_of_pending {ctx : Context L} {program : Program}
    (stored : ctx.budget.programs[program.programID]? = some program)
    (pending : program.programID ∉ ctx.budget.expiredCandidates ctx.height) :
    dueGrant ctx program =
      if (decided ctx).programs[program.programID]? = some program then
        grant ctx.staking (decided ctx) program
      else [] := by
  have agree : Agree program.programID (decided ctx) ctx.budget :=
    decideCandidates_of_pending ctx.staking pending
  rw [if_pos (agree.program.trans stored), agree.grant ctx.staking]
  unfold dueGrant grant
  by_cases queued : isQueued ctx.budget program = true
  · have ineligible : ¬Eligible ctx program := by
      intro eligible
      rcases Option.isSome_iff_exists.mp queued with ⟨found, present⟩
      have foundEq : found = program.programID := ctx.budget.candQueue_keyed _ _ present
      subst foundEq
      exact pending ((BudgetStore.mem_expiredCandidates_iff _ _ _).mpr
        ⟨_, (eligible queued).1, present⟩)
    rw [if_pos queued, if_neg (by simp [ineligible])]
  · have eligible : Eligible ctx program := fun isQueued => absurd isQueued queued
    rw [if_neg queued]
    simp only [eligible, true_and]

omit [Sdk L] in
/-- The second phase finds the grants that can be read off the store before the
first phase, in some order. -/
theorem grants_decided_perm {ctx : Context L} (wellFormed : WellFormed ctx.budget) :
    (grants ctx.staking (decided ctx)).Perm
      ((programsOf ctx.budget).flatMap (dueGrant ctx)) := by
  let kept (program : Program) : Bool :=
    decide ((decided ctx).programs[program.programID]? = some program)
  have distinct : ∀ store : BudgetStore, (programsOf store).Nodup := fun store =>
    (programsOf_distinct store).of_map _
  have keptPrograms : (programsOf (decided ctx)).Perm ((programsOf ctx.budget).filter kept) := by
    refine (List.perm_ext_iff_of_nodup (distinct _) ((distinct _).filter _)).mpr ?_
    intro program
    rw [List.mem_filter, mem_programsOf_iff, mem_programsOf_iff]
    simp only [kept, decide_eq_true_eq]
    constructor
    · intro present
      exact ⟨(decideCandidates_shrinks _ _ _).programs _ _ present, present⟩
    · exact fun both => both.2
  have sameGrants : ∀ program ∈ programsOf ctx.budget,
      dueGrant ctx program =
        if kept program then grant ctx.staking (decided ctx) program else [] := by
    intro program listed
    have stored := (mem_programsOf_iff ctx.budget program).mp listed
    simp only [kept, decide_eq_true_eq]
    by_cases expired : program.programID ∈ ctx.budget.expiredCandidates ctx.height
    · exact dueGrant_of_expired wellFormed stored expired
    · exact dueGrant_of_pending stored expired
  have filtered : (programsOf ctx.budget).flatMap (dueGrant ctx) =
      ((programsOf ctx.budget).filter kept).flatMap (grant ctx.staking (decided ctx)) := by
    rw [List.flatMap_congr sameGrants]
    induction programsOf ctx.budget with
    | nil => rfl
    | cons program rest ih =>
        by_cases isKept : kept program
        · simp [isKept, ih]
        · simp [isKept, ih]
  rw [filtered]
  exact keptPrograms.flatMap_right _

omit [Sdk L] in
/-- The claims that the third phase finds are the ones that are due. -/
theorem reweighed_claims {ctx : Context L} (wellFormed : WellFormed ctx.budget) :
    (reweighed ctx).claims = dueClaims ctx := by
  have decidedClaims : (decided ctx).claims = ctx.budget.claims :=
    (decideCandidates_sameRest _ _ _).2.2
  unfold reweighed dueClaims
  simp only
  split
  · rw [weighPrograms_eq]
    change addClaims (weighedAll ctx.staking (decided ctx)).claims
      (grants ctx.staking (decided ctx)) = _
    rw [(weighedAll_sameRest _ _).2.2, decidedClaims]
    exact Store.accumulateAll_perm _ ((grants_decided_perm wellFormed).map _)
  · exact decidedClaims

/-- The sum of the weights of all claims. -/
def claimTotal (claims : Store Address ℤ) : ℤ := Store.sum (fun _ weight => weight) claims

theorem claimWeightSum_eq (store : BudgetStore) :
    claimWeightSum store = claimTotal store.claims := by
  unfold claimWeightSum claimTotal Store.sum BudgetStore.claimPool
  rw [List.foldl_map, ← List.foldl_map (f := fun claim : Address × ℤ => claim.2)
    (g := fun weightSum weight => weightSum + weight), ← List.sum_eq_foldl]

theorem payClaim_isOk_iff {pool : DecCoin} (validDenom : validateDenom pool.denom = true)
    (weightSum : ℤ) (ctx : Context L) (claim : Address × ℤ) :
    (∃ after, payClaim pool weightSum ctx claim = .ok after) ↔
      weightSum ≠ 0 ∧
        0 < ((pool.amount.mulInt claim.2).quoInt64 weightSum).truncateInt := by
  by_cases isZero : weightSum = 0
  · simp [payClaim, Dec.quoInt, isZero, bind, Except.bind]
  · have shareOk : (pool.amount.mulInt claim.2).quoInt weightSum =
        .ok ((pool.amount.mulInt claim.2).quoInt64 weightSum) := if_neg isZero
    constructor
    · rintro ⟨after, paid⟩
      rcases Outcome.bind_eq_ok.mp paid with ⟨share, shareEq, paid⟩
      rcases Outcome.bind_eq_ok.mp paid with ⟨coin, coinEq, paid⟩
      rw [shareOk] at shareEq
      cases shareEq
      rcases newCoin_eq_ok.mp coinEq with ⟨-, -, rfl⟩
      exact ⟨isZero, ((Mint.mint_isOk_iff ctx claim.1 _).mp ⟨after, mustSucceed_eq_ok.mp paid⟩).2⟩
    · rintro ⟨-, positive⟩
      have mintable := Mint.mint_isOk_iff ctx claim.1
        ⟨pool.denom, ((pool.amount.mulInt claim.2).quoInt64 weightSum).truncateInt⟩
      rcases mintable.mpr ⟨validDenom, positive⟩ with ⟨after, minted⟩
      exact ⟨after, Outcome.bind_eq_ok.mpr ⟨_, shareOk, Outcome.bind_eq_ok.mpr
        ⟨_, newCoin_eq_ok.mpr ⟨validDenom, positive.le, rfl⟩, mustSucceed_eq_ok.mpr minted⟩⟩⟩

theorem payClaims_isOk_iff {pool : DecCoin} (validDenom : validateDenom pool.denom = true)
    (weightSum : ℤ) (claims : List (Address × ℤ)) (ctx : Context L) :
    (∃ after, claims.foldlM (payClaim pool weightSum) ctx = .ok after) ↔
      ∀ claim ∈ claims, weightSum ≠ 0 ∧
        0 < ((pool.amount.mulInt claim.2).quoInt64 weightSum).truncateInt := by
  induction claims generalizing ctx with
  | nil => simp [pure, Except.pure]
  | cons claim claims ih =>
      rw [List.foldlM_cons, List.forall_mem_cons, ← payClaim_isOk_iff validDenom weightSum ctx]
      constructor
      · rintro ⟨after, paid⟩
        rcases Outcome.bind_eq_ok.mp paid with ⟨middle, first, rest⟩
        exact ⟨⟨middle, first⟩, (ih middle).mp ⟨after, rest⟩⟩
      · rintro ⟨⟨middle, first⟩, others⟩
        rcases (ih middle).mpr others with ⟨after, rest⟩
        exact ⟨after, Outcome.bind_eq_ok.mpr ⟨middle, first, rest⟩⟩

/-- A share is positive when it is at least one coin before it is truncated. -/
theorem share_pos_iff {amount : Dec} {weight total : ℤ} (amountNonneg : 0 ≤ amount.raw)
    (weightNonneg : 0 ≤ weight) (totalPos : 0 < total) :
    0 < ((amount.mulInt weight).quoInt64 total).truncateInt ↔
      total * Dec.precision ≤ amount.raw * weight := by
  have productNonneg : 0 ≤ amount.raw * weight := mul_nonneg amountNonneg weightNonneg
  have quotientNonneg : 0 ≤ amount.raw * weight / total :=
    Int.ediv_nonneg productNonneg totalPos.le
  unfold Dec.truncateInt Dec.quoInt64 Dec.mulInt
  simp only
  rw [Int.tdiv_eq_ediv_of_nonneg productNonneg, Int.tdiv_eq_ediv_of_nonneg quotientNonneg,
    Int.ediv_ediv_of_nonneg totalPos.le]
  have denominatorPos : 0 < total * Dec.precision := mul_pos totalPos Dec.precision_pos
  constructor
  · intro positive
    have atLeastOne : 1 ≤ amount.raw * weight / (total * Dec.precision) := positive
    simpa using (Int.le_ediv_iff_mul_le denominatorPos).mp atLeastOne
  · intro enough
    have atLeastOne : 1 ≤ amount.raw * weight / (total * Dec.precision) :=
      (Int.le_ediv_iff_mul_le denominatorPos).mpr (by simpa using enough)
    exact atLeastOne

/-- Every claim has weight, and its share of the pool is at least one coin. -/
def SharesPositive (claims : Store Address ℤ) (amount : Dec) : Prop :=
  ∀ (recipient : Address) (weight : ℤ), claims[recipient]? = some weight →
    0 < weight ∧ claimTotal claims * Dec.precision ≤ amount.raw * weight

theorem shares_iff {store : BudgetStore} {amount : Dec} (amountNonneg : 0 ≤ amount.raw)
    (weightsNonneg : ∀ (recipient : Address) (weight : ℤ),
      store.claims[recipient]? = some weight → 0 ≤ weight) :
    (∀ claim ∈ store.claimPool, claimWeightSum store ≠ 0 ∧
        0 < ((amount.mulInt claim.2).quoInt64 (claimWeightSum store)).truncateInt) ↔
      SharesPositive store.claims amount := by
  have listNonneg : ∀ weight ∈ store.claims.toList.map Prod.snd, 0 ≤ weight := by
    intro weight listed
    rcases List.mem_map.mp listed with ⟨claim, claimMem, rfl⟩
    exact weightsNonneg claim.1 claim.2 ((Store.mem_toList_iff _ claim).mp claimMem)
  have totalNonneg : 0 ≤ claimTotal store.claims := List.sum_nonneg listNonneg
  rw [claimWeightSum_eq]
  constructor
  · intro paid recipient weight present
    have listed := (Store.mem_toList_iff store.claims (recipient, weight)).mpr present
    rcases paid _ (List.mem_map_of_mem listed) with ⟨nonzero, positive⟩
    have totalPos : 0 < claimTotal store.claims := lt_of_le_of_ne totalNonneg (Ne.symm nonzero)
    have weightNonneg := weightsNonneg recipient weight present
    have enough := (share_pos_iff amountNonneg weightNonneg totalPos).mp positive
    refine ⟨lt_of_le_of_ne weightNonneg ?_, enough⟩
    rintro rfl
    have := mul_pos totalPos Dec.precision_pos
    omega
  · intro shares claim claimMem
    rcases List.mem_map.mp claimMem with ⟨entry, listed, rfl⟩
    have present := (Store.mem_toList_iff store.claims entry).mp listed
    rcases shares entry.1 entry.2 present with ⟨weightPos, enough⟩
    have atLeast : entry.2 ≤ claimTotal store.claims :=
      List.single_le_sum listNonneg entry.2 (List.mem_map_of_mem listed)
    have totalPos : 0 < claimTotal store.claims := by omega
    exact ⟨totalPos.ne', (share_pos_iff amountNonneg weightPos.le totalPos).mpr enough⟩

/-- The share of the seigniorage of the epoch that is not burned. -/
def epochReward (ctx : Context L) : Dec :=
  (Dec.one.sub ((Treasury.getRewardWeight ctx ctx.getEpoch).1.getD Dec.zero)).mulInt
    (Mint.peekEpochSeigniorage ctx ctx.getEpoch).1

/-- The reward pool does not depend on the budget store. -/
theorem rewardPool_of_weight {ctx : Context L} {weight : Dec}
    (found : (Treasury.getRewardWeight ctx ctx.getEpoch).1 = some weight) (budget : BudgetStore) :
    ∃ read, rewardPool { ctx with budget } = .ok (epochReward ctx, read) := by
  have sameWeight : (Treasury.getRewardWeight { ctx with budget } ctx.getEpoch).1 =
      some weight := by
    rw [← found]
    unfold Treasury.getRewardWeight
    cases ctx.treasury.rewardWeights[ctx.getEpoch]? <;> rfl
  have sameSeigniorage : (Mint.peekEpochSeigniorage
      (Treasury.getRewardWeight { ctx with budget } ctx.getEpoch).2 ctx.getEpoch).1 =
      (Mint.peekEpochSeigniorage ctx ctx.getEpoch).1 := by
    unfold Treasury.getRewardWeight
    cases ctx.treasury.rewardWeights[ctx.getEpoch]? <;> rfl
  refine ⟨(Mint.peekEpochSeigniorage
    (Treasury.getRewardWeight { ctx with budget } ctx.getEpoch).2 ctx.getEpoch).2, ?_⟩
  have sameEpoch : ({ ctx with budget } : Context L).getEpoch = ctx.getEpoch := rfl
  simp only [rewardPool, epochReward, sameEpoch, sameWeight, sameSeigniorage, found,
    Option.getD_some]

omit [Sdk L] in
theorem rewardPoolCoin_congr {left right : Context L} (sameOracle : left.oracle = right.oracle)
    (pool : Dec) : rewardPoolCoin left pool = rewardPoolCoin right pool := by
  unfold rewardPoolCoin Market.getSwapDecCoin Market.effectivePrice
  rw [sameOracle]

omit [Sdk L] in
/-- A positive reward pool can always be expressed in SDR or in Luna. -/
theorem rewardPoolCoin_isOk (ctx : Context L) {pool : Dec} (positive : Dec.zero < pool) :
    ∃ coin, rewardPoolCoin ctx pool = .ok coin ∧ validateDenom coin.denom = true ∧
      0 ≤ coin.amount.raw := by
  have validLuna : validateDenom microLunaDenom = true := by decide
  have validSDR : validateDenom microSDRDenom = true := by decide
  have nonneg : 0 ≤ pool.raw := le_of_lt positive
  unfold rewardPoolCoin
  rw [newDecCoinFromDec_of_nonneg validLuna nonneg]
  simp only [bind, Except.bind]
  rcases Market.getSwapDecCoin_luna ctx pool validSDR with
    ⟨error, failed⟩ | ⟨coin, swapped, denom, amountNonneg⟩
  · rw [failed]
    exact ⟨_, rfl, validLuna, nonneg⟩
  · rw [swapped]
    exact ⟨coin, rfl, denom ▸ validSDR, amountNonneg⟩

/-- The rewards of the epoch, if they are due with this block, can be paid. -/
def Payable (ctx : Context L) : Prop :=
  ctx.LastBlock blocksPerEpoch → Dec.zero < epochReward ctx →
    ∀ pool, rewardPoolCoin ctx (epochReward ctx) = .ok pool →
      SharesPositive (dueClaims ctx) pool.amount

theorem payRewards_isOk_iff {ctx : Context L} {reward : Dec}
    (weightsNonneg : ∀ (recipient : Address) (weight : ℤ),
      ctx.budget.claims[recipient]? = some weight → 0 ≤ weight) :
    (∃ after, payRewards ctx reward = .ok after) ↔
      (Dec.zero < reward → ∀ pool, rewardPoolCoin ctx reward = .ok pool →
        SharesPositive ctx.budget.claims pool.amount) := by
  unfold payRewards
  split
  · next positive =>
      rcases rewardPoolCoin_isOk ctx positive with ⟨pool, poolOk, validDenom, amountNonneg⟩
      have onlyPool : (∀ other, rewardPoolCoin ctx reward = .ok other →
          SharesPositive ctx.budget.claims other.amount) ↔
          SharesPositive ctx.budget.claims pool.amount := by
        simp [poolOk]
      simp only [positive, true_implies, onlyPool]
      rw [← shares_iff amountNonneg weightsNonneg,
        ← payClaims_isOk_iff validDenom (claimWeightSum ctx.budget) ctx.budget.claimPool ctx]
      simp only [poolOk, bind, Except.bind]
  · next notPositive => simp [notPositive]

/-- The end blocker finishes exactly when the claims that the third phase finds can be paid. -/
theorem endBlocker_pays_iff {ctx : Context L} {weight : Dec}
    (votePeriod : ctx.budget.params.votePeriod ≠ 0)
    (weightsNonneg : ∀ (recipient : Address) (weight : ℤ),
      (reweighed ctx).claims[recipient]? = some weight → 0 ≤ weight)
    (found : (Treasury.getRewardWeight ctx ctx.getEpoch).1 = some weight) :
    (∃ tags after, endBlocker ctx = .ok (tags, after)) ↔
      (ctx.LastBlock blocksPerEpoch → Dec.zero < epochReward ctx →
        ∀ pool, rewardPoolCoin ctx (epochReward ctx) = .ok pool →
          SharesPositive (reweighed ctx).claims pool.amount) := by
  have firstPhases : weighPhase (decidePhase ctx) = .ok { ctx with budget := reweighed ctx } := by
    rw [weighPhase_decidePhase, if_neg votePeriod]
  have thirdPhase : (∃ tags after, endBlocker ctx = .ok (tags, after)) ↔
      ∃ after, rewardPhase { ctx with budget := reweighed ctx } = .ok after := by
    constructor
    · rintro ⟨tags, after, done⟩
      rcases Outcome.bind_eq_ok.mp done with ⟨middle, weighing, done⟩
      rcases Outcome.bind_eq_ok.mp done with ⟨paid, payment, -⟩
      rw [firstPhases] at weighing
      cases weighing
      exact ⟨paid, payment⟩
    · rintro ⟨after, payment⟩
      exact ⟨[], after, Outcome.bind_eq_ok.mpr
        ⟨_, firstPhases, Outcome.bind_eq_ok.mpr ⟨after, payment, rfl⟩⟩⟩
  rw [thirdPhase]
  unfold rewardPhase
  rw [Context.isPeriodLastBlock_eq _ (by decide)]
  by_cases last : ctx.LastBlock blocksPerEpoch
  · have lastStill : ({ ctx with budget := reweighed ctx } : Context L).LastBlock
        blocksPerEpoch := last
    rcases rewardPool_of_weight found (reweighed ctx) with ⟨read, pooled⟩
    rcases rewardPool_reads pooled with ⟨readOracle, readBudget⟩
    have readClaims : read.budget.claims = (reweighed ctx).claims := by rw [readBudget]
    have distributes : (∃ after, distributeRewards { ctx with budget := reweighed ctx } =
        .ok after) ↔ ∃ after, payRewards read (epochReward ctx) = .ok after := by
      constructor
      · rintro ⟨after, done⟩
        rcases Outcome.bind_eq_ok.mp done with ⟨middle, pooling, done⟩
        rcases Outcome.bind_eq_ok.mp done with ⟨paid, payment, -⟩
        rw [pooled] at pooling
        cases pooling
        exact ⟨paid, payment⟩
      · rintro ⟨after, payment⟩
        exact ⟨_, Outcome.bind_eq_ok.mpr
          ⟨_, pooled, Outcome.bind_eq_ok.mpr ⟨after, payment, rfl⟩⟩⟩
    simp only [lastStill, decide_true, bind, Except.bind, if_true]
    rw [distributes, payRewards_isOk_iff (by rw [readClaims]; exact weightsNonneg), readClaims,
      rewardPoolCoin_congr readOracle]
    simp only [last, true_implies]
    rfl
  · have notLastStill : ¬({ ctx with budget := reweighed ctx } : Context L).LastBlock
        blocksPerEpoch := last
    simp only [notLastStill, decide_false, bind, Except.bind, Bool.false_eq_true, if_false]
    simp [last, pure, Except.pure]

theorem endBlocker_isOk_iff {ctx : Context L} {first : Dec} (wellFormed : WellFormed ctx.budget)
    (votePeriod : ctx.budget.params.votePeriod ≠ 0)
    (weightsNonneg : ∀ (recipient : Address) (weight : ℤ),
      (dueClaims ctx)[recipient]? = some weight → 0 ≤ weight)
    (weighted : ctx.treasury.rewardWeights[(0 : ℤ)]? = some first) :
    (∃ tags after, endBlocker ctx = .ok (tags, after)) ↔ Payable ctx := by
  have epochNonneg : 0 ≤ ctx.getEpoch := Int.natCast_nonneg _
  rcases Treasury.getRewardWeight_isSome weighted epochNonneg with ⟨weight, found⟩
  rw [← reweighed_claims wellFormed] at weightsNonneg
  rw [endBlocker_pays_iff votePeriod weightsNonneg found, reweighed_claims wellFormed]
  rfl

end TerraCore.Budget
