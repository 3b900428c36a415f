import TerraCore.Budget.Handler
import TerraCore.Budget.Phases
import TerraCore.Library.Transition

/-!
# Runs of the budget

A run interleaves the messages of the budget with its end blocker, which ends
every block. Between these steps the parameters other than the vote period may
be set, and the rest of the chain may do anything: it cannot reach the budget
store.
-/

namespace TerraCore.Budget

variable {L : Type} [Sdk L]

/-- What can happen to the budget. -/
inductive Action (L : Type) where
  | submitProgram (msg : MsgSubmitProgram)
  | withdrawProgram (msg : MsgWithdrawProgram)
  | voteProgram (msg : MsgVoteProgram)
  | endBlock
  | setParams (params : Params)
  | elsewhere (change : Context L → Context L)

/-- Set all parameters but the vote period. -/
def setParams (store : BudgetStore) (params : Params) : BudgetStore :=
  { store with params := { params with votePeriod := store.params.votePeriod } }

/-- Everything outside of the budget changes in an arbitrary way. -/
def elsewhere (change : Context L → Context L) (ctx : Context L) : Context L :=
  { change ctx with height := ctx.height, budget := ctx.budget }

/-- One step. A failed message is rolled back; a panic of the end blocker halts the chain. -/
def step (ctx : Context L) : Action L → Option (Context L)
  | .submitProgram msg => some (ctx.deliver (handleMsgSubmitProgram ctx msg))
  | .withdrawProgram msg => some (ctx.deliver (handleMsgWithdrawProgram ctx msg))
  | .voteProgram msg => some (ctx.deliver (handleMsgVoteProgram ctx msg))
  | .endBlock =>
      match endBlocker ctx with
      | .ok (_, after) => some { after with height := after.height + 1 }
      | .error _ => none
  | .setParams params => some { ctx with budget := setParams ctx.budget params }
  | .elsewhere change => some (elsewhere change ctx)

theorem step_submitProgram {ctx after : Context L} {msg : MsgSubmitProgram} {result : Result}
    (handled : handleMsgSubmitProgram ctx msg = .ok (result, after)) :
    step ctx (.submitProgram msg) = some after := by
  simp only [step, handled]
  rfl

theorem step_withdrawProgram {ctx after : Context L} {msg : MsgWithdrawProgram} {result : Result}
    (handled : handleMsgWithdrawProgram ctx msg = .ok (result, after)) :
    step ctx (.withdrawProgram msg) = some after := by
  simp only [step, handled]
  rfl

theorem payClaims_frame {pool : DecCoin} {weightSum : ℤ} {claims : List (Address × ℤ)}
    {before after : Context L}
    (done : claims.foldlM (payClaim pool weightSum) before = .ok after) :
    Mint.Frame before after := by
  induction claims generalizing before with
  | nil =>
      cases done
      exact .refl _
  | cons claim claims ih =>
      rw [List.foldlM_cons] at done
      rcases Outcome.bind_eq_ok.mp done with ⟨middle, first, rest⟩
      rcases Outcome.bind_eq_ok.mp first with ⟨_, -, first⟩
      rcases Outcome.bind_eq_ok.mp first with ⟨_, -, first⟩
      exact (Mint.mint_frame (mustSucceed_eq_ok.mp first)).trans (ih rest)

theorem payRewards_frame {before after : Context L} {pool : Dec}
    (done : payRewards before pool = .ok after) : Mint.Frame before after := by
  unfold payRewards at done
  split at done
  · rcases Outcome.bind_eq_ok.mp done with ⟨_, -, done⟩
    exact payClaims_frame done
  · cases done
    exact .refl _

omit [Sdk L] in
/-- A reward weight that is stored stays stored. -/
theorem getRewardWeight_keeps {ctx : Context L} {epoch other : ℤ} {weight : Dec}
    (stored : ctx.treasury.rewardWeights[other]? = some weight) :
    (Treasury.getRewardWeight ctx epoch).2.treasury.rewardWeights[other]? = some weight := by
  unfold Treasury.getRewardWeight
  split
  · exact stored
  · next absent =>
      rw [Store.get_insert, if_neg]
      · exact stored
      · rintro rfl
        rw [absent] at stored
        cases stored

/-- The reward pool only reads the weight of the epoch and the issuance. -/
theorem rewardPool_frame {before after : Context L} {pool : Dec}
    (done : rewardPool before = .ok (pool, after)) :
    Mint.Frame (Treasury.getRewardWeight before before.getEpoch).2 after := by
  unfold rewardPool at done
  simp only at done
  split at done
  · cases done
    exact ⟨rfl, rfl, rfl, rfl, rfl, rfl, rfl⟩
  · cases done

theorem rewardPool_reads {before after : Context L} {pool : Dec}
    (done : rewardPool before = .ok (pool, after)) :
    after.oracle = before.oracle ∧ after.budget = before.budget := by
  have frame := rewardPool_frame done
  rcases Treasury.getRewardWeight_frame before before.getEpoch with ⟨rewardWeights, read⟩
  rw [read] at frame
  exact ⟨frame.oracle, frame.budget⟩

/-- The budget store when the claims of the epoch are due. -/
def rewarded (ctx : Context L) : BudgetStore :=
  if ctx.LastBlock blocksPerEpoch then ctx.budget.clearClaimPool else ctx.budget

/-- The budget store after the first two phases. -/
def reweighed (ctx : Context L) : BudgetStore :=
  let decided := decideCandidates ctx.staking ctx.height ctx.budget
  if ctx.LastBlock ctx.budget.params.votePeriod then weighPrograms ctx.staking decided
  else decided

omit [Sdk L] in
theorem weighPhase_decidePhase (ctx : Context L) :
    weighPhase (decidePhase ctx) =
      if ctx.budget.params.votePeriod = 0 then .error (.panic .divisionByZero)
      else .ok { ctx with budget := reweighed ctx } := by
  have sameParams : (decidePhase ctx).budget.params = ctx.budget.params :=
    (decideCandidates_sameRest ctx.staking ctx.height ctx.budget).1
  have sameLast : ∀ period, (decidePhase ctx).LastBlock period ↔ ctx.LastBlock period :=
    fun _ => Iff.rfl
  unfold weighPhase Context.isPeriodLastBlock
  rw [sameParams]
  split
  · rfl
  · unfold reweighed
    simp only [sameLast]
    by_cases last : ctx.LastBlock ctx.budget.params.votePeriod
    · simp only [last, decide_true, if_true, bind, Except.bind, pure, Except.pure]
      rfl
    · simp only [last, decide_false, if_false, bind, Except.bind, pure, Except.pure,
        Bool.false_eq_true]
      rfl

omit [Sdk L] in
theorem reweighed_params (ctx : Context L) : (reweighed ctx).params = ctx.budget.params := by
  have decidedParams := (decideCandidates_sameRest ctx.staking ctx.height ctx.budget).1
  unfold reweighed
  simp only
  split
  · rw [weighPrograms_eq]
    exact (weighedAll_sameRest _ _).1.trans decidedParams
  · exact decidedParams

omit [Sdk L] in
theorem rewarded_params (ctx : Context L) : (rewarded ctx).params = ctx.budget.params := by
  unfold rewarded
  split <;> rfl

/-- The phases of an end blocker that does not panic. -/
theorem endBlocker_steps {before after : Context L} {tags : Tags}
    (done : endBlocker before = .ok (tags, after)) :
    (¬before.LastBlock blocksPerEpoch ∧ after = { before with budget := reweighed before }) ∨
      (before.LastBlock blocksPerEpoch ∧ ∃ pool read paid,
        rewardPool { before with budget := reweighed before } = .ok (pool, read) ∧
        payRewards read pool = .ok paid ∧
        after = { paid with budget := paid.budget.clearClaimPool }) := by
  rcases Outcome.bind_eq_ok.mp done with ⟨weighed, weighing, done⟩
  rcases Outcome.bind_eq_ok.mp done with ⟨settled, payment, done⟩
  cases done
  rw [weighPhase_decidePhase] at weighing
  split at weighing
  · cases weighing
  · cases weighing
    rcases Outcome.bind_eq_ok.mp payment with ⟨isLast, lastEq, payment⟩
    rw [Context.isPeriodLastBlock_eq _ (by decide)] at lastEq
    cases lastEq
    split at payment
    · next last =>
        rcases Outcome.bind_eq_ok.mp payment with ⟨⟨pool, read⟩, pooled, payment⟩
        rcases Outcome.bind_eq_ok.mp payment with ⟨paid, paying, payment⟩
        cases payment
        exact Or.inr ⟨of_decide_eq_true last, pool, read, paid, pooled, paying, rfl⟩
    · next notLast =>
        cases payment
        exact Or.inl ⟨fun last => notLast (decide_eq_true last), rfl⟩

/-- The state once the reward weight of an epoch that ends was read. -/
def weightRead (ctx : Context L) : Context L :=
  if ctx.LastBlock blocksPerEpoch then (Treasury.getRewardWeight ctx ctx.getEpoch).2 else ctx

omit [Sdk L] in
theorem weightRead_frame (ctx : Context L) :
    ∃ rewardWeights, weightRead ctx =
      { ctx with treasury := { ctx.treasury with rewardWeights } } := by
  unfold weightRead
  split
  · exact Treasury.getRewardWeight_frame ctx ctx.getEpoch
  · exact ⟨_, rfl⟩

/-- The end blocker reads the reward weight and mints; the rest is up to the budget store. -/
theorem endBlocker_frame {before after : Context L} {tags : Tags}
    (done : endBlocker before = .ok (tags, after)) :
    Mint.Frame
      { weightRead before with budget := rewarded { before with budget := reweighed before } }
      after := by
  rcases endBlocker_steps done with
    ⟨notLast, rfl⟩ | ⟨last, pool, read, paid, pooled, paying, rfl⟩
  · have kept : rewarded { before with budget := reweighed before } = reweighed before :=
      if_neg notLast
    rw [weightRead, if_neg notLast, kept]
    exact .refl _
  · have cleared : rewarded { before with budget := reweighed before } =
        (reweighed before).clearClaimPool := if_pos last
    have read := (rewardPool_frame pooled).trans (payRewards_frame paying)
    have sameWeight : (Treasury.getRewardWeight { before with budget := reweighed before }
        before.getEpoch).2 =
          { (Treasury.getRewardWeight before before.getEpoch).2 with
            budget := reweighed before } := by
      simp only [Treasury.getRewardWeight]
      split <;> rfl
    rw [weightRead, if_pos last, cleared]
    change Mint.Frame (Treasury.getRewardWeight _ before.getEpoch).2 paid at read
    rw [sameWeight] at read
    exact ⟨read.height, read.validator, read.bondedTokens, read.oracle, read.market,
      read.treasury, by rw [read.budget]⟩

/-- What the end of a block does to the budget store. -/
theorem endBlocker_eq_ok {before after : Context L} {tags : Tags}
    (done : endBlocker before = .ok (tags, after)) :
    after.height = before.height ∧
      after.budget = rewarded { before with budget := reweighed before } ∧
      ∀ (epoch : ℤ) (weight : Dec), before.treasury.rewardWeights[epoch]? = some weight →
        after.treasury.rewardWeights[epoch]? = some weight := by
  have frame := endBlocker_frame done
  refine ⟨?_, frame.budget, ?_⟩
  · rcases weightRead_frame before with ⟨rewardWeights, read⟩
    rw [frame.height, read]
  · intro epoch weight stored
    rw [frame.treasury, weightRead]
    split
    · exact getRewardWeight_keeps stored
    · exact stored

/-- Everything that a step can do to the budget store. -/
inductive Effect (ctx : Context L) : Action L → Context L → Prop where
  | kept {action : Action L} {next : Context L} (notEnded : action ≠ .endBlock)
      (height : next.height = ctx.height) (budget : next.budget = ctx.budget) :
      Effect ctx action next
  | submitted {msg : MsgSubmitProgram} {next : Context L}
      (accepted : ∃ result, handleMsgSubmitProgram ctx msg = .ok (result, next))
      (height : next.height = ctx.height)
      (budget : next.budget = addCandidate ctx.budget msg ctx.height) :
      Effect ctx (.submitProgram msg) next
  | withdrew {msg : MsgWithdrawProgram} {next : Context L} {program : Program}
      (accepted : ∃ result, handleMsgWithdrawProgram ctx msg = .ok (result, next))
      (stored : ctx.budget.programs[msg.programID]? = some program)
      (height : next.height = ctx.height)
      (budget : next.budget = withdrawn ctx.budget program msg.programID) :
      Effect ctx (.withdrawProgram msg) next
  | voted {msg : MsgVoteProgram} {next : Context L} {program : Program}
      (stored : ctx.budget.programs[msg.programID]? = some program)
      (height : next.height = ctx.height)
      (budget : next.budget = ctx.budget.addVote msg.programID msg.voter msg.option) :
      Effect ctx (.voteProgram msg) next
  | ended {next : Context L} (height : next.height = ctx.height + 1)
      (budget : next.budget = rewarded { ctx with budget := reweighed ctx }) :
      Effect ctx .endBlock next
  | paramsSet {params : Params} {next : Context L} (height : next.height = ctx.height)
      (budget : next.budget = setParams ctx.budget params) :
      Effect ctx (.setParams params) next

theorem step_effect {ctx next : Context L} {action : Action L}
    (taken : step ctx action = some next) : Effect ctx action next := by
  cases action with
  | submitProgram msg =>
      cases taken
      rcases ctx.deliver_cases (handleMsgSubmitProgram ctx msg) with ⟨result, done⟩ | ⟨_, same⟩
      · rcases handleMsgSubmitProgram_eq_ok done with ⟨height, budget, -⟩
        exact .submitted ⟨result, done⟩ height budget
      · rw [same]
        exact .kept (by simp) rfl rfl
  | withdrawProgram msg =>
      cases taken
      rcases ctx.deliver_cases (handleMsgWithdrawProgram ctx msg) with ⟨result, done⟩ | ⟨_, same⟩
      · rcases handleMsgWithdrawProgram_eq_ok done with ⟨program, stored, height, budget, -⟩
        exact .withdrew ⟨result, done⟩ stored height budget
      · rw [same]
        exact .kept (by simp) rfl rfl
  | voteProgram msg =>
      cases taken
      rcases ctx.deliver_cases (handleMsgVoteProgram ctx msg) with ⟨result, done⟩ | ⟨_, same⟩
      · rcases handleMsgVoteProgram_eq_ok done with ⟨⟨program, stored⟩, nextEq⟩
        exact .voted stored (by rw [nextEq]) (by rw [nextEq])
      · rw [same]
        exact .kept (by simp) rfl rfl
  | endBlock =>
      simp only [step] at taken
      split at taken
      · next after done =>
          cases taken
          rcases endBlocker_eq_ok done with ⟨height, budget, -⟩
          exact .ended (congrArg (· + 1) height) budget
      · cases taken
  | setParams params =>
      cases taken
      exact .paramsSet rfl rfl
  | elsewhere change =>
      cases taken
      exact .kept (by simp) rfl rfl

/-- The vote period is never changed. -/
theorem step_votePeriod {ctx next : Context L} {action : Action L}
    (taken : step ctx action = some next) :
    next.budget.params.votePeriod = ctx.budget.params.votePeriod := by
  cases step_effect taken with
  | kept _ _ budget => rw [budget]
  | submitted _ _ budget => rw [budget]; rfl
  | withdrew _ _ _ budget => rw [budget]; rfl
  | voted _ _ budget => rw [budget]; rfl
  | ended _ budget => rw [budget, rewarded_params, reweighed_params]
  | paramsSet _ budget => rw [budget]; rfl

/-- Two validators with the same number of tokens. -/
def sampleStaking : Staking where
  notBondedTokens := 0
  bondedTokens := 20
  validator address :=
    if address = List.replicate 20 1 ∨ address = List.replicate 20 2 then some 10 else none
  validator_length := by
    intro address tokens present
    split at present
    · next isValidator => rcases isValidator with rfl | rfl <;> rfl
    · cases present

/-- Two vote periods make an epoch, and deposits are paid in Luna. -/
def sampleParams : Params :=
  { defaultParams with votePeriod := 50400, deposit := ⟨microLunaDenom, 100⟩ }

theorem sampleParams_valid : sampleParams.Valid where
  activeThreshold := by decide
  legacyThreshold := by decide
  votePeriod := by decide
  deposit := by decide

def sampleStart : Context Book :=
  { Context.genesis
      (Book.empty.setAmounts (List.replicate 20 3) fun denom =>
        if denom = microLunaDenom then 1000 else 0) sampleStaking with
    budget := BudgetStore.initial sampleParams }

def sampleProgram : MsgSubmitProgram :=
  ⟨ascii "title", ascii "description", List.replicate 20 3, List.replicate 20 4⟩

/-- A program is submitted and receives a vote before the block ends. -/
def sampleActions : List (Action Book) :=
  [.submitProgram sampleProgram, .voteProgram ⟨1, true, List.replicate 20 1⟩, .endBlock]

theorem sampleActions_stores_vote :
    (Transition.perform step sampleStart sampleActions).map (fun ctx =>
      ctx.budget.votes[(1, (List.replicate 20 1 : Address))]?) = some (some true) := by
  decide +kernel

end TerraCore.Budget
