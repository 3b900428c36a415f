import TerraCore.Budget.KeyedPhases
import TerraCore.Budget.Lifecycle

/-!
# Runs of the budget on the flat store

The handlers and the end blocker read and write the flat store. Along every run
from an empty store they never fail to decode a record, give the answers of the
model, and leave the records of the model, as long as executors have addresses
of twenty bytes and heights and program ids are those of the code.

Deposits are paid from the balances of the chain, which the store does not hold.
-/

namespace TerraCore.Budget

open Transition Lockstep

variable {L : Type} [Sdk L]

namespace Flat

variable (codec : AddressCodec) (prefixEndBytes : Bytes → Option Bytes) (flat : Flat)
  (ctx : Context L)

/-- What the handler answers and leaves in the store, unless it panics. -/
def handleMsgSubmitProgram (msg : MsgSubmitProgram) : Option (Outcome (Result × Flat)) :=
  match Mint.burn ctx msg.submitter flat.params.deposit with
  | .error failure => some (.error failure)
  | .ok _ => do
      let (programID, flat) ← flat.newProgramID
      let program := msg.program programID ctx.height
      some (.ok ({ tags := [.programID programID], log := [] },
        (flat.storeProgram program).candQueueInsert (program.getVotingEndBlock flat.params)
          programID))

def withdrawCandidate (program : Program) (msg : MsgWithdrawProgram) : Outcome Flat :=
  let prgmEndBlock := program.getVotingEndBlock flat.params
  if flat.candQueueHas prgmEndBlock msg.programID then
    match Mint.mint ctx program.submitter flat.params.deposit with
    | .error (.error _) => .error (.error (.refundFailed msg.submitter msg.programID))
    | .error (.panic panic) => .error (.panic panic)
    | .ok _ => .ok (flat.candQueueRemove prgmEndBlock msg.programID)
  else .ok flat

def handleMsgWithdrawProgram (msg : MsgWithdrawProgram) : Option (Outcome (Result × Flat)) := do
  match ← flat.getProgram msg.programID with
  | none => some (.error (.error (.programNotFound msg.programID)))
  | some program =>
      if program.submitter ≠ msg.submitter then
        some (.error (.error (.invalidSubmitter msg.submitter)))
      else some do
        let flat ← flat.withdrawCandidate ctx program msg
        pure ({ tags := [.programID msg.programID], log := [] },
          flat.dropProgram codec msg.programID)

def handleMsgVoteProgram (msg : MsgVoteProgram) : Option (Outcome (Result × Flat)) := do
  match ← flat.getProgram msg.programID with
  | none => some (.error (.error (.programNotFound msg.programID)))
  | some _ =>
      match ctx.staking.validator msg.voter with
      | none => some (.error (.error .noDelegatorForAddress))
      | some _ =>
          some (.ok (
            { tags := [.programID msg.programID, .voter msg.voter, .option msg.option]
              log := [] },
            flat.addVote codec msg.programID msg.voter msg.option))

/-- A failed message is rolled back. -/
def deliver (outcome : Outcome (Result × Flat)) : Flat :=
  match outcome with
  | .ok (_, after) => after
  | .error _ => flat

def weighPhase : Option Flat :=
  if ctx.LastBlock flat.params.votePeriod then flat.weighPrograms codec ctx.staking
  else some flat

def rewardPhase : Option Flat :=
  if ctx.LastBlock blocksPerEpoch then flat.clearClaimPool codec else some flat

def endBlocker : Option Flat := do
  let decided ← flat.decideCandidates codec prefixEndBytes ctx.staking ctx.height
  let weighed ← decided.weighPhase codec ctx
  weighed.rewardPhase codec ctx

/-- The store after an action that is taken in `ctx`, unless the keeper panics. -/
def step : Action L → Option Flat
  | .submitProgram msg => (flat.handleMsgSubmitProgram ctx msg).map flat.deliver
  | .withdrawProgram msg => (flat.handleMsgWithdrawProgram codec ctx msg).map flat.deliver
  | .voteProgram msg => (flat.handleMsgVoteProgram codec ctx msg).map flat.deliver
  | .endBlock => flat.endBlocker codec prefixEndBytes ctx
  | .setParams params =>
      some { flat with params := { params with votePeriod := flat.params.votePeriod } }
  | .elsewhere _ => some flat

end Flat

/-- The same answer, and a store that keeps the records. -/
def Kept (codec : AddressCodec) (done : Result × Flat) (image : Result × Context L) : Prop :=
  done.1 = image.1 ∧ Keeps codec done.2 image.2.budget

section Handlers

variable {codec : AddressCodec} {flat : Flat} {ctx : Context L}

theorem changeIssuance_related (ctx : Context L) (budget : BudgetStore) (denom : Denom)
    (delta : ℤ) :
    Related (fun left right => right = { left with budget }) (Mint.changeIssuance ctx denom delta)
      (Mint.changeIssuance { ctx with budget } denom delta) := by
  simp only [Mint.changeIssuance]
  cases ctx.mint.issuance[(denom, (0 : ℤ))]? with
  | none => exact .ok rfl
  | some genesis =>
      have sameRead : (Mint.getIssuance { ctx with budget } denom
          ({ ctx with budget } : Context L).today).1 =
          (Mint.getIssuance ctx denom ctx.today).1 := rfl
      simp only [sameRead]
      split
      · exact .error _
      · exact .ok rfl

/-- A mint fails in the same way whatever the budget store is. -/
theorem mint_related (ctx : Context L) (budget : BudgetStore) (recipient : Address)
    (coin : Coin) :
    Related (fun left right => right = { left with budget }) (Mint.mint ctx recipient coin)
      (Mint.mint { ctx with budget } recipient coin) := by
  refine (Related.same (Sdk.addCoins ctx.ledger recipient [coin])).bind ?_
  rintro ledger _ rfl
  simp only [Mint.changeNotBonded_eq]
  exact changeIssuance_related _ budget coin.denom coin.amount

theorem Keeps.handleMsgSubmitProgram (keeps : Keeps codec flat ctx.budget)
    (msg : MsgSubmitProgram)
    (queueable : Queueable ((submission ctx.budget msg ctx.height).getVotingEndBlock
      ctx.budget.params, lastProgramID ctx.budget + 1)) :
    ∃ outcome, flat.handleMsgSubmitProgram ctx msg = some outcome ∧
      Related (Kept codec) outcome (Budget.handleMsgSubmitProgram ctx msg) := by
  simp only [Flat.handleMsgSubmitProgram, Budget.handleMsgSubmitProgram, payDeposit, keeps.params]
  cases burned : Mint.burn ctx msg.submitter ctx.budget.params.deposit with
  | error failure => exact ⟨_, rfl, .error failure⟩
  | ok paid =>
      have frame := Mint.burn_frame burned
      rcases keeps.newProgramID with ⟨numbered, numberedEq, keepsNumbered⟩
      simp only [numberedEq, Option.bind_eq_bind, Option.bind_some]
      refine ⟨_, rfl, .ok ⟨?_, ?_⟩⟩
      · rw [frame.budget]
      · simp only [frame.budget, frame.height, addCandidate_eq]
        rw [newProgramID_fst]
        have stored := keepsNumbered.storeProgram (submission ctx.budget msg ctx.height)
        have inserted := stored.candQueueInsert queueable
        rw [keepsNumbered.params]
        exact inserted

theorem Keeps.withdrawCandidate (keeps : Keeps codec flat ctx.budget) {program : Program}
    {msg : MsgWithdrawProgram}
    (queueable : Queueable (program.getVotingEndBlock ctx.budget.params, msg.programID)) :
    Related (fun flat (after : Context L) => Keeps codec flat after.budget)
      (flat.withdrawCandidate ctx program msg) (Budget.withdrawCandidate ctx program msg) := by
  simp only [Flat.withdrawCandidate, Budget.withdrawCandidate, keeps.params,
    keeps.candQueueHas queueable]
  split
  · have removed := keeps.candQueueRemove queueable
    generalize budgetEq : ctx.budget.candQueueRemove _ msg.programID = budget at removed ⊢
    have sameParams : budget.params = ctx.budget.params := by
      rw [← budgetEq]
      rfl
    have refunded := mint_related ctx budget program.submitter ctx.budget.params.deposit
    simp only [refundDeposit, sameParams]
    generalize Mint.mint ctx program.submitter ctx.budget.params.deposit = left at refunded ⊢
    generalize Mint.mint { ctx with budget } program.submitter ctx.budget.params.deposit = right
      at refunded ⊢
    cases refunded with
    | ok related =>
        subst related
        exact .ok removed
    | error failure =>
        cases failure with
        | error error => exact .error _
        | panic panic => exact .error _
  · exact .ok keeps

theorem Keeps.handleMsgWithdrawProgram (keeps : Keeps codec flat ctx.budget)
    (timely : Timely ctx.budget) (msg : MsgWithdrawProgram) :
    ∃ outcome, flat.handleMsgWithdrawProgram codec ctx msg = some outcome ∧
      Related (Kept codec) outcome (Budget.handleMsgWithdrawProgram ctx msg) := by
  simp only [Flat.handleMsgWithdrawProgram, Budget.handleMsgWithdrawProgram, keeps.getProgram,
    Option.bind_eq_bind, Option.bind_some]
  cases stored : ctx.budget.programs[msg.programID]? with
  | none => exact ⟨_, rfl, .error _⟩
  | some program =>
      simp only
      split
      · exact ⟨_, rfl, .error _⟩
      · refine ⟨_, rfl, ?_⟩
        apply (keeps.withdrawCandidate (timely _ _ stored)).bind
        intro after image keepsAfter
        exact .ok ⟨rfl, keepsAfter.dropProgram msg.programID⟩

omit [Sdk L] in
theorem Keeps.handleMsgVoteProgram (keeps : Keeps codec flat ctx.budget)
    (timely : Timely ctx.budget) (msg : MsgVoteProgram) :
    ∃ outcome, flat.handleMsgVoteProgram codec ctx msg = some outcome ∧
      Related (Kept codec) outcome (Budget.handleMsgVoteProgram ctx msg) := by
  simp only [Flat.handleMsgVoteProgram, Budget.handleMsgVoteProgram, keeps.getProgram,
    Option.bind_eq_bind, Option.bind_some]
  cases stored : ctx.budget.programs[msg.programID]? with
  | none => exact ⟨_, rfl, .error _⟩
  | some program =>
      cases isValidator : ctx.staking.validator msg.voter with
      | none => exact ⟨_, rfl, .error _⟩
      | some bondSize =>
          refine ⟨_, rfl, .ok ⟨rfl, ?_⟩⟩
          apply keeps.addVote
          exact ⟨(timely _ _ stored).programID, ctx.staking.validator_length _ _ isValidator⟩

omit [Sdk L] in
theorem Keeps.deliver (keeps : Keeps codec flat ctx.budget) {outcome : Outcome (Result × Flat)}
    {image : Outcome (Result × Context L)} (related : Related (Kept codec) outcome image) :
    Keeps codec (flat.deliver outcome) (ctx.deliver image).budget := by
  cases related with
  | ok kept => exact kept.2
  | error failure => exact keeps

omit [Sdk L] in
/-- The end blocker leaves the records of the model. -/
theorem Keeps.endBlocker (keeps : Keeps codec flat ctx.budget) (wellFormed : WellFormed ctx.budget)
    (timely : Timely ctx.budget)
    (executors : Executors (fun executor => executor.length = addrLen) ctx.budget)
    {prefixEndBytes : Bytes → Option Bytes} (prefixEnds : PrefixEnds prefixEndBytes)
    (block : (ctx.height : ℤ) < 2 ^ 63) :
    ∃ after, flat.endBlocker codec prefixEndBytes ctx = some after ∧
      Keeps codec after (rewarded { ctx with budget := reweighed ctx }) := by
  rcases keeps.decideCandidates ctx.staking wellFormed timely prefixEnds block with
    ⟨decided, decidedEq, keepsDecided⟩
  have rest := decideCandidates_sameRest ctx.staking ctx.height ctx.budget
  have shrinks := decideCandidates_shrinks ctx.staking ctx.height ctx.budget
  have timelyDecided := timely.of_shrinks shrinks rest.1
  have executorsDecided : Executors (fun executor => executor.length = addrLen)
      (Budget.decideCandidates ctx.staking ctx.height ctx.budget) := by
    refine ⟨fun _ _ present => executors.programs _ _ (shrinks.programs _ _ present), ?_⟩
    rw [rest.2.2]
    exact executors.claims
  have weighs : ∃ after, decided.weighPhase codec ctx = some after ∧
      Keeps codec after (reweighed ctx) := by
    simp only [Flat.weighPhase, keepsDecided.params, rest.1, reweighed]
    split
    · exact keepsDecided.weighPrograms ctx.staking timelyDecided executorsDecided
    · exact ⟨decided, rfl, keepsDecided⟩
  rcases weighs with ⟨weighed, weighedEq, keepsWeighed⟩
  have pays : ∃ after, weighed.rewardPhase codec ctx = some after ∧
      Keeps codec after (rewarded { ctx with budget := reweighed ctx }) := by
    have sameLast : ({ ctx with budget := reweighed ctx } : Context L).LastBlock blocksPerEpoch ↔
        ctx.LastBlock blocksPerEpoch := Iff.rfl
    simp only [Flat.rewardPhase, rewarded, sameLast]
    split
    · exact keepsWeighed.clearClaimPool
    · exact ⟨weighed, rfl, keepsWeighed⟩
  rcases pays with ⟨after, paid, keepsAfter⟩
  exact ⟨after, by simp [Flat.endBlocker, decidedEq, weighedEq, paid], keepsAfter⟩

end Handlers

/-- What holds in the runs from an empty store. -/
structure Regular (ctx : Context L) : Prop where
  consistent : Consistent ctx
  executors : Executors (fun executor => executor.length = addrLen) ctx.budget
  submitted : Submitted ctx

/-- Heights and program ids are those of the code, with room for one more program. -/
structure Bounded (ctx : Context L) : Prop where
  height : (ctx.height : ℤ) + ctx.budget.params.votePeriod < 2 ^ 63
  programID : lastProgramID ctx.budget + 1 < 2 ^ 64

theorem step_regular {ctx next : Context L} {action : Action L} (regular : Regular ctx)
    (submits : SubmitsOnly (fun executor => executor.length = addrLen) action)
    (taken : step ctx action = some next) : Regular next where
  consistent := step_consistent taken regular.consistent
  executors := step_executors taken submits regular.consistent.wellFormed regular.executors
  submitted := step_submitted taken regular.submitted

omit [Sdk L] in
theorem Regular.timely {ctx : Context L} (regular : Regular ctx) (bounded : Bounded ctx) :
    Timely ctx.budget := by
  intro programID program present
  have submitted := regular.submitted programID program present
  have numbered := regular.consistent.numbered.programs programID program present
  have positive := regular.consistent.votePeriod
  have heightBound := bounded.height
  have idBound := bounded.programID
  simp only [List.not_mem_nil, false_or] at numbered
  have ends : program.getVotingEndBlock ctx.budget.params =
      program.submitBlock + ctx.budget.params.votePeriod :=
    Program.getVotingEndBlock_of_fits (by omega) (by omega)
  refine ⟨?_, ?_, ?_⟩
  · simp only [ends]
    omega
  · simp only [ends]
    omega
  · simp only
    omega

theorem Bounded.of_step {ctx next : Context L} {action : Action L}
    (taken : step ctx action = some next) (bounded : Bounded next) : Bounded ctx where
  height := by
    have later := bounded.height
    rw [step_votePeriod taken] at later
    rcases step_height taken with ⟨-, height⟩ | ⟨-, height⟩ <;> omega
  programID := by
    have later := bounded.programID
    have onwards := step_lastProgramID_le taken
    omega

theorem Bounded.of_reaches {start finish : Context L} {actions : List (Action L)}
    (reached : Reaches step start actions finish) (bounded : Bounded finish) : Bounded start := by
  induction reached with
  | refl => exact bounded
  | snoc _ taken ih => exact ih (bounded.of_step taken)

omit [Sdk L] in
theorem Regular.queueable_submission {ctx : Context L} (regular : Regular ctx)
    (bounded : Bounded ctx) (msg : MsgSubmitProgram) :
    Queueable ((submission ctx.budget msg ctx.height).getVotingEndBlock ctx.budget.params,
      lastProgramID ctx.budget + 1) := by
  have positive := regular.consistent.votePeriod
  have heightBound := bounded.height
  rw [submission_ends regular.consistent heightBound msg]
  refine ⟨?_, ?_, bounded.programID⟩
  · simp only
    omega
  · exact heightBound

/-- The chain together with the flat store of its budget. -/
def keyedStep (codec : AddressCodec) (prefixEndBytes : Bytes → Option Bytes)
    (state : Context L × Flat) (action : Action L) : Option (Context L × Flat) := do
  let next ← step state.1 action
  let flat ← state.2.step codec prefixEndBytes state.1 action
  some (next, flat)

section Run

variable {codec : AddressCodec} {prefixEndBytes : Bytes → Option Bytes}

/-- One action keeps the records. -/
theorem Keeps.step {flat : Flat} {ctx next : Context L} {action : Action L}
    (prefixEnds : PrefixEnds prefixEndBytes) (keeps : Keeps codec flat ctx.budget)
    (regular : Regular ctx) (bounded : Bounded ctx)
    (taken : Budget.step ctx action = some next) :
    ∃ after, flat.step codec prefixEndBytes ctx action = some after ∧
      Keeps codec after next.budget := by
  have timely := regular.timely bounded
  cases action with
  | submitProgram msg =>
      cases taken
      rcases keeps.handleMsgSubmitProgram msg (regular.queueable_submission bounded msg) with
        ⟨outcome, handled, related⟩
      exact ⟨_, by rw [Flat.step, handled]; rfl, keeps.deliver related⟩
  | withdrawProgram msg =>
      cases taken
      rcases keeps.handleMsgWithdrawProgram timely msg with ⟨outcome, handled, related⟩
      exact ⟨_, by rw [Flat.step, handled]; rfl, keeps.deliver related⟩
  | voteProgram msg =>
      cases taken
      rcases keeps.handleMsgVoteProgram timely msg with ⟨outcome, handled, related⟩
      exact ⟨_, by rw [Flat.step, handled]; rfl, keeps.deliver related⟩
  | endBlock =>
      have positive := regular.consistent.votePeriod
      have heightBound := bounded.height
      cases step_effect taken with
      | kept notEnded => exact absurd rfl notEnded
      | ended _ budget =>
          rw [budget]
          exact keeps.endBlocker regular.consistent.wellFormed timely regular.executors prefixEnds
            (by omega)
  | setParams params =>
      cases taken
      refine ⟨_, rfl, ?_, keeps.records⟩
      simp only [setParams, keeps.params]
  | elsewhere change =>
      cases taken
      exact ⟨flat, rfl, keeps⟩

/-- A run of the chain is a run of the flat store. -/
theorem Keeps.reaches {flat : Flat} {start finish : Context L} {actions : List (Action L)}
    (prefixEnds : PrefixEnds prefixEndBytes) (keeps : Keeps codec flat start.budget)
    (regular : Regular start) (reached : Reaches Budget.step start actions finish)
    (submits : ∀ action ∈ actions, SubmitsOnly (fun executor => executor.length = addrLen) action)
    (bounded : Bounded finish) :
    ∃ after, Reaches (keyedStep codec prefixEndBytes) (start, flat) actions (finish, after) ∧
      Keeps codec after finish.budget ∧ Regular finish := by
  induction actions generalizing start flat with
  | nil =>
      rw [reached.eq_of_nil]
      exact ⟨flat, .refl, keeps, regular⟩
  | cons action actions ih =>
      rcases reached.of_cons with ⟨next, taken, rest⟩
      rcases List.forall_mem_cons.mp submits with ⟨submitsNow, submitsLater⟩
      rcases keeps.step prefixEnds regular (bounded.of_reaches reached) taken with
        ⟨middle, stepped, keepsMiddle⟩
      rcases ih keepsMiddle (step_regular regular submitsNow taken) rest submitsLater with
        ⟨after, flatReached, keepsAfter, regularAfter⟩
      have both : keyedStep codec prefixEndBytes (start, flat) action = some (next, middle) := by
        simp [keyedStep, taken, stepped]
      exact ⟨after, .cons both flatReached, keepsAfter, regularAfter⟩

omit [Sdk L] in
theorem initial_regular {ctx : Context L} {params : Params} (votePeriod : 0 < params.votePeriod)
    (initial : ctx.budget = BudgetStore.initial params) : Regular ctx where
  consistent := initial_consistent votePeriod initial
  executors := by
    rw [initial]
    exact ⟨fun _ _ present => by simp [BudgetStore.initial] at present,
      fun _ _ present => by simp [BudgetStore.initial] at present⟩
  submitted := by
    intro programID program present
    simp [initial, BudgetStore.initial] at present

/-- Along every run from an empty store, the keeper decodes what it encoded: the
flat store keeps the records of the model, answers every message as the model
does, and lists the claims of the model. -/
theorem flat_refines {params : Params} {start finish : Context L} {actions : List (Action L)}
    (prefixEnds : PrefixEnds prefixEndBytes) (votePeriod : 0 < params.votePeriod)
    (initial : start.budget = BudgetStore.initial params)
    (reached : Reaches step start actions finish)
    (submits : ∀ action ∈ actions, SubmitsOnly (fun executor => executor.length = addrLen) action)
    (bounded : Bounded finish) :
    ∃ flat, Reaches (keyedStep codec prefixEndBytes) (start, ⟨params, ∅⟩) actions (finish, flat) ∧
      Keeps codec flat finish.budget ∧
      (∀ msg, ∃ outcome, flat.handleMsgSubmitProgram finish msg = some outcome ∧
        Related (Kept codec) outcome (handleMsgSubmitProgram finish msg)) ∧
      (∀ msg, ∃ outcome, flat.handleMsgWithdrawProgram codec finish msg = some outcome ∧
        Related (Kept codec) outcome (handleMsgWithdrawProgram finish msg)) ∧
      (∀ msg, ∃ outcome, flat.handleMsgVoteProgram codec finish msg = some outcome ∧
        Related (Kept codec) outcome (handleMsgVoteProgram finish msg)) ∧
      ∃ claims, claims.Perm finish.budget.claimPool ∧
        flat.iterateClaimPool codec = some claims := by
  have empty : Keeps codec ⟨params, ∅⟩ start.budget := initial ▸ keeps_initial codec params
  rcases empty.reaches prefixEnds (initial_regular votePeriod initial) reached submits bounded with
    ⟨flat, flatReached, keeps, regular⟩
  have timely := regular.timely bounded
  exact ⟨flat, flatReached, keeps,
    fun msg => keeps.handleMsgSubmitProgram msg (regular.queueable_submission bounded msg),
    keeps.handleMsgWithdrawProgram timely, keeps.handleMsgVoteProgram timely,
    keeps.iterateClaimPool⟩

theorem reaches_sampleActions :
    Reaches step sampleStart sampleActions (performed sampleStart sampleActions) :=
  reaches_performed (by decide +kernel)

theorem sampleActions_submit : ∀ action ∈ sampleActions,
    SubmitsOnly (fun executor => executor.length = addrLen) action := by
  intro action listed msg isSubmission
  subst isSubmission
  simp only [sampleActions, List.mem_cons, Action.submitProgram.injEq, reduceCtorEq, or_false,
    List.not_mem_nil] at listed
  rw [listed]
  rfl

theorem sampleActions_bounded : Bounded (performed sampleStart sampleActions) :=
  ⟨by decide +kernel, by decide +kernel⟩

theorem flat_refines_sample :
    ∃ flat, Reaches (keyedStep AddressCodec.account ByteOrder.prefixEnd)
        (sampleStart, ⟨sampleParams, ∅⟩) sampleActions
        (performed sampleStart sampleActions, flat) ∧
      flat.getVote AddressCodec.account 1 (List.replicate 20 1) = some (some true) := by
  rcases flat_refines prefixEnds_prefixEnd sampleParams_valid.votePeriod rfl reaches_sampleActions
    sampleActions_submit sampleActions_bounded with ⟨flat, flatReached, keeps, -⟩
  refine ⟨flat, flatReached, ?_⟩
  rw [keeps.getVote ⟨by decide, rfl⟩]
  decide +kernel

end Run

end TerraCore.Budget
