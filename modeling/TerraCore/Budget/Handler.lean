import TerraCore.Budget.Keeper

/-!
# Budget messages

Submitting a program burns a deposit and puts the program into the candidate
queue, from which its submitter may withdraw it with a refund. Validators may
vote on every stored program at any time, and change their vote.
-/

namespace TerraCore.Budget

structure MsgSubmitProgram where
  title : Bytes
  description : Bytes
  submitter : Address
  executor : Address
deriving DecidableEq

structure MsgWithdrawProgram where
  programID : ℕ
  submitter : Address
deriving DecidableEq

structure MsgVoteProgram where
  programID : ℕ
  option : Bool
  voter : Address
deriving DecidableEq

variable {L : Type} [Sdk L]

def payDeposit (ctx : Context L) (submitter : Address) : Outcome (Context L) :=
  Mint.burn ctx submitter ctx.budget.params.deposit

def refundDeposit (ctx : Context L) (submitter : Address) : Outcome (Context L) :=
  Mint.mint ctx submitter ctx.budget.params.deposit

/-- The program that a message submits. -/
def MsgSubmitProgram.program (msg : MsgSubmitProgram) (programID : ℕ) (submitBlock : ℤ) :
    Program :=
  { programID
    title := msg.title
    description := msg.description
    submitter := msg.submitter
    executor := msg.executor
    submitBlock }

/-- A submitted program is stored under a new id and becomes a candidate. -/
def addCandidate (store : BudgetStore) (msg : MsgSubmitProgram) (height : ℕ) : BudgetStore :=
  let (programID, store) := store.newProgramID
  let program := msg.program programID height
  (store.storeProgram program).candQueueInsert (program.getVotingEndBlock store.params) programID

def handleMsgSubmitProgram (ctx : Context L) (msg : MsgSubmitProgram) :
    Outcome (Result × Context L) := do
  let ctx ← payDeposit ctx msg.submitter
  pure (
    { tags := [.programID ctx.budget.newProgramID.1], log := [] },
    { ctx with budget := addCandidate ctx.budget msg ctx.height })

/-- A candidate leaves the queue with a refund. -/
def withdrawCandidate (ctx : Context L) (program : Program) (msg : MsgWithdrawProgram) :
    Outcome (Context L) :=
  let prgmEndBlock := program.getVotingEndBlock ctx.budget.params
  if ctx.budget.candQueueHas prgmEndBlock msg.programID then
    let ctx := { ctx with budget := ctx.budget.candQueueRemove prgmEndBlock msg.programID }
    match refundDeposit ctx program.submitter with
    | .error (.error _) => .error (.error (.refundFailed msg.submitter msg.programID))
    | outcome => outcome
  else .ok ctx

def handleMsgWithdrawProgram (ctx : Context L) (msg : MsgWithdrawProgram) :
    Outcome (Result × Context L) :=
  match ctx.budget.programs[msg.programID]? with
  | none => .error (.error (.programNotFound msg.programID))
  | some program =>
      if program.submitter ≠ msg.submitter then .error (.error (.invalidSubmitter msg.submitter))
      else do
        let ctx ← withdrawCandidate ctx program msg
        let budget :=
          (ctx.budget.deleteVotesForProgram msg.programID).deleteProgram msg.programID
        pure ({ tags := [.programID msg.programID], log := [] }, { ctx with budget })

def handleMsgVoteProgram (ctx : Context L) (msg : MsgVoteProgram) :
    Outcome (Result × Context L) :=
  match ctx.budget.programs[msg.programID]? with
  | none => .error (.error (.programNotFound msg.programID))
  | some _ =>
      match ctx.staking.validator msg.voter with
      | none => .error (.error .noDelegatorForAddress)
      | some _ =>
          .ok (
            { tags := [.programID msg.programID, .voter msg.voter, .option msg.option]
              log := [] },
            { ctx with budget := ctx.budget.addVote msg.programID msg.voter msg.option })

theorem handleMsgSubmitProgram_eq_ok {ctx after : Context L} {msg : MsgSubmitProgram}
    {result : Result} (handled : handleMsgSubmitProgram ctx msg = .ok (result, after)) :
    after.height = ctx.height ∧ after.budget = addCandidate ctx.budget msg ctx.height ∧
      after.treasury = ctx.treasury ∧ Mint.Mirrored ctx after := by
  rcases Outcome.bind_eq_ok.mp handled with ⟨paid, burned, done⟩
  cases done
  have frame := Mint.burn_frame burned
  refine ⟨frame.height, by rw [frame.budget, frame.height], frame.treasury, ?_⟩
  exact (Mint.burn_mirrored burned).trans
    (Mint.Mirrored.of_unchanged (Mint.Changes.of_budget paid _))

/-- The store after a withdrawal. -/
def withdrawn (store : BudgetStore) (program : Program) (programID : ℕ) : BudgetStore :=
  ((store.candQueueRemove (program.getVotingEndBlock store.params)
    programID).deleteVotesForProgram programID).deleteProgram programID

theorem withdrawCandidate_frame {ctx after : Context L} {program : Program}
    {msg : MsgWithdrawProgram} (done : withdrawCandidate ctx program msg = .ok after) :
    Mint.Frame { ctx with budget := after.budget } after := by
  unfold withdrawCandidate at done
  simp only at done
  split at done
  · split at done
    · cases done
    · have frame := Mint.mint_frame done
      exact ⟨frame.height, frame.validator, frame.bondedTokens, frame.oracle, frame.market,
        frame.treasury, rfl⟩
  · cases done
    exact .refl _

theorem withdrawCandidate_eq_ok {ctx after : Context L} {program : Program}
    {msg : MsgWithdrawProgram} (done : withdrawCandidate ctx program msg = .ok after) :
    after.height = ctx.height ∧
      after.budget = ctx.budget.candQueueRemove (program.getVotingEndBlock ctx.budget.params)
        msg.programID ∧
      after.treasury = ctx.treasury ∧ Mint.Mirrored ctx after := by
  unfold withdrawCandidate at done
  simp only at done
  split at done
  · split at done
    · cases done
    · next refunded _ =>
        have frame := Mint.mint_frame done
        refine ⟨frame.height, frame.budget, frame.treasury, ?_⟩
        exact (Mint.Mirrored.of_unchanged (Mint.Changes.of_budget ctx _)).trans
          (Mint.mint_mirrored done)
  · next notQueued =>
      cases done
      refine ⟨rfl, ?_, rfl, Mint.Mirrored.of_unchanged (Mint.Changes.refl _)⟩
      -- Removing an entry that is not there changes nothing.
      simp only [BudgetStore.candQueueHas] at notQueued
      have absent : ctx.budget.candQueue[(program.getVotingEndBlock ctx.budget.params,
          msg.programID)]? = none := by simpa using notQueued
      simp only [BudgetStore.candQueueRemove]
      simp only [Store.erase_of_get_none absent]

/-- The program is withdrawn by its submitter. -/
theorem handleMsgWithdrawProgram_steps {ctx after : Context L} {msg : MsgWithdrawProgram}
    {result : Result} (handled : handleMsgWithdrawProgram ctx msg = .ok (result, after)) :
    ∃ program middle, ctx.budget.programs[msg.programID]? = some program ∧
      program.submitter = msg.submitter ∧ withdrawCandidate ctx program msg = .ok middle ∧
      after = { middle with
        budget :=
          (middle.budget.deleteVotesForProgram msg.programID).deleteProgram msg.programID } := by
  simp only [handleMsgWithdrawProgram] at handled
  split at handled
  · cases handled
  · next program present =>
      split at handled
      · cases handled
      · next same =>
          rcases Outcome.bind_eq_ok.mp handled with ⟨middle, done, handled⟩
          cases handled
          exact ⟨program, middle, present, not_not.mp same, done, rfl⟩

theorem handleMsgWithdrawProgram_eq_ok {ctx after : Context L} {msg : MsgWithdrawProgram}
    {result : Result} (handled : handleMsgWithdrawProgram ctx msg = .ok (result, after)) :
    ∃ program, ctx.budget.programs[msg.programID]? = some program ∧
      after.height = ctx.height ∧ after.budget = withdrawn ctx.budget program msg.programID ∧
      after.treasury = ctx.treasury ∧ Mint.Mirrored ctx after := by
  rcases handleMsgWithdrawProgram_steps handled with ⟨program, middle, present, -, done, rfl⟩
  rcases withdrawCandidate_eq_ok done with ⟨heightEq, budgetEq, treasuryEq, mirrored⟩
  refine ⟨program, present, heightEq, ?_, treasuryEq, ?_⟩
  · simp only [withdrawn]
    rw [budgetEq]
  · exact mirrored.trans (Mint.Mirrored.of_unchanged (Mint.Changes.of_budget middle _))

omit [Sdk L] in
theorem handleMsgVoteProgram_eq_ok {ctx after : Context L} {msg : MsgVoteProgram}
    {result : Result} (handled : handleMsgVoteProgram ctx msg = .ok (result, after)) :
    (∃ program, ctx.budget.programs[msg.programID]? = some program) ∧
      after = { ctx with
        budget := ctx.budget.addVote msg.programID msg.voter msg.option } := by
  simp only [handleMsgVoteProgram] at handled
  split at handled
  · cases handled
  · next program present =>
      split at handled
      · cases handled
      · cases handled
        exact ⟨⟨program, present⟩, rfl⟩

/-- The last program id that was handed out, zero when there is none. -/
def lastProgramID (store : BudgetStore) : ℕ := store.nextProgramID.getD 0

theorem newProgramID_fst (store : BudgetStore) :
    store.newProgramID.1 = lastProgramID store + 1 := by
  simp only [BudgetStore.newProgramID, lastProgramID]
  cases store.nextProgramID <;> rfl

/-- The program that a submission stores. -/
def submission (store : BudgetStore) (msg : MsgSubmitProgram) (height : ℕ) : Program :=
  msg.program (lastProgramID store + 1) height

theorem handleMsgSubmitProgram_tags {ctx after : Context L} {msg : MsgSubmitProgram}
    {result : Result} (handled : handleMsgSubmitProgram ctx msg = .ok (result, after)) :
    result.tags = [.programID (lastProgramID ctx.budget + 1)] := by
  rcases Outcome.bind_eq_ok.mp handled with ⟨paid, burned, done⟩
  cases done
  rw [newProgramID_fst, (Mint.burn_frame burned).budget]

theorem addCandidate_eq (store : BudgetStore) (msg : MsgSubmitProgram) (height : ℕ) :
    addCandidate store msg height =
      (store.newProgramID.2.storeProgram (submission store msg height)).candQueueInsert
        ((submission store msg height).getVotingEndBlock store.params)
        (lastProgramID store + 1) := by
  simp only [addCandidate, submission]
  rw [← newProgramID_fst]
  rfl

theorem addCandidate_programs (store : BudgetStore) (msg : MsgSubmitProgram) (height other : ℕ) :
    (addCandidate store msg height).programs[other]? =
      if lastProgramID store + 1 = other then some (submission store msg height)
      else store.programs[other]? := by
  rw [addCandidate_eq]
  exact BudgetStore.get_storeProgram _ _ _

theorem addCandidate_candQueue (store : BudgetStore) (msg : MsgSubmitProgram) (height : ℕ)
    (key : ℤ × ℕ) :
    (addCandidate store msg height).candQueue[key]? =
      if ((submission store msg height).getVotingEndBlock store.params,
          lastProgramID store + 1) = key then some (lastProgramID store + 1)
      else store.candQueue[key]? := by
  rw [addCandidate_eq]
  exact BudgetStore.get_candQueueInsert _ _ _ _

theorem addCandidate_rest (store : BudgetStore) (msg : MsgSubmitProgram) (height : ℕ) :
    (addCandidate store msg height).params = store.params ∧
      (addCandidate store msg height).votes = store.votes ∧
      (addCandidate store msg height).claims = store.claims ∧
      lastProgramID (addCandidate store msg height) = lastProgramID store + 1 := by
  refine ⟨rfl, rfl, rfl, ?_⟩
  rw [← newProgramID_fst]
  rfl

theorem withdrawn_programs (store : BudgetStore) (program : Program) (programID other : ℕ) :
    (withdrawn store program programID).programs[other]? =
      if programID = other then none else store.programs[other]? :=
  BudgetStore.get_deleteProgram _ _ _

theorem withdrawn_votes (store : BudgetStore) (program : Program) (programID : ℕ)
    (key : ℕ × Address) :
    (withdrawn store program programID).votes[key]? =
      if key.1 = programID then none else store.votes[key]? :=
  BudgetStore.get_deleteVotesForProgram _ _ _

theorem withdrawn_candQueue (store : BudgetStore) (program : Program) (programID : ℕ)
    (key : ℤ × ℕ) :
    (withdrawn store program programID).candQueue[key]? =
      if (program.getVotingEndBlock store.params, programID) = key then none
      else store.candQueue[key]? :=
  BudgetStore.get_candQueueRemove _ _ _ _

end TerraCore.Budget
