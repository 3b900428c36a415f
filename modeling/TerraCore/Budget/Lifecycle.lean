import TerraCore.Budget.Consistency

/-!
# The life of a program

A submitted program waits in the candidate queue until the block at which its
vote ends. At the end of that block, and of no other, it is tallied against the
active threshold: it is deleted with all its votes, or it leaves the queue and
is active from then on.
-/

namespace TerraCore.Budget

open Transition

variable {L : Type} [Sdk L]

/-- The programs that the loop over the expired candidates tallies, in order. -/
def talliedAmong (staking : Staking) : BudgetStore → List ℕ → List ℕ
  | _, [] => []
  | store, programID :: rest =>
      let later := talliedAmong staking (decideCandidate staking store programID) rest
      match store.programs[programID]? with
      | some _ => programID :: later
      | none => later

/-- The programs that are tallied against the active threshold at the end of the block. -/
def tallied (ctx : Context L) : List ℕ :=
  talliedAmong ctx.staking ctx.budget (ctx.budget.expiredCandidates ctx.height)

theorem talliedAmong_count_of_not_mem (staking : Staking) (store : BudgetStore) {rest : List ℕ}
    {programID : ℕ} (notListed : programID ∉ rest) :
    (talliedAmong staking store rest).count programID = 0 := by
  induction rest generalizing store with
  | nil => rfl
  | cons head rest ih =>
      rw [List.mem_cons, not_or] at notListed
      unfold talliedAmong
      simp only
      split
      · rw [List.count_cons_of_ne (Ne.symm notListed.1)]
        exact ih _ notListed.2
      · exact ih _ notListed.2

theorem talliedAmong_count_of_mem (staking : Staking) {store : BudgetStore} {rest : List ℕ}
    {programID : ℕ} {program : Program} (distinct : rest.Nodup) (listed : programID ∈ rest)
    (stored : store.programs[programID]? = some program) :
    (talliedAmong staking store rest).count programID = 1 := by
  induction rest generalizing store with
  | nil => cases listed
  | cons head rest ih =>
      rw [List.nodup_cons] at distinct
      unfold talliedAmong
      simp only
      rcases List.mem_cons.mp listed with rfl | later
      · rw [stored]
        simp only
        rw [List.count_cons_self, talliedAmong_count_of_not_mem staking _ distinct.1]
      · have different : programID ≠ head := fun same => distinct.1 (same ▸ later)
        -- The program is still stored after the one before it was decided.
        have stillStored := (decideCandidate_framed staking store head programID different).program
        have counted := ih distinct.2 later (stillStored.trans stored)
        split
        · rw [List.count_cons_of_ne (Ne.symm different)]
          exact counted
        · exact counted

/-- The program is deleted with all its votes. -/
def Deleted (store : BudgetStore) (programID : ℕ) : Prop :=
  store.programs[programID]? = none ∧
    (∀ voter : Address, store.votes[(programID, voter)]? = none) ∧
    ∀ endBlock : ℤ, store.candQueue[(endBlock, programID)]? = none

/-- The program is stored and is no candidate. -/
def Active (store : BudgetStore) (program : Program) : Prop :=
  store.programs[program.programID]? = some program ∧
    ∀ endBlock : ℤ, store.candQueue[(endBlock, program.programID)]? = none

/-- In a well-formed store a program without a queue entry is active or deleted. -/
theorem WellFormed.active_or_deleted {store : BudgetStore} (wellFormed : WellFormed store)
    {program : Program} (same : ∀ found,
      store.programs[program.programID]? = some found → found = program)
    (unqueued : ∀ endBlock : ℤ, store.candQueue[(endBlock, program.programID)]? = none) :
    Active store program ∨ Deleted store program.programID := by
  cases stored : store.programs[program.programID]? with
  | some found =>
      left
      rw [same found stored] at stored
      exact ⟨stored, unqueued⟩
  | none =>
      right
      refine ⟨stored, ?_, unqueued⟩
      intro voter
      cases present : store.votes[(program.programID, voter)]? with
      | none => rfl
      | some option =>
          rcases wellFormed.voted _ _ present with ⟨found, foundStored⟩
          rw [stored] at foundStored
          cases foundStored

omit [Sdk L] in
/-- A candidate whose vote ends is kept exactly when it passes. -/
theorem decided_verdict {ctx : Context L} (consistent : Consistent ctx) {program : Program}
    {programID : ℕ} (stored : ctx.budget.programs[programID]? = some program)
    (queued : ctx.budget.candQueue[((ctx.height : ℤ), programID)]? = some programID) :
    if Passes ctx.staking ctx.budget programID then Active (decided ctx) program
    else Deleted (decided ctx) programID := by
  have programIDEq : program.programID = programID := ctx.budget.programs_keyed _ _ stored
  subst programIDEq
  have wellFormed : WellFormed (decided ctx) :=
    consistent.wellFormed.decideCandidates ctx.staking ctx.height
  have visited : program.programID ∈ ctx.budget.expiredCandidates ctx.height :=
    (BudgetStore.mem_expiredCandidates_iff _ _ _).mpr ⟨ctx.height, le_rfl, queued⟩
  have agree := decideCandidates_of_expired ctx.staking
    (consistent.wellFormed.expiredCandidates_nodup ctx.height) visited
  rw [decideCandidate_of_stored ctx.staking stored] at agree
  have unqueued : ∀ endBlock : ℤ,
      (decided ctx).candQueue[(endBlock, program.programID)]? = none := by
    intro endBlock
    have cleared := agree.queue endBlock
    rw [BudgetStore.get_candQueueRemove, settle_candQueue, ← BudgetStore.get_candQueueRemove,
      consistent.wellFormed.queue_cleared stored] at cleared
    exact cleared
  have verdict : (decided ctx).programs[program.programID]? =
      if Passes ctx.staking ctx.budget program.programID then some program else none := by
    refine agree.program.trans ?_
    change (settle ctx.staking ctx.budget program.programID _).programs[program.programID]? = _
    rw [get_settle_programs]
    split <;> simp_all
  split
  · next passes =>
      rw [if_pos passes] at verdict
      exact ⟨verdict, unqueued⟩
  · next fails =>
      rw [if_neg fails] at verdict
      have same : ∀ found, (decided ctx).programs[program.programID]? = some found →
          found = program := by simp [verdict]
      rcases wellFormed.active_or_deleted same unqueued with active | deleted
      · rw [active.1] at verdict
        cases verdict
      · exact deleted

/-- The heights at which an action tallies the program against the active threshold. -/
def tallyHeightsNow (programID : ℕ) (ctx : Context L) : Action L → List ℤ
  | .endBlock => List.replicate ((tallied ctx).count programID) ctx.height
  | _ => []

/-- The heights at which a run tallies the program against the active threshold. -/
def tallyHeights (programID : ℕ) : Context L → List (Action L) → List ℤ
  | _, [] => []
  | ctx, action :: actions =>
      tallyHeightsNow programID ctx action ++
        match step ctx action with
        | some next => tallyHeights programID next actions
        | none => []

theorem tallyHeights_cons {programID : ℕ} {ctx next : Context L} {action : Action L}
    (taken : step ctx action = some next) (actions : List (Action L)) :
    tallyHeights programID ctx (action :: actions) =
      tallyHeightsNow programID ctx action ++ tallyHeights programID next actions := by
  rw [tallyHeights, taken]

theorem tallyHeights_append {programID : ℕ} {start middle : Context L} {first : List (Action L)}
    (reached : Reaches step start first middle) (second : List (Action L)) :
    tallyHeights programID start (first ++ second) =
      tallyHeights programID start first ++ tallyHeights programID middle second := by
  induction first generalizing start with
  | nil => rw [reached.eq_of_nil]; rfl
  | cons action first ih =>
      rcases reached.of_cons with ⟨next, taken, rest⟩
      rw [List.cons_append, tallyHeights_cons taken, tallyHeights_cons taken, ih rest,
        List.append_assoc]

/-- The program is not withdrawn. -/
def NotWithdrawn (programID : ℕ) (ctx : Context L) (action : Action L) : Prop :=
  ∀ msg, action = .withdrawProgram msg → msg.programID = programID →
    ∀ done, handleMsgWithdrawProgram ctx msg ≠ .ok done

/-- When a submitter can pay the deposit, the vote on the program ends at an `int64` height. -/
def InTime (ctx : Context L) (action : Action L) : Prop :=
  ∀ msg, action = .submitProgram msg →
    ∀ paid, Mint.burn ctx msg.submitter ctx.budget.params.deposit = .ok paid →
      (ctx.height : ℤ) + ctx.budget.params.votePeriod < 2 ^ 63

theorem InTime.fits {ctx : Context L} {msg : MsgSubmitProgram} {done : Result × Context L}
    (inTime : InTime ctx (.submitProgram msg))
    (handled : handleMsgSubmitProgram ctx msg = .ok done) :
    (ctx.height : ℤ) + ctx.budget.params.votePeriod < 2 ^ 63 := by
  rcases Outcome.bind_eq_ok.mp handled with ⟨paid, burned, -⟩
  exact inTime msg rfl paid burned

/-- A submitted program that was not withdrawn waits in the queue until its vote
ends, and its id is not handed out again. -/
structure Tracked (program : Program) (endBlock : ℤ) (ctx : Context L) : Prop where
  consistent : Consistent ctx
  handedOut : program.programID ≤ lastProgramID ctx.budget
  same : ∀ found, ctx.budget.programs[program.programID]? = some found → found = program
  ends : program.getVotingEndBlock ctx.budget.params = endBlock
  waiting : (ctx.height : ℤ) ≤ endBlock →
    ctx.budget.programs[program.programID]? = some program ∧
      ctx.budget.candQueue[(endBlock, program.programID)]? = some program.programID
  cleared : endBlock < ctx.height → ctx.budget.candQueue[(endBlock, program.programID)]? = none

omit [Sdk L] in
theorem Tracked.queued_at {program : Program} {endBlock : ℤ} {ctx : Context L}
    (tracked : Tracked program endBlock ctx) {due : ℤ} {found : ℕ}
    (present : ctx.budget.candQueue[(due, program.programID)]? = some found) : due = endBlock := by
  rcases tracked.consistent.wellFormed.queued _ _ present with ⟨other, stored, ends⟩
  rw [← tracked.ends, ← tracked.same other stored]
  exact ends.symm

omit [Sdk L] in
theorem Tracked.not_expired {program : Program} {endBlock : ℤ} {ctx : Context L}
    (tracked : Tracked program endBlock ctx) (otherHeight : (ctx.height : ℤ) ≠ endBlock) :
    program.programID ∉ ctx.budget.expiredCandidates ctx.height := by
  intro expired
  rcases (BudgetStore.mem_expiredCandidates_iff _ _ _).mp expired with ⟨due, overdue, present⟩
  have dueEq := tracked.queued_at present
  subst dueEq
  rw [tracked.cleared (by omega)] at present
  cases present

omit [Sdk L] in
theorem Tracked.tallied_count {program : Program} {endBlock : ℤ} {ctx : Context L}
    (tracked : Tracked program endBlock ctx) :
    (tallied ctx).count program.programID = if (ctx.height : ℤ) = endBlock then 1 else 0 := by
  simp only [tallied]
  split
  · next now =>
      rcases tracked.waiting now.le with ⟨stored, queued⟩
      exact talliedAmong_count_of_mem ctx.staking
        (tracked.consistent.wellFormed.expiredCandidates_nodup ctx.height)
        ((BudgetStore.mem_expiredCandidates_iff _ _ _).mpr ⟨endBlock, now.ge, queued⟩) stored
  · next otherHeight =>
      exact talliedAmong_count_of_not_mem ctx.staking _ (tracked.not_expired otherHeight)

omit [Sdk L] in
/-- The queue entry of a program is there until its vote ends, and not after. -/
theorem Tracked.candQueueHas_iff {program : Program} {endBlock : ℤ} {ctx : Context L}
    (tracked : Tracked program endBlock ctx) :
    ctx.budget.candQueueHas endBlock program.programID = true ↔ (ctx.height : ℤ) ≤ endBlock := by
  simp only [BudgetStore.candQueueHas, Option.isSome_iff_exists]
  constructor
  · rintro ⟨found, present⟩
    by_contra late
    rw [tracked.cleared (not_le.mp late)] at present
    cases present
  · intro early
    exact ⟨_, (tracked.waiting early).2⟩

omit [Sdk L] in
/-- Before its vote ends, the end of a block leaves a candidate alone. -/
theorem Tracked.blockEnd {program : Program} {endBlock : ℤ} {ctx : Context L}
    (tracked : Tracked program endBlock ctx) (early : (ctx.height : ℤ) < endBlock) :
    Agree program.programID (blockEnd ctx) ctx.budget := by
  rcases tracked.waiting early.le with ⟨stored, queued⟩
  have kept : Agree program.programID (decided ctx) ctx.budget :=
    decideCandidates_of_pending ctx.staking (tracked.not_expired early.ne)
  have decidedWellFormed : WellFormed (decided ctx) :=
    tracked.consistent.wellFormed.decideCandidates ctx.staking ctx.height
  simp only [Budget.blockEnd]
  split
  · refine Agree.trans ?_ kept
    have storedStill := kept.program.trans stored
    have agree := weighedAll_of_stored ctx.staking storedStill
    have isQueuedStill :=
      decidedWellFormed.isQueued_of_present storedStill ((kept.queue endBlock).trans queued)
    simp only [weighed] at agree
    rwa [if_pos isQueuedStill] at agree
  · exact kept

omit [Sdk L] in
/-- A step within the block that leaves the program and its queue entry alone. -/
theorem Tracked.keep {program : Program} {endBlock : ℤ} {ctx next : Context L}
    (tracked : Tracked program endBlock ctx) (consistent : Consistent next)
    (height : next.height = ctx.height)
    (handedOut : lastProgramID ctx.budget ≤ lastProgramID next.budget)
    (period : next.budget.params.votePeriod = ctx.budget.params.votePeriod)
    (programs : next.budget.programs[program.programID]? =
      ctx.budget.programs[program.programID]?)
    (queue : next.budget.candQueue[(endBlock, program.programID)]? =
      ctx.budget.candQueue[(endBlock, program.programID)]?) :
    Tracked program endBlock next := by
  refine ⟨consistent, tracked.handedOut.trans handedOut, ?_, ?_, ?_, ?_⟩
  · rw [programs]
    exact tracked.same
  · simp only [Program.getVotingEndBlock, period]
    exact tracked.ends
  · rw [height, programs, queue]
    exact tracked.waiting
  · rw [height, queue]
    exact tracked.cleared

omit [Sdk L] in
/-- The end of a block decides the program when its vote ends, and not before. -/
theorem Tracked.afterBlock {program : Program} {endBlock : ℤ} {ctx next : Context L}
    (tracked : Tracked program endBlock ctx) (consistent : Consistent next)
    (height : next.height = ctx.height + 1)
    (same : SameRecords next.budget (Budget.blockEnd ctx)) : Tracked program endBlock next := by
  refine ⟨consistent, ?_, ?_, ?_, ?_, ?_⟩
  · have handedOut := tracked.handedOut
    simp only [lastProgramID] at handedOut ⊢
    rwa [same.nextProgramID, (blockEnd_sameRest ctx).2.1]
  · intro found stored
    exact tracked.same found ((same.shrinks (blockEnd_shrinks ctx)).programs _ _ stored)
  · rw [same.params, (blockEnd_sameRest ctx).1]
    exact tracked.ends
  · intro notEnded
    have early : (ctx.height : ℤ) < endBlock := by
      rw [height] at notEnded
      omega
    have agree := tracked.blockEnd early
    rw [same.programs, same.candQueue, agree.program, agree.queue]
    exact tracked.waiting early.le
  · intro passed
    cases present : next.budget.candQueue[(endBlock, program.programID)]? with
    | none => rfl
    | some found =>
        rw [same.candQueue] at present
        have later := blockEnd_pending tracked.consistent.wellFormed present
        simp only at later
        rw [height] at passed
        omega

theorem step_tracked {program : Program} {endBlock : ℤ} {ctx next : Context L}
    {action : Action L} (taken : step ctx action = some next)
    (tracked : Tracked program endBlock ctx)
    (notWithdrawn : NotWithdrawn program.programID ctx action) :
    Tracked program endBlock next := by
  have consistent := step_consistent taken tracked.consistent
  cases step_effect taken with
  | kept _ height budget =>
      apply tracked.keep consistent height <;> rw [budget]
  | @submitted msg _ _ height budget =>
      rcases addCandidate_rest ctx.budget msg ctx.height with ⟨-, -, params, last⟩
      have handedOut := tracked.handedOut
      have otherID : lastProgramID ctx.budget + 1 ≠ program.programID := by omega
      apply tracked.keep consistent height
      · rw [budget, last]
        omega
      · rw [budget]
        rfl
      · rw [budget, addCandidate_programs, if_neg otherID]
      · rw [budget, addCandidate_candQueue, if_neg]
        intro same
        exact otherID (congrArg Prod.snd same)
  | @withdrew msg _ withdrawnProgram accepted _ height budget =>
      rcases accepted with ⟨result, handled⟩
      have otherID : msg.programID ≠ program.programID := fun same =>
        notWithdrawn msg rfl same _ handled
      apply tracked.keep consistent height
      · rw [budget]
        rfl
      · rw [budget]
        rfl
      · rw [budget, withdrawn_programs, if_neg otherID]
      · rw [budget, withdrawn_candQueue, if_neg]
        intro same
        exact otherID (congrArg Prod.snd same)
  | voted _ height budget =>
      apply tracked.keep consistent height <;> rw [budget] <;> rfl
  | ended height budget =>
      have same := rewarded_sameRecords ctx
      rw [← budget] at same
      exact tracked.afterBlock consistent height same
  | paramsSet height budget =>
      apply tracked.keep consistent height <;> rw [budget] <;> rfl

theorem step_height {ctx next : Context L} {action : Action L}
    (taken : step ctx action = some next) :
    (action = .endBlock ∧ next.height = ctx.height + 1) ∨
      (action ≠ .endBlock ∧ next.height = ctx.height) := by
  cases step_effect taken with
  | kept notEnded height => exact Or.inr ⟨notEnded, height⟩
  | submitted _ height => exact Or.inr ⟨by simp, height⟩
  | withdrew _ _ height => exact Or.inr ⟨by simp, height⟩
  | voted _ height => exact Or.inr ⟨by simp, height⟩
  | ended height => exact Or.inl ⟨rfl, height⟩
  | paramsSet height => exact Or.inr ⟨by simp, height⟩

theorem reaches_height_le {start final : Context L} {actions : List (Action L)}
    (reached : Reaches step start actions final) : start.height ≤ final.height := by
  refine reached.invariant (fun ctx => start.height ≤ ctx.height) ?_ le_rfl
  intro before action after holds taken
  rcases step_height taken with ⟨-, height⟩ | ⟨-, height⟩ <;> omega

omit [Sdk L] in
theorem tallyHeightsNow_of_ne {programID : ℕ} {ctx : Context L} {action : Action L}
    (notEnded : action ≠ .endBlock) : tallyHeightsNow programID ctx action = [] := by
  cases action with
  | endBlock => exact absurd rfl notEnded
  | _ => rfl

/-- A program that was not withdrawn is tallied when the run passes the end of its vote. -/
theorem tallyHeights_of_tracked {program : Program} {endBlock : ℤ} {ctx final : Context L}
    {actions : List (Action L)} (tracked : Tracked program endBlock ctx)
    (notWithdrawn : Along step (NotWithdrawn program.programID) ctx actions)
    (reached : Reaches step ctx actions final) :
    tallyHeights program.programID ctx actions =
      if (ctx.height : ℤ) ≤ endBlock ∧ endBlock < final.height then [endBlock] else [] := by
  induction actions generalizing ctx with
  | nil =>
      rw [reached.eq_of_nil, if_neg (by omega)]
      rfl
  | cons action actions ih =>
      rcases reached.of_cons with ⟨next, taken, rest⟩
      have later := ih (step_tracked taken tracked notWithdrawn.1) (notWithdrawn.2 next taken) rest
      have onwards := reaches_height_le rest
      rw [tallyHeights_cons taken, later]
      rcases step_height taken with ⟨rfl, height⟩ | ⟨notEnded, height⟩
      · -- The block ends: the program is tallied if this is the block at which its vote ends.
        simp only [tallyHeightsNow, tracked.tallied_count]
        by_cases now : (ctx.height : ℤ) = endBlock
        · rw [if_pos now, if_neg (by omega), if_pos (by omega), now]
          rfl
        · rw [if_neg now]
          have sameWindow : ((next.height : ℤ) ≤ endBlock ∧ endBlock < final.height) ↔
              ((ctx.height : ℤ) ≤ endBlock ∧ endBlock < final.height) := by omega
          simp only [sameWindow, List.replicate_zero, List.nil_append]
      · rw [tallyHeightsNow_of_ne notEnded, List.nil_append, height]

theorem step_lastProgramID_le {ctx next : Context L} {action : Action L}
    (taken : step ctx action = some next) :
    lastProgramID ctx.budget ≤ lastProgramID next.budget := by
  cases step_effect taken with
  | kept _ _ budget => rw [budget]
  | @submitted msg _ _ _ budget =>
      rw [budget, (addCandidate_rest ctx.budget msg ctx.height).2.2.2]
      omega
  | withdrew _ _ _ budget =>
      rw [budget]
      exact le_rfl
  | voted _ _ budget =>
      rw [budget]
      exact le_rfl
  | ended _ budget =>
      have same := rewarded_sameRecords ctx
      simp only [lastProgramID]
      rw [budget, same.nextProgramID, (blockEnd_sameRest ctx).2.1]
  | paramsSet _ budget =>
      rw [budget]
      exact le_rfl

theorem reaches_lastProgramID_le {start final : Context L} {actions : List (Action L)}
    (reached : Reaches step start actions final) :
    lastProgramID start.budget ≤ lastProgramID final.budget := by
  refine reached.invariant (fun ctx => lastProgramID start.budget ≤ lastProgramID ctx.budget) ?_
    le_rfl
  intro before action after holds taken
  exact holds.trans (step_lastProgramID_le taken)

/-- A program is not tallied before its id is handed out. -/
theorem tallyHeights_of_unissued {programID : ℕ} {start final : Context L}
    {actions : List (Action L)} (consistent : Consistent start)
    (reached : Reaches step start actions final)
    (unissued : lastProgramID final.budget < programID) :
    tallyHeights programID start actions = [] := by
  induction actions generalizing start with
  | nil => rfl
  | cons action actions ih =>
      rcases reached.of_cons with ⟨next, taken, rest⟩
      have notExpired : programID ∉ start.budget.expiredCandidates start.height := by
        intro expired
        rcases (BudgetStore.mem_expiredCandidates_iff _ _ _).mp expired with ⟨due, -, present⟩
        have before := reaches_lastProgramID_le reached
        rcases consistent.numbered.candQueue _ _ present with listed | handedOut
        · cases listed
        · simp only at handedOut
          omega
      rw [tallyHeights_cons taken, ih (step_consistent taken consistent) rest, List.append_nil]
      cases action with
      | endBlock =>
          simp only [tallyHeightsNow, tallied, talliedAmong_count_of_not_mem _ _ notExpired,
            List.replicate_zero]
      | _ => rfl

omit [Sdk L] in
/-- The vote on a submission in time ends a vote period later. -/
theorem submission_ends {ctx : Context L} (consistent : Consistent ctx)
    (fits : (ctx.height : ℤ) + ctx.budget.params.votePeriod < 2 ^ 63) (msg : MsgSubmitProgram) :
    (submission ctx.budget msg ctx.height).getVotingEndBlock ctx.budget.params =
      ctx.height + ctx.budget.params.votePeriod := by
  have positive := consistent.votePeriod
  apply Program.getVotingEndBlock_of_fits
  · simp only [submission, MsgSubmitProgram.program]
    omega
  · exact fits

/-- A submitted program is followed from its submission. -/
theorem tracked_of_submitted {ctx submitted : Context L} {msg : MsgSubmitProgram}
    {result : Result} (consistent : Consistent ctx)
    (fits : (ctx.height : ℤ) + ctx.budget.params.votePeriod < 2 ^ 63)
    (handled : handleMsgSubmitProgram ctx msg = .ok (result, submitted)) :
    Tracked (submission ctx.budget msg ctx.height)
      (ctx.height + ctx.budget.params.votePeriod) submitted := by
  have taken := step_submitProgram handled
  have ends := submission_ends consistent fits msg
  rcases handleMsgSubmitProgram_eq_ok handled with ⟨height, budget, -⟩
  rcases addCandidate_rest ctx.budget msg ctx.height with ⟨-, -, -, last⟩
  have stored : submitted.budget.programs[(submission ctx.budget msg ctx.height).programID]? =
      some (submission ctx.budget msg ctx.height) := by
    rw [budget, addCandidate_programs]
    exact if_pos rfl
  refine ⟨step_consistent taken consistent, ?_, ?_, ?_, ?_, ?_⟩
  · rw [budget, last]
    exact le_rfl
  · intro found present
    exact Option.some.inj (present.symm.trans stored)
  · rw [budget]
    exact ends
  · intro _
    refine ⟨stored, ?_⟩
    rw [budget, addCandidate_candQueue, ends]
    exact if_pos rfl
  · intro passed
    have positive := consistent.votePeriod
    rw [height] at passed
    omega

/-- A program that is stored after a step was stored before, or is submitted by the step. -/
theorem step_stored {ctx next : Context L} {action : Action L}
    (taken : step ctx action = some next) {programID : ℕ} {program : Program}
    (present : next.budget.programs[programID]? = some program) :
    ctx.budget.programs[programID]? = some program ∨
      ∃ msg result, action = .submitProgram msg ∧
        handleMsgSubmitProgram ctx msg = .ok (result, next) ∧
        program = submission ctx.budget msg ctx.height := by
  cases step_effect taken with
  | kept _ _ budget => exact Or.inl (budget ▸ present)
  | @submitted msg _ accepted _ budget =>
      rcases accepted with ⟨result, handled⟩
      rw [budget, addCandidate_programs] at present
      split at present
      · cases present
        exact Or.inr ⟨msg, result, rfl, handled, rfl⟩
      · exact Or.inl present
  | withdrew _ _ _ budget =>
      rw [budget] at present
      exact Or.inl ((Shrinks.withdrawn _ _ _).programs _ _ present)
  | voted _ _ budget =>
      rw [budget] at present
      exact Or.inl present
  | ended _ budget =>
      rw [budget] at present
      have shrinks := (rewarded_sameRecords ctx).shrinks (blockEnd_shrinks ctx)
      exact Or.inl (shrinks.programs _ _ present)
  | paramsSet _ budget =>
      rw [budget] at present
      exact Or.inl present

/-- The votes on the stored programs end a vote period after their submission. -/
def Timed (ctx : Context L) : Prop :=
  ∀ (programID : ℕ) (program : Program), ctx.budget.programs[programID]? = some program →
    program.getVotingEndBlock ctx.budget.params =
      program.submitBlock + ctx.budget.params.votePeriod

theorem step_timed {ctx next : Context L} {action : Action L} (consistent : Consistent ctx)
    (timed : Timed ctx) (inTime : InTime ctx action) (taken : step ctx action = some next) :
    Timed next := by
  intro programID program present
  have samePeriod := step_votePeriod taken
  have sameEnd : program.getVotingEndBlock next.budget.params =
      program.getVotingEndBlock ctx.budget.params := by
    simp only [Program.getVotingEndBlock, samePeriod]
  rw [sameEnd, samePeriod]
  rcases step_stored taken present with stored | ⟨msg, result, rfl, handled, rfl⟩
  · exact timed programID program stored
  · exact submission_ends consistent (inTime.fits handled) msg

theorem reaches_timed {start ctx : Context L} {actions : List (Action L)}
    (consistent : Consistent start) (timed : Timed start)
    (reached : Reaches step start actions ctx) (inTime : Along step InTime start actions) :
    Timed ctx := by
  refine (reached.invariant_of_along (fun state => Consistent state ∧ Timed state) ?_ inTime
    ⟨consistent, timed⟩).2
  intro before action after holds inTimeNow taken
  exact ⟨step_consistent taken holds.1, step_timed holds.1 holds.2 inTimeNow taken⟩

/-- What is true of the budget in a state that a run has reached. -/
structure Orderly (params : Params) (start : Context L) (actions : List (Action L))
    (ctx : Context L) : Prop where
  /-- Every vote is on a stored program. -/
  voted : ∀ (programID : ℕ) (voter : Address) (option : Bool),
    ctx.budget.votes[(programID, voter)]? = some option →
      ∃ program, ctx.budget.programs[programID]? = some program
  /-- Every queue entry belongs to a stored program whose vote ends at its block. -/
  queued : ∀ (endBlock : ℤ) (programID found : ℕ),
    ctx.budget.candQueue[(endBlock, programID)]? = some found →
      ∃ program, ctx.budget.programs[programID]? = some program ∧
        program.submitBlock + params.votePeriod = endBlock
  /-- A program has at most one queue entry. -/
  queuedOnce : ∀ (programID : ℕ) (first second : ℤ) (left right : ℕ),
    ctx.budget.candQueue[(first, programID)]? = some left →
      ctx.budget.candQueue[(second, programID)]? = some right → first = second
  /-- At the end of the block no entry is left whose vote has ended. -/
  cleared : ∀ tags after, endBlocker ctx = .ok (tags, after) →
    ∀ (endBlock : ℤ) (programID found : ℕ),
      after.budget.candQueue[(endBlock, programID)]? = some found → (ctx.height : ℤ) < endBlock
  /-- A candidate whose vote ends with the block is kept by the first phase if it
  passes, and is active or deleted with all its votes when the block has ended. -/
  verdict : ∀ (programID : ℕ) (program : Program),
    ctx.budget.programs[programID]? = some program →
      ctx.budget.candQueue[((ctx.height : ℤ), programID)]? = some programID →
        (if Passes ctx.staking ctx.budget programID then Active (decidePhase ctx).budget program
          else Deleted (decidePhase ctx).budget programID) ∧
        ∀ tags after, endBlocker ctx = .ok (tags, after) →
          Active after.budget program ∨ Deleted after.budget programID
  /-- A program that the run submitted and did not withdraw is tallied against the
  active threshold once in the whole run, when its vote ends, and is active or
  deleted with all its votes from then on. -/
  talliedOnce : ∀ before msg later opened result submitted,
    actions = before ++ .submitProgram msg :: later → Reaches step start before opened →
      handleMsgSubmitProgram opened msg = .ok (result, submitted) →
        Along step (NotWithdrawn (lastProgramID opened.budget + 1)) submitted later →
          tallyHeights (lastProgramID opened.budget + 1) start actions =
            (if opened.height + params.votePeriod < ctx.height then
              [opened.height + params.votePeriod] else []) ∧
          (opened.height + params.votePeriod < ctx.height →
            Active ctx.budget (submission opened.budget msg opened.height) ∨
              Deleted ctx.budget (lastProgramID opened.budget + 1))

theorem reaches_votePeriod {start ctx : Context L} {actions : List (Action L)}
    (reached : Reaches step start actions ctx) :
    ctx.budget.params.votePeriod = start.budget.params.votePeriod :=
  reached.invariant
    (fun current => current.budget.params.votePeriod = start.budget.params.votePeriod)
    (fun _ _ _ holds taken => (step_votePeriod taken).trans holds) rfl

theorem reaches_tracked {program : Program} {endBlock : ℤ} {ctx final : Context L}
    {actions : List (Action L)} (tracked : Tracked program endBlock ctx)
    (notWithdrawn : Along step (NotWithdrawn program.programID) ctx actions)
    (reached : Reaches step ctx actions final) : Tracked program endBlock final := by
  induction actions generalizing ctx with
  | nil => exact reached.eq_of_nil ▸ tracked
  | cons action actions ih =>
      rcases reached.of_cons with ⟨next, taken, rest⟩
      exact ih (step_tracked taken tracked notWithdrawn.1) (notWithdrawn.2 next taken) rest

theorem endBlocker_sameRecords {ctx after : Context L} {tags : Tags}
    (done : endBlocker ctx = .ok (tags, after)) : SameRecords after.budget (blockEnd ctx) := by
  rw [(endBlocker_eq_ok done).2.1]
  exact rewarded_sameRecords ctx

/-- The end of the block leaves a candidate whose vote ends active or deleted. -/
theorem blockEnd_verdict {ctx after : Context L} {tags : Tags} (consistent : Consistent ctx)
    {programID : ℕ} {program : Program}
    (stored : ctx.budget.programs[programID]? = some program)
    (queued : ctx.budget.candQueue[((ctx.height : ℤ), programID)]? = some programID)
    (done : endBlocker ctx = .ok (tags, after)) :
    Active after.budget program ∨ Deleted after.budget programID := by
  have programIDEq : program.programID = programID := ctx.budget.programs_keyed _ _ stored
  subst programIDEq
  have same := endBlocker_sameRecords done
  have shrinks := same.shrinks (blockEnd_shrinks ctx)
  refine ((blockEnd_wellFormed consistent.wellFormed).of_sameRecords same).active_or_deleted ?_ ?_
  · intro found foundStored
    exact Option.some.inj ((shrinks.programs _ _ foundStored).symm.trans stored)
  · intro endBlock
    cases present : after.budget.candQueue[(endBlock, program.programID)]? with
    | none => rfl
    | some found =>
        -- The only entry of the program has expired.
        have endsNow := consistent.wellFormed.endBlock_unique queued
          (shrinks.candQueue _ _ present)
        rw [same.candQueue] at present
        have later := blockEnd_pending consistent.wellFormed present
        simp only at later
        omega

omit [Sdk L] in
theorem Tracked.active_or_deleted {program : Program} {endBlock : ℤ} {ctx : Context L}
    (tracked : Tracked program endBlock ctx) (passed : endBlock < ctx.height) :
    Active ctx.budget program ∨ Deleted ctx.budget program.programID := by
  refine tracked.consistent.wellFormed.active_or_deleted tracked.same ?_
  intro due
  cases present : ctx.budget.candQueue[(due, program.programID)]? with
  | none => rfl
  | some found =>
      have dueEq := tracked.queued_at present
      subst dueEq
      rw [tracked.cleared passed] at present
      cases present

/-- Every submission is in time when the run ends early enough. -/
theorem along_inTime {start finish : Context L} {actions : List (Action L)}
    (reached : Reaches step start actions finish)
    (fits : (finish.height : ℤ) + finish.budget.params.votePeriod < 2 ^ 63) :
    Along step InTime start actions := by
  induction actions generalizing start with
  | nil => trivial
  | cons action actions ih =>
      have onwards := reaches_height_le reached
      have samePeriod := reaches_votePeriod reached
      refine ⟨fun _ _ _ _ => by omega, ?_⟩
      intro next taken
      rcases reached.of_cons with ⟨other, otherTaken, rest⟩
      cases taken.symm.trans otherTaken
      exact ih rest

/-- In a run whose submissions are all in time, programs, votes and queue entries
stay consistent, and every program that is not withdrawn is decided exactly once. -/
theorem programs_decided_once {params : Params} {start ctx : Context L}
    {actions : List (Action L)} (votePeriod : 0 < params.votePeriod)
    (initial : start.budget = BudgetStore.initial params)
    (reached : Reaches step start actions ctx) (inTime : Along step InTime start actions) :
    Orderly params start actions ctx := by
  have startConsistent := initial_consistent votePeriod initial
  have consistent := reaches_consistent reached startConsistent
  have samePeriod : ∀ {run : List (Action L)} {state : Context L},
      Reaches step start run state → state.budget.params.votePeriod = params.votePeriod := by
    intro run state reachedState
    rw [reaches_votePeriod reachedState, initial]
    rfl
  have startTimed : Timed start := by
    intro programID program present
    simp [initial, BudgetStore.initial] at present
  have timed := reaches_timed startConsistent startTimed reached inTime
  constructor
  · intro programID voter option present
    exact consistent.wellFormed.voted _ _ present
  · intro endBlock programID found present
    rcases consistent.wellFormed.queued _ _ present with ⟨program, stored, ends⟩
    refine ⟨program, stored, ?_⟩
    rw [← samePeriod reached, ← timed _ _ stored]
    exact ends
  · intro programID first second left right firstQueued secondQueued
    exact consistent.wellFormed.endBlock_unique firstQueued secondQueued
  · intro tags after done endBlock programID found present
    rw [(endBlocker_sameRecords done).candQueue] at present
    exact blockEnd_pending consistent.wellFormed present
  · intro programID program stored queued
    exact ⟨decided_verdict consistent stored queued,
      fun tags after done => blockEnd_verdict consistent stored queued done⟩
  · rintro before msg later opened result submitted rfl reachedOpened handled notWithdrawn
    have openedConsistent := reaches_consistent reachedOpened startConsistent
    have taken := step_submitProgram handled
    have fits := InTime.fits (inTime.of_append reachedOpened).1 handled
    have tracked := tracked_of_submitted openedConsistent fits handled
    rw [samePeriod reachedOpened] at tracked
    rcases (reached.of_append reachedOpened).of_cons with ⟨next, nextTaken, reachedLater⟩
    cases taken.symm.trans nextTaken
    have submittedHeight : submitted.height = opened.height :=
      (handleMsgSubmitProgram_eq_ok handled).1
    constructor
    · rw [tallyHeights_append reachedOpened,
        tallyHeights_of_unissued startConsistent reachedOpened (Nat.lt_succ_self _),
        tallyHeights_cons taken, tallyHeightsNow_of_ne (by simp), List.nil_append,
        List.nil_append]
      refine (tallyHeights_of_tracked tracked notWithdrawn reachedLater).trans ?_
      rw [submittedHeight]
      have started : (opened.height : ℤ) ≤ opened.height + params.votePeriod := by omega
      simp only [started, true_and]
    · intro passed
      exact (reaches_tracked tracked notWithdrawn reachedLater).active_or_deleted passed

/-- Votes end two blocks after the submission. -/
def shortParams : Params := { sampleParams with votePeriod := 2 }

def shortStart : Context Book := { sampleStart with budget := BudgetStore.initial shortParams }

/-- A program is submitted, receives a vote and is decided. -/
def decidedActions : List (Action Book) :=
  [.endBlock, .submitProgram sampleProgram, .voteProgram ⟨1, true, List.replicate 20 1⟩,
    .endBlock, .endBlock, .endBlock]

theorem decidedActions_tally :
    (perform step shortStart decidedActions).map (fun ctx => (ctx.height,
      ctx.budget.votes[(1, (List.replicate 20 1 : Address))]?,
      tallyHeights 1 shortStart decidedActions)) = some (4, some true, [3]) := by
  decide +kernel

theorem programs_decided_once_sample :
    ∃ ctx : Context Book, Reaches step shortStart decidedActions ctx ∧
      tallyHeights 1 shortStart decidedActions = [3] ∧
      ctx.budget.votes[(1, (List.replicate 20 1 : Address))]? = some true ∧
      Orderly shortParams shortStart decidedActions ctx := by
  rcases Option.map_eq_some_iff.mp decidedActions_tally with ⟨ctx, performed, done⟩
  simp only [Prod.mk.injEq] at done
  rcases done with ⟨height, voted, tallies⟩
  have reached := reaches_of_perform performed
  have fits : (ctx.height : ℤ) + ctx.budget.params.votePeriod < 2 ^ 63 := by
    rw [reaches_votePeriod reached, height]
    decide
  exact ⟨ctx, reached, tallies, voted,
    programs_decided_once (by decide) rfl reached (along_inTime reached fits)⟩

/-- The longest vote period there is. -/
def longestParams : Params := { sampleParams with votePeriod := 2 ^ 63 - 1 }

def longestStart : Context Book :=
  { sampleStart with budget := BudgetStore.initial longestParams }

/-- A program is submitted in the second block. -/
def lateActions : List (Action Book) := [.endBlock, .submitProgram sampleProgram, .endBlock]

theorem lateActions_submit :
    (perform step longestStart [.endBlock]).map (fun ctx => (ctx.height, lastProgramID ctx.budget,
      (handleMsgSubmitProgram ctx sampleProgram).isOk)) = some (1, 0, true) := by
  decide +kernel

theorem lateActions_tally :
    (perform step longestStart lateActions).map (fun ctx => (ctx.height,
      ctx.budget.programs[1]?.isNone, tallyHeights 1 longestStart lateActions)) =
      some (2, true, [1]) := by
  decide +kernel

/-- The end of the vote wraps: the program is tallied and deleted with its own block. -/
theorem wrapped_vote_ends_at_once :
    longestParams.Valid ∧ longestStart.budget = BudgetStore.initial longestParams ∧
      ∃ ctx : Context Book, Reaches step longestStart lateActions ctx ∧
        ctx.height = 2 ∧ ctx.budget.programs[1]? = none ∧
        tallyHeights 1 longestStart lateActions = [1] ∧
        ¬Orderly longestParams longestStart lateActions ctx := by
  refine ⟨⟨by decide, by decide, by decide, by decide⟩, rfl, ?_⟩
  rcases Option.map_eq_some_iff.mp lateActions_submit with ⟨opened, performedOpened, submits⟩
  rcases Option.map_eq_some_iff.mp lateActions_tally with ⟨ctx, performed, done⟩
  simp only [Prod.mk.injEq] at submits done
  rcases submits with ⟨openedHeight, last, accepted⟩
  rcases done with ⟨height, missing, tallies⟩
  refine ⟨ctx, reaches_of_perform performed, height, Option.isNone_iff_eq_none.mp missing,
    tallies, ?_⟩
  intro orderly
  cases handled : handleMsgSubmitProgram opened sampleProgram with
  | error failure =>
      rw [handled] at accepted
      cases accepted
  | ok done =>
      have notWithdrawn : Along step (NotWithdrawn (lastProgramID opened.budget + 1)) done.2
          [.endBlock] := ⟨nofun, fun _ _ => trivial⟩
      have once := (orderly.talliedOnce [.endBlock] sampleProgram [.endBlock] opened done.1 done.2
        rfl (reaches_of_perform performedOpened) handled notWithdrawn).1
      rw [last, tallies, openedHeight, height] at once
      revert once
      decide

end TerraCore.Budget
