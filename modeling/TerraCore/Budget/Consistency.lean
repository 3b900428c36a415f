import TerraCore.Budget.Run

/-!
# The records of the budget fit together

Votes are on stored programs, and queue entries belong to stored programs whose
vote ends at the block of the entry. Both loops of the end blocker keep this:
the first deletes a program together with its queue entry, and the second
deletes only programs which are not in the queue.

Every record belongs to a program id which was handed out before, or which was
loaded at genesis.
-/

namespace TerraCore.Budget

open Transition

variable {L : Type} [Sdk L]

/-- No record is added or changed. -/
structure Shrinks (before after : BudgetStore) : Prop where
  programs : ∀ (programID : ℕ) (program : Program),
    after.programs[programID]? = some program → before.programs[programID]? = some program
  votes : ∀ (key : ℕ × Address) (option : Bool),
    after.votes[key]? = some option → before.votes[key]? = some option
  candQueue : ∀ (key : ℤ × ℕ) (programID : ℕ),
    after.candQueue[key]? = some programID → before.candQueue[key]? = some programID

namespace Shrinks

theorem refl (store : BudgetStore) : Shrinks store store :=
  ⟨fun _ _ present => present, fun _ _ present => present, fun _ _ present => present⟩

theorem trans {before middle after : BudgetStore} (first : Shrinks before middle)
    (second : Shrinks middle after) : Shrinks before after where
  programs programID program present :=
    first.programs programID program (second.programs programID program present)
  votes key option present := first.votes key option (second.votes key option present)
  candQueue key programID present :=
    first.candQueue key programID (second.candQueue key programID present)

theorem candQueueRemove (store : BudgetStore) (endBlock : ℤ) (programID : ℕ) :
    Shrinks store (store.candQueueRemove endBlock programID) where
  programs _ _ present := present
  votes _ _ present := present
  candQueue key found present := by
    rw [BudgetStore.get_candQueueRemove] at present
    split at present
    · cases present
    · exact present

theorem settle (staking : Staking) (store : BudgetStore) (programID : ℕ) (keep : Bool) :
    Shrinks store (settle staking store programID keep) where
  programs other program present := by
    rw [get_settle_programs] at present
    split at present
    · cases present
    · exact present
  votes key option present := by
    rw [get_settle_votes] at present
    split at present
    · cases present
    · split at present
      · cases present
      · exact present
  candQueue key found present := by rwa [settle_candQueue] at present

theorem withdrawn (store : BudgetStore) (program : Program) (programID : ℕ) :
    Shrinks store (withdrawn store program programID) where
  programs other found present := by
    rw [withdrawn_programs] at present
    split at present
    · cases present
    · exact present
  votes key option present := by
    rw [withdrawn_votes] at present
    split at present
    · cases present
    · exact present
  candQueue key found present := by
    rw [withdrawn_candQueue] at present
    split at present
    · cases present
    · exact present

end Shrinks

theorem decideCandidate_shrinks (staking : Staking) (store : BudgetStore) (programID : ℕ) :
    Shrinks store (decideCandidate staking store programID) := by
  cases stored : store.programs[programID]? with
  | none =>
      rw [decideCandidate_of_missing staking stored]
      exact Shrinks.refl store
  | some program =>
      rw [decideCandidate_of_stored staking stored]
      exact (Shrinks.settle staking store programID _).trans (Shrinks.candQueueRemove _ _ _)

theorem decideCandidates_shrinks (staking : Staking) (height : ℕ) (store : BudgetStore) :
    Shrinks store (decideCandidates staking height store) := by
  simp only [decideCandidates]
  induction store.expiredCandidates height generalizing store with
  | nil => exact Shrinks.refl store
  | cons programID rest ih =>
      exact (decideCandidate_shrinks staking store programID).trans (ih _)

theorem weighed_shrinks (staking : Staking) (store : BudgetStore) (program : Program) :
    Shrinks store (weighed staking store program) := by
  simp only [weighed]
  split
  · exact Shrinks.refl store
  · exact Shrinks.settle staking store _ _

theorem weighedAll_shrinks (staking : Staking) (store : BudgetStore) :
    Shrinks store (weighedAll staking store) := by
  simp only [weighedAll]
  induction programsOf store generalizing store with
  | nil => exact Shrinks.refl store
  | cons program rest ih => exact (weighed_shrinks staking store program).trans (ih _)

/-- Both stores have the same records, parameters and last program id. -/
structure SameRecords (left right : BudgetStore) : Prop where
  params : left.params = right.params
  nextProgramID : left.nextProgramID = right.nextProgramID
  programs : left.programs = right.programs
  votes : left.votes = right.votes
  candQueue : left.candQueue = right.candQueue

/-- The store after the candidates are decided. -/
def decided (ctx : Context L) : BudgetStore :=
  decideCandidates ctx.staking ctx.height ctx.budget

/-- The records at the end of a block. -/
def blockEnd (ctx : Context L) : BudgetStore :=
  if ctx.LastBlock ctx.budget.params.votePeriod then weighedAll ctx.staking (decided ctx)
  else decided ctx

omit [Sdk L] in
theorem rewarded_sameRecords (ctx : Context L) :
    SameRecords (rewarded { ctx with budget := reweighed ctx }) (blockEnd ctx) := by
  have weighedSame : SameRecords (reweighed ctx) (blockEnd ctx) := by
    unfold reweighed blockEnd
    simp only
    split
    · rw [weighPrograms_eq]
      exact ⟨rfl, rfl, rfl, rfl, rfl⟩
    · exact ⟨rfl, rfl, rfl, rfl, rfl⟩
  simp only [rewarded]
  split <;> exact ⟨weighedSame.params, weighedSame.nextProgramID, weighedSame.programs,
    weighedSame.votes, weighedSame.candQueue⟩

omit [Sdk L] in
theorem blockEnd_shrinks (ctx : Context L) : Shrinks ctx.budget (blockEnd ctx) := by
  simp only [blockEnd, decided]
  split
  · exact (decideCandidates_shrinks _ _ _).trans (weighedAll_shrinks _ _)
  · exact decideCandidates_shrinks _ _ _

omit [Sdk L] in
theorem blockEnd_sameRest (ctx : Context L) : SameRest (blockEnd ctx) ctx.budget := by
  simp only [blockEnd, decided]
  split
  · exact (weighedAll_sameRest _ _).trans (decideCandidates_sameRest _ _ _)
  · exact decideCandidates_sameRest _ _ _

theorem SameRecords.shrinks {left right : BudgetStore} (same : SameRecords left right)
    {before : BudgetStore} (shrinks : Shrinks before right) : Shrinks before left where
  programs := by
    rw [same.programs]
    exact shrinks.programs
  votes := by
    rw [same.votes]
    exact shrinks.votes
  candQueue := by
    rw [same.candQueue]
    exact shrinks.candQueue

/-- Every record belongs to a program id of the list, or one that was handed out before. -/
structure Numbered (ids : List ℕ) (store : BudgetStore) : Prop where
  programs : ∀ (programID : ℕ) (program : Program),
    store.programs[programID]? = some program →
      programID ∈ ids ∨ programID ≤ lastProgramID store
  votes : ∀ (key : ℕ × Address) (option : Bool),
    store.votes[key]? = some option → key.1 ∈ ids ∨ key.1 ≤ lastProgramID store
  candQueue : ∀ (key : ℤ × ℕ) (programID : ℕ),
    store.candQueue[key]? = some programID → key.2 ∈ ids ∨ key.2 ≤ lastProgramID store

theorem Numbered.of_shrinks {ids : List ℕ} {before after : BudgetStore}
    (numbered : Numbered ids before) (shrinks : Shrinks before after)
    (sameLast : lastProgramID after = lastProgramID before) : Numbered ids after where
  programs programID program present := by
    rw [sameLast]
    exact numbered.programs programID program (shrinks.programs programID program present)
  votes key option present := by
    rw [sameLast]
    exact numbered.votes key option (shrinks.votes key option present)
  candQueue key programID present := by
    rw [sameLast]
    exact numbered.candQueue key programID (shrinks.candQueue key programID present)

theorem Numbered.addCandidate {ids : List ℕ} {store : BudgetStore} (numbered : Numbered ids store)
    (msg : MsgSubmitProgram) (height : ℕ) : Numbered ids (addCandidate store msg height) := by
  rcases addCandidate_rest store msg height with ⟨-, sameVotes, -, last⟩
  constructor
  · intro programID program present
    rw [addCandidate_programs] at present
    split at present
    · next same => exact Or.inr (by omega)
    · exact (numbered.programs programID program present).imp_right (by omega)
  · intro key option present
    rw [sameVotes] at present
    exact (numbered.votes key option present).imp_right (by omega)
  · intro key programID present
    rw [addCandidate_candQueue] at present
    split at present
    · next same =>
        have keyEq : lastProgramID store + 1 = key.2 := congrArg Prod.snd same
        exact Or.inr (by omega)
    · exact (numbered.candQueue key programID present).imp_right (by omega)

theorem Numbered.addVote {ids : List ℕ} {store : BudgetStore} (numbered : Numbered ids store)
    {programID : ℕ} (known : programID ∈ ids ∨ programID ≤ lastProgramID store)
    (voter : Address) (option : Bool) : Numbered ids (store.addVote programID voter option) where
  programs := numbered.programs
  votes key found present := by
    rw [BudgetStore.get_addVote] at present
    split at present
    · next same =>
        rw [← same]
        exact known
    · exact numbered.votes key found present
  candQueue := numbered.candQueue

theorem step_numbered {ids : List ℕ} {ctx next : Context L} {action : Action L}
    (taken : step ctx action = some next) (numbered : Numbered ids ctx.budget) :
    Numbered ids next.budget := by
  cases step_effect taken with
  | kept _ _ budget => exact budget ▸ numbered
  | submitted _ _ budget => exact budget ▸ numbered.addCandidate _ _
  | withdrew _ _ _ budget =>
      rw [budget]
      exact numbered.of_shrinks (Shrinks.withdrawn _ _ _) rfl
  | voted stored _ budget =>
      exact budget ▸ numbered.addVote (numbered.programs _ _ stored) _ _
  | ended _ budget =>
      have same := rewarded_sameRecords ctx
      rw [budget]
      refine numbered.of_shrinks (same.shrinks (blockEnd_shrinks ctx)) ?_
      simp only [lastProgramID]
      rw [same.nextProgramID, (blockEnd_sameRest ctx).2.1]
  | paramsSet _ budget =>
      rw [budget]
      exact ⟨numbered.programs, numbered.votes, numbered.candQueue⟩

/-- No record has the program id. -/
structure Unused (store : BudgetStore) (programID : ℕ) : Prop where
  programs : store.programs[programID]? = none
  votes : ∀ voter : Address, store.votes[(programID, voter)]? = none
  candQueue : ∀ endBlock : ℤ, store.candQueue[(endBlock, programID)]? = none

/-- A submission gets an id that no record has, unless it is one of the list. -/
theorem Numbered.unused {ids : List ℕ} {store : BudgetStore} (numbered : Numbered ids store)
    (unlisted : lastProgramID store + 1 ∉ ids) : Unused store (lastProgramID store + 1) where
  programs := by
    cases present : store.programs[lastProgramID store + 1]? with
    | none => rfl
    | some program =>
        rcases numbered.programs _ _ present with listed | handedOut
        · exact absurd listed unlisted
        · omega
  votes voter := by
    cases present : store.votes[(lastProgramID store + 1, voter)]? with
    | none => rfl
    | some option =>
        rcases numbered.votes _ _ present with listed | handedOut
        · exact absurd listed unlisted
        · simp at handedOut
  candQueue endBlock := by
    cases present : store.candQueue[(endBlock, lastProgramID store + 1)]? with
    | none => rfl
    | some programID =>
        rcases numbered.candQueue _ _ present with listed | handedOut
        · exact absurd listed unlisted
        · simp at handedOut

/-- Votes are on stored programs, and a queue entry belongs to a stored program
whose vote ends at the block of the entry. -/
structure WellFormed (store : BudgetStore) : Prop where
  voted : ∀ (key : ℕ × Address) (option : Bool), store.votes[key]? = some option →
    ∃ program, store.programs[key.1]? = some program
  queued : ∀ (key : ℤ × ℕ) (programID : ℕ), store.candQueue[key]? = some programID →
    ∃ program, store.programs[key.2]? = some program ∧
      program.getVotingEndBlock store.params = key.1

namespace WellFormed

variable {store : BudgetStore}

theorem endBlock_unique (wellFormed : WellFormed store) {programID : ℕ} {first second : ℤ}
    {left right : ℕ} (firstQueued : store.candQueue[(first, programID)]? = some left)
    (secondQueued : store.candQueue[(second, programID)]? = some right) : first = second := by
  rcases wellFormed.queued _ _ firstQueued with ⟨program, stored, firstEnd⟩
  rcases wellFormed.queued _ _ secondQueued with ⟨other, otherStored, secondEnd⟩
  have programEq : program = other := Option.some.inj (stored.symm.trans otherStored)
  subst programEq
  exact firstEnd.symm.trans secondEnd

/-- No program has two entries in the queue. -/
theorem queued_nodup (wellFormed : WellFormed store) :
    (store.candQueue.toList.map Prod.snd).Nodup := by
  refine List.Nodup.map_on ?_ (Store.nodup_toList store.candQueue)
  rintro ⟨⟨first, firstID⟩, left⟩ firstMem ⟨⟨second, secondID⟩, right⟩ secondMem same
  have firstQueued := (Store.mem_toList_iff store.candQueue _).mp firstMem
  have secondQueued := (Store.mem_toList_iff store.candQueue _).mp secondMem
  -- An entry repeats the program of its key.
  have leftEq : left = firstID := store.candQueue_keyed _ _ firstQueued
  have rightEq : right = secondID := store.candQueue_keyed _ _ secondQueued
  subst leftEq rightEq
  simp only at same
  subst same
  rw [wellFormed.endBlock_unique firstQueued secondQueued]

theorem expiredCandidates_nodup (wellFormed : WellFormed store) (height : ℤ) :
    (store.expiredCandidates height).Nodup := by
  simp only [BudgetStore.expiredCandidates]
  exact wellFormed.queued_nodup.sublist (List.filter_sublist.map _)

/-- A verdict keeps the records fitting together when a program that it deletes is not queued. -/
theorem settle (wellFormed : WellFormed store) (staking : Staking) {programID : ℕ} {keep : Bool}
    (unqueued : keep = false → ∀ endBlock : ℤ, store.candQueue[(endBlock, programID)]? = none) :
    WellFormed (settle staking store programID keep) where
  voted key option present := by
    have wasPresent := (Shrinks.settle staking store programID keep).votes _ _ present
    rcases wellFormed.voted key option wasPresent with ⟨program, stored⟩
    refine ⟨program, ?_⟩
    rw [get_settle_programs, if_neg]
    · exact stored
    · rintro ⟨dropped, same⟩
      rw [get_settle_votes, if_pos ⟨same.symm, dropped⟩] at present
      cases present
  queued key found present := by
    rw [settle_candQueue] at present
    rcases wellFormed.queued key found present with ⟨program, stored, ends⟩
    refine ⟨program, ?_, ?_⟩
    · rw [get_settle_programs, if_neg]
      · exact stored
      · rintro ⟨dropped, rfl⟩
        rw [unqueued dropped key.1] at present
        cases present
    · rw [(settle_sameRest staking store programID keep).1]
      exact ends

theorem candQueueRemove (wellFormed : WellFormed store) (endBlock : ℤ) (programID : ℕ) :
    WellFormed (store.candQueueRemove endBlock programID) where
  voted := wellFormed.voted
  queued key found present :=
    wellFormed.queued key found ((Shrinks.candQueueRemove store _ _).candQueue _ _ present)

theorem queue_cleared (wellFormed : WellFormed store) {programID : ℕ} {program : Program}
    (stored : store.programs[programID]? = some program) (endBlock : ℤ) :
    (store.candQueueRemove (program.getVotingEndBlock store.params)
      programID).candQueue[(endBlock, programID)]? = none := by
  rw [BudgetStore.get_candQueueRemove]
  split
  · rfl
  · next different =>
      cases present : store.candQueue[(endBlock, programID)]? with
      | none => rfl
      | some found =>
          rcases wellFormed.queued _ _ present with ⟨other, otherStored, ends⟩
          have programEq : program = other := Option.some.inj (stored.symm.trans otherStored)
          subst programEq
          exact absurd (by rw [ends]) different

theorem decideCandidate (wellFormed : WellFormed store) (staking : Staking) (programID : ℕ) :
    WellFormed (decideCandidate staking store programID) := by
  cases stored : store.programs[programID]? with
  | none =>
      rw [decideCandidate_of_missing staking stored]
      exact wellFormed
  | some program =>
      -- It makes no difference whether the queue entry is removed before or after the verdict.
      have reordered : Budget.decideCandidate staking store programID =
          Budget.settle staking (store.candQueueRemove (program.getVotingEndBlock store.params)
            programID) programID (decide (Passes staking store programID)) := by
        rw [decideCandidate_of_stored staking stored]
        simp only [Budget.settle, tally]
        rw [tallyVotes_eq, tallyVotes_eq]
        split <;> rfl
      rw [reordered]
      refine (wellFormed.candQueueRemove _ programID).settle staking ?_
      exact fun _ => wellFormed.queue_cleared stored

theorem decideCandidates (wellFormed : WellFormed store) (staking : Staking) (height : ℕ) :
    WellFormed (decideCandidates staking height store) := by
  simp only [Budget.decideCandidates]
  induction store.expiredCandidates height generalizing store with
  | nil => exact wellFormed
  | cons programID rest ih => exact ih (wellFormed.decideCandidate staking programID)

theorem isQueued_of_present (wellFormed : WellFormed store) {program : Program}
    (stored : store.programs[program.programID]? = some program) {endBlock : ℤ} {found : ℕ}
    (present : store.candQueue[(endBlock, program.programID)]? = some found) :
    isQueued store program = true := by
  rcases wellFormed.queued _ _ present with ⟨other, otherStored, ends⟩
  have programEq : program = other := Option.some.inj (stored.symm.trans otherStored)
  subst programEq
  simp only [isQueued, BudgetStore.candQueueHas]
  rw [ends, present]
  rfl

theorem weighed (wellFormed : WellFormed store) (staking : Staking) {program : Program}
    (stored : store.programs[program.programID]? = some program) :
    WellFormed (weighed staking store program) := by
  simp only [Budget.weighed]
  split
  · exact wellFormed
  · next notQueued =>
      refine wellFormed.settle staking ?_
      intro _ endBlock
      cases present : store.candQueue[(endBlock, program.programID)]? with
      | none => rfl
      | some found => exact absurd (wellFormed.isQueued_of_present stored present) notQueued

theorem weighedAll (wellFormed : WellFormed store) (staking : Staking) :
    WellFormed (weighedAll staking store) := by
  refine Locality.foldl_induction Agree.equivalence (weighed_framed staking) WellFormed store
    (programsOf_distinct store) ?_ wellFormed
  intro current program visited agree holds
  exact holds.weighed staking
    (agree.program.trans ((mem_programsOf_iff store program).mp visited))

theorem addCandidate (wellFormed : WellFormed store) (numbered : Numbered [] store)
    (msg : MsgSubmitProgram) (height : ℕ) : WellFormed (addCandidate store msg height) := by
  rcases addCandidate_rest store msg height with ⟨sameParams, sameVotes, -, -⟩
  have newProgram := (numbered.unused (by simp)).programs
  constructor
  · intro key option present
    rw [sameVotes] at present
    rcases wellFormed.voted key option present with ⟨program, stored⟩
    rw [addCandidate_programs]
    split
    · exact ⟨_, rfl⟩
    · exact ⟨program, stored⟩
  · intro key found present
    rw [addCandidate_programs, sameParams]
    rw [addCandidate_candQueue] at present
    split at present
    · next same =>
        subst same
        exact ⟨submission store msg height, if_pos rfl, rfl⟩
    · rcases wellFormed.queued key found present with ⟨program, stored, ends⟩
      refine ⟨program, ?_, ends⟩
      rw [if_neg]
      · exact stored
      · intro same
        rw [← same, newProgram] at stored
        cases stored

theorem withdrawn (wellFormed : WellFormed store) {programID : ℕ} {program : Program}
    (stored : store.programs[programID]? = some program) :
    WellFormed (withdrawn store program programID) := by
  have shrinks := Shrinks.withdrawn store program programID
  constructor
  · intro key option present
    rcases wellFormed.voted key option (shrinks.votes _ _ present) with ⟨found, foundStored⟩
    refine ⟨found, ?_⟩
    rw [withdrawn_programs, if_neg]
    · exact foundStored
    · intro same
      rw [withdrawn_votes, if_pos same.symm] at present
      cases present
  · intro key found present
    rcases wellFormed.queued key found (shrinks.candQueue _ _ present) with
      ⟨other, otherStored, ends⟩
    refine ⟨other, ?_, ends⟩
    rw [withdrawn_programs, if_neg]
    · exact otherStored
    · intro same
      -- The only entry of the program is the one that was removed.
      rw [← same] at otherStored
      have programEq : program = other := Option.some.inj (stored.symm.trans otherStored)
      subst programEq
      rw [withdrawn_candQueue, if_pos (by rw [ends, same])] at present
      cases present

theorem addVote (wellFormed : WellFormed store) {programID : ℕ} {program : Program}
    (stored : store.programs[programID]? = some program) (voter : Address) (option : Bool) :
    WellFormed (store.addVote programID voter option) where
  voted key found present := by
    rw [BudgetStore.get_addVote] at present
    split at present
    · next same =>
        rw [← same]
        exact ⟨program, stored⟩
    · exact wellFormed.voted key found present
  queued := wellFormed.queued

theorem of_sameRecords {other : BudgetStore} (wellFormed : WellFormed store)
    (same : SameRecords other store) : WellFormed other := by
  constructor
  · rw [same.votes, same.programs]
    exact wellFormed.voted
  · rw [same.candQueue, same.programs, same.params]
    exact wellFormed.queued

end WellFormed

/-- The invariant of a block that has not ended yet: records fit together, and
every record has an id that was handed out. -/
structure Consistent (ctx : Context L) : Prop where
  wellFormed : WellFormed ctx.budget
  numbered : Numbered [] ctx.budget
  votePeriod : 0 < ctx.budget.params.votePeriod

omit [Sdk L] in
/-- No queue entry outlives its end block. -/
theorem decided_pending {ctx : Context L} (wellFormed : WellFormed ctx.budget)
    {endBlock : ℤ} {programID found : ℕ}
    (present : (decided ctx).candQueue[(endBlock, programID)]? = some found) :
    (ctx.height : ℤ) < endBlock := by
  by_contra expired
  have wasPresent := (decideCandidates_shrinks _ _ _).candQueue _ _ present
  have foundEq : found = programID := ctx.budget.candQueue_keyed _ _ wasPresent
  subst foundEq
  have visited : found ∈ ctx.budget.expiredCandidates ctx.height :=
    (BudgetStore.mem_expiredCandidates_iff _ _ _).mpr ⟨endBlock, not_lt.mp expired, wasPresent⟩
  rcases wellFormed.queued _ _ wasPresent with ⟨program, stored, -⟩
  have agree := decideCandidates_of_expired ctx.staking
    (wellFormed.expiredCandidates_nodup ctx.height) visited
  rw [decideCandidate_of_stored ctx.staking stored] at agree
  have cleared := agree.queue endBlock
  rw [BudgetStore.get_candQueueRemove, settle_candQueue,
    ← BudgetStore.get_candQueueRemove, wellFormed.queue_cleared stored] at cleared
  simp only [decided] at present
  rw [present] at cleared
  cases cleared

omit [Sdk L] in
theorem blockEnd_wellFormed {ctx : Context L} (wellFormed : WellFormed ctx.budget) :
    WellFormed (blockEnd ctx) := by
  simp only [blockEnd, decided]
  split
  · exact (wellFormed.decideCandidates _ _).weighedAll _
  · exact wellFormed.decideCandidates _ _

omit [Sdk L] in
theorem blockEnd_pending {ctx : Context L} (wellFormed : WellFormed ctx.budget)
    {key : ℤ × ℕ} {found : ℕ} (present : (blockEnd ctx).candQueue[key]? = some found) :
    (ctx.height : ℤ) < key.1 := by
  simp only [blockEnd] at present
  split at present
  · exact decided_pending wellFormed ((weighedAll_shrinks _ _).candQueue _ _ present)
  · exact decided_pending wellFormed present

theorem step_consistent {ctx next : Context L} {action : Action L}
    (taken : step ctx action = some next) (consistent : Consistent ctx) : Consistent next := by
  have numbered := step_numbered taken consistent.numbered
  have votePeriod : 0 < next.budget.params.votePeriod := by
    rw [step_votePeriod taken]
    exact consistent.votePeriod
  refine ⟨?_, numbered, votePeriod⟩
  cases step_effect taken with
  | kept _ _ budget => exact budget ▸ consistent.wellFormed
  | @submitted msg _ _ _ budget =>
      rw [budget]
      exact consistent.wellFormed.addCandidate consistent.numbered msg ctx.height
  | withdrew _ stored _ budget =>
      rw [budget]
      exact consistent.wellFormed.withdrawn stored
  | voted stored _ budget =>
      rw [budget]
      exact consistent.wellFormed.addVote stored _ _
  | ended _ budget =>
      have same := rewarded_sameRecords ctx
      rw [← budget] at same
      exact (blockEnd_wellFormed consistent.wellFormed).of_sameRecords same
  | paramsSet _ budget =>
      rw [budget]
      exact ⟨consistent.wellFormed.voted, consistent.wellFormed.queued⟩

omit [Sdk L] in
theorem initial_consistent {ctx : Context L} {params : Params} (votePeriod : 0 < params.votePeriod)
    (initial : ctx.budget = BudgetStore.initial params) : Consistent ctx := by
  refine ⟨?_, ?_, initial ▸ votePeriod⟩
  all_goals rw [initial]
  · exact ⟨fun _ _ present => by simp [BudgetStore.initial] at present,
      fun _ _ present => by simp [BudgetStore.initial] at present⟩
  · exact ⟨fun _ _ present => by simp [BudgetStore.initial] at present,
      fun _ _ present => by simp [BudgetStore.initial] at present,
      fun _ _ present => by simp [BudgetStore.initial] at present⟩

theorem reaches_consistent {start ctx : Context L} {actions : List (Action L)}
    (reached : Reaches step start actions ctx) (consistent : Consistent start) :
    Consistent ctx :=
  reached.invariant Consistent (fun _ _ _ holds taken => step_consistent taken holds) consistent

/-- Every stored program was submitted at a block so far. -/
def Submitted (ctx : Context L) : Prop :=
  ∀ (programID : ℕ) (program : Program), ctx.budget.programs[programID]? = some program →
    0 ≤ program.submitBlock ∧ program.submitBlock ≤ ctx.height

theorem step_submitted {ctx next : Context L} {action : Action L}
    (taken : step ctx action = some next) (submitted : Submitted ctx) : Submitted next := by
  intro programID program present
  cases step_effect taken with
  | kept _ height budget =>
      rw [budget] at present
      rw [height]
      exact submitted programID program present
  | @submitted msg _ _ height budget =>
      rw [budget, addCandidate_programs] at present
      rw [height]
      split at present
      · cases present
        exact ⟨Int.natCast_nonneg _, le_rfl⟩
      · exact submitted programID program present
  | withdrew _ _ height budget =>
      rw [budget] at present
      rw [height]
      exact submitted programID program ((Shrinks.withdrawn _ _ _).programs _ _ present)
  | voted _ height budget =>
      rw [budget] at present
      rw [height]
      exact submitted programID program present
  | ended height budget =>
      rw [budget] at present
      have shrinks := (rewarded_sameRecords ctx).shrinks (blockEnd_shrinks ctx)
      have before := submitted programID program (shrinks.programs _ _ present)
      omega
  | paramsSet height budget =>
      rw [budget] at present
      rw [height]
      exact submitted programID program present

end TerraCore.Budget
