import TerraCore.Budget.Genesis

/-!
# Exporting the budget

The export lists the candidates and the active programs apart. Which list a
program belongs to is not stored: the queue is asked for an entry at the block
at which its vote ends, and that block follows from its submit block. When the
chain is exported for a restart at height zero, all submit blocks are reset
before the queue is asked. The entries are still at the old blocks, so that a
candidate passes for an active program as well.
-/

namespace TerraCore.Budget

open Transition

/-- The active programs, as `IteratePrograms` with `filterInactive` visits them. -/
def activePrograms (store : BudgetStore) : List Program :=
  (programsOf store).filter fun program => !isQueued store program

/-- The programs of the queue. An entry without a program is skipped. -/
def candidatePrograms (store : BudgetStore) : List Program :=
  store.candQueue.toList.filterMap fun entry => store.programs[entry.2]?

/-- What `IterateVotes` passes to its handler. Votes whose voter cannot be
parsed from the key are skipped. -/
def exportedVotes (store : BudgetStore) : List Vote :=
  store.votes.toList.filterMap fun vote =>
    (accAddressFromBech32 vote.1.2).map fun voter => ⟨vote.1.1, vote.2, voter⟩

def exportGenesis (store : BudgetStore) : GenesisState :=
  ⟨store.params, activePrograms store, candidatePrograms store, exportedVotes store⟩

/-- A program as a chain that restarts at height zero sees it. -/
def resetSubmitBlock (program : Program) : Program := { program with submitBlock := 0 }

/-- The part of `prepForZeroHeightGenesis` that concerns the budget. -/
def prepForZeroHeightGenesis (store : BudgetStore) : BudgetStore :=
  (programsOf store).foldl
    (fun store program => store.storeProgram (resetSubmitBlock program)) store

/-- The store that is exported. -/
def prepared (forZeroHeight : Bool) (store : BudgetStore) : BudgetStore :=
  if forZeroHeight then prepForZeroHeightGenesis store else store

/-- The budget genesis that `ExportAppStateAndValidators` writes. -/
def exportAppState (forZeroHeight : Bool) (store : BudgetStore) : GenesisState :=
  exportGenesis (prepared forZeroHeight store)

theorem resetSubmitBlock_programID (program : Program) :
    (resetSubmitBlock program).programID = program.programID := rfl

theorem foldl_reset_rest (programs : List Program) (store : BudgetStore) :
    let after := programs.foldl
      (fun store program => store.storeProgram (resetSubmitBlock program)) store
    after.params = store.params ∧ after.candQueue = store.candQueue ∧ after.votes = store.votes := by
  induction programs generalizing store with
  | nil => exact ⟨rfl, rfl, rfl⟩
  | cons program programs ih => exact ih _

theorem get_foldl_reset {origin : BudgetStore} {programs : List Program}
    (stored : ∀ program ∈ programs, origin.programs[program.programID]? = some program)
    (store : BudgetStore) (programID : ℕ) :
    (programs.foldl (fun store program => store.storeProgram (resetSubmitBlock program))
        store).programs[programID]? =
      if programID ∈ programs.map Program.programID then
        (origin.programs[programID]?).map resetSubmitBlock
      else store.programs[programID]? := by
  induction programs generalizing store with
  | nil => simp
  | cons program programs ih =>
      rw [List.foldl_cons, ih fun other otherMem => stored other (List.mem_cons_of_mem _ otherMem),
        BudgetStore.get_storeProgram, resetSubmitBlock_programID, List.map_cons]
      have here := stored program List.mem_cons_self
      by_cases later : programID ∈ programs.map Program.programID
      · rw [if_pos later, if_pos (List.mem_cons_of_mem _ later)]
      · rw [if_neg later]
        by_cases same : program.programID = programID
        · subst same
          rw [if_pos rfl, if_pos List.mem_cons_self, here]
          rfl
        · rw [if_neg same, if_neg]
          simp only [List.mem_cons, not_or]
          exact ⟨fun isSame => same isSame.symm, later⟩

/-- The program as the export lists it. -/
def exportedProgram (forZeroHeight : Bool) (program : Program) : Program :=
  if forZeroHeight then resetSubmitBlock program else program

theorem prepared_rest (forZeroHeight : Bool) (store : BudgetStore) :
    (prepared forZeroHeight store).params = store.params ∧
      (prepared forZeroHeight store).candQueue = store.candQueue ∧
      (prepared forZeroHeight store).votes = store.votes := by
  cases forZeroHeight with
  | false => exact ⟨rfl, rfl, rfl⟩
  | true => exact foldl_reset_rest (programsOf store) store

theorem get_prepared (forZeroHeight : Bool) (store : BudgetStore) (programID : ℕ) :
    (prepared forZeroHeight store).programs[programID]? =
      (store.programs[programID]?).map (exportedProgram forZeroHeight) := by
  cases forZeroHeight with
  | false =>
      change store.programs[programID]? = _
      cases store.programs[programID]? <;> rfl
  | true =>
      have stored : ∀ program ∈ programsOf store,
          store.programs[program.programID]? = some program :=
        fun program listed => (mem_programsOf_iff store program).mp listed
      have lookup := get_foldl_reset stored store programID
      change (prepForZeroHeightGenesis store).programs[programID]? = _
      rw [prepForZeroHeightGenesis, lookup]
      split
      · rfl
      · next unlisted =>
          cases present : store.programs[programID]? with
          | none => rfl
          | some program =>
              have keyed := store.programs_keyed _ _ present
              subst keyed
              exact absurd (List.mem_map_of_mem ((mem_programsOf_iff store program).mpr present))
                unlisted

/-- The program has an entry in the queue. -/
def Queued (store : BudgetStore) (programID : ℕ) : Prop :=
  ∃ (endBlock : ℤ) (found : ℕ), store.candQueue[(endBlock, programID)]? = some found

/-- The export tells candidates and active programs apart and keeps every vote. -/
structure Splits (forZeroHeight : Bool) (store : BudgetStore) (data : GenesisState) : Prop where
  candidates : ∀ program, program ∈ data.candidatePrograms ↔
    ∃ stored, store.programs[stored.programID]? = some stored ∧ Queued store stored.programID ∧
      program = exportedProgram forZeroHeight stored
  active : ∀ program, program ∈ data.activePrograms ↔
    ∃ stored, store.programs[stored.programID]? = some stored ∧ ¬Queued store stored.programID ∧
      program = exportedProgram forZeroHeight stored
  distinct : ((data.candidatePrograms ++ data.activePrograms).map Program.programID).Nodup
  votes : ∀ vote, vote ∈ data.votes ↔
    store.votes[(vote.programID, vote.voter)]? = some vote.option
  votes_nodup : data.votes.Nodup

theorem exportedProgram_programID (forZeroHeight : Bool) (program : Program) :
    (exportedProgram forZeroHeight program).programID = program.programID := by
  cases forZeroHeight <;> rfl

section Listing

variable {store : BudgetStore} (forZeroHeight : Bool)

theorem get_prepared_eq_some {program : Program} :
    (prepared forZeroHeight store).programs[program.programID]? = some program ↔
      ∃ stored, store.programs[stored.programID]? = some stored ∧
        program = exportedProgram forZeroHeight stored := by
  rw [get_prepared, Option.map_eq_some_iff]
  constructor
  · rintro ⟨stored, present, rfl⟩
    rw [exportedProgram_programID] at present
    exact ⟨stored, present, rfl⟩
  · rintro ⟨stored, present, rfl⟩
    rw [exportedProgram_programID]
    exact ⟨stored, present, rfl⟩

/-- The queue lists every program with an entry, whatever became of its submit block. -/
theorem mem_candidates_iff (program : Program) :
    program ∈ (exportAppState forZeroHeight store).candidatePrograms ↔
      ∃ stored, store.programs[stored.programID]? = some stored ∧ Queued store stored.programID ∧
        program = exportedProgram forZeroHeight stored := by
  rcases prepared_rest forZeroHeight store with ⟨-, sameQueue, -⟩
  simp only [exportAppState, exportGenesis, candidatePrograms, sameQueue, List.mem_filterMap]
  constructor
  · rintro ⟨⟨⟨endBlock, programID⟩, found⟩, listed, present⟩
    have queued := (Store.mem_toList_iff store.candQueue _).mp listed
    have keyed := (prepared forZeroHeight store).programs_keyed _ _ present
    have foundEq : found = programID := store.candQueue_keyed _ _ queued
    simp only at present queued keyed
    subst foundEq keyed
    rcases (get_prepared_eq_some forZeroHeight).mp present with ⟨stored, original, rfl⟩
    rw [exportedProgram_programID] at queued
    exact ⟨stored, original, ⟨endBlock, _, queued⟩, rfl⟩
  · rintro ⟨stored, original, ⟨endBlock, found, queued⟩, rfl⟩
    have foundEq : found = stored.programID := store.candQueue_keyed _ _ queued
    subst foundEq
    refine ⟨((endBlock, stored.programID), stored.programID),
      (Store.mem_toList_iff store.candQueue _).mpr queued, ?_⟩
    simp only [get_prepared, original, Option.map_some]

/-- A program passes for active unless the queue has its entry at the block
that follows from the exported submit block. -/
theorem mem_active_iff (program : Program) :
    program ∈ (exportAppState forZeroHeight store).activePrograms ↔
      ∃ stored, store.programs[stored.programID]? = some stored ∧
        isQueued store (exportedProgram forZeroHeight stored) = false ∧
        program = exportedProgram forZeroHeight stored := by
  rcases prepared_rest forZeroHeight store with ⟨sameParams, sameQueue, -⟩
  have sameQueued : ∀ program, isQueued (prepared forZeroHeight store) program =
      isQueued store program := by
    intro program
    simp only [isQueued, BudgetStore.candQueueHas, sameParams, sameQueue]
  simp only [exportAppState, exportGenesis, activePrograms, List.mem_filter, mem_programsOf_iff,
    sameQueued, get_prepared_eq_some, Bool.not_eq_true']
  constructor
  · rintro ⟨⟨stored, original, rfl⟩, notQueued⟩
    exact ⟨stored, original, notQueued, rfl⟩
  · rintro ⟨stored, original, notQueued, rfl⟩
    exact ⟨⟨stored, original, rfl⟩, notQueued⟩

theorem candidates_sublist (store : BudgetStore) (entries : List ((ℤ × ℕ) × ℕ)) :
    ((entries.filterMap fun entry => store.programs[entry.2]?).map Program.programID).Sublist
      (entries.map Prod.snd) := by
  induction entries with
  | nil => exact List.Sublist.slnil
  | cons entry entries ih =>
      cases present : store.programs[entry.2]? with
      | none =>
          simp only [List.filterMap_cons, present]
          exact ih.cons _
      | some program =>
          simp only [List.filterMap_cons, present, List.map_cons]
          rw [store.programs_keyed _ _ present]
          exact ih.cons_cons _

theorem active_distinct (store : BudgetStore) :
    ((exportAppState forZeroHeight store).activePrograms.map Program.programID).Nodup :=
  (programsOf_distinct (prepared forZeroHeight store)).sublist (List.filter_sublist.map _)

theorem candidates_distinct (wellFormed : WellFormed store) :
    ((exportAppState forZeroHeight store).candidatePrograms.map Program.programID).Nodup := by
  refine List.Nodup.sublist (candidates_sublist _ _) ?_
  rw [(prepared_rest forZeroHeight store).2.1]
  exact wellFormed.queued_nodup

/-- The candidates whose vote ends where the exported submit block says. -/
theorem isQueued_exported_iff (wellFormed : WellFormed store) {program : Program}
    (stored : store.programs[program.programID]? = some program)
    (kept : Queued store program.programID →
      (exportedProgram forZeroHeight program).submitBlock = program.submitBlock) :
    isQueued store (exportedProgram forZeroHeight program) = true ↔
      Queued store program.programID := by
  have lookup : isQueued store (exportedProgram forZeroHeight program) = true ↔
      ∃ found, store.candQueue[((exportedProgram forZeroHeight program).getVotingEndBlock
        store.params, program.programID)]? = some found := by
    simp only [isQueued, BudgetStore.candQueueHas, Option.isSome_iff_exists,
      exportedProgram_programID]
  rw [lookup]
  constructor
  · rintro ⟨found, present⟩
    exact ⟨_, found, present⟩
  · intro queued
    have sameBlock := kept queued
    rcases queued with ⟨endBlock, found, present⟩
    rcases wellFormed.queued _ _ present with ⟨other, otherStored, ends⟩
    have programEq : program = other := Option.some.inj (stored.symm.trans otherStored)
    subst programEq
    refine ⟨found, ?_⟩
    have sameEnd : (exportedProgram forZeroHeight program).getVotingEndBlock store.params =
        endBlock := by
      simp only [Program.getVotingEndBlock, sameBlock]
      exact ends
    rw [sameEnd]
    exact present

end Listing

/-- All voters have addresses that can be read back. -/
def VotersAddressed (store : BudgetStore) : Prop :=
  ∀ (key : ℕ × Address) (option : Bool), store.votes[key]? = some option →
    key.2.length = addrLen

theorem exportedVotes_eq {store : BudgetStore} (addressed : VotersAddressed store) :
    exportedVotes store = store.votes.toList.map fun vote => ⟨vote.1.1, vote.2, vote.1.2⟩ := by
  rw [← List.filterMap_eq_map]
  apply List.filterMap_congr
  intro vote listed
  have present := (Store.mem_toList_iff store.votes vote).mp listed
  simp [addressed vote.1 vote.2 present]

theorem mem_exportedVotes_iff {store : BudgetStore} (addressed : VotersAddressed store)
    (vote : Vote) :
    vote ∈ exportedVotes store ↔
      store.votes[(vote.programID, vote.voter)]? = some vote.option := by
  rw [exportedVotes_eq addressed, List.mem_map]
  constructor
  · rintro ⟨entry, listed, rfl⟩
    exact (Store.mem_toList_iff store.votes entry).mp listed
  · intro present
    exact ⟨((vote.programID, vote.voter), vote.option),
      (Store.mem_toList_iff store.votes _).mpr present, rfl⟩

theorem exportedVotes_nodup {store : BudgetStore} (addressed : VotersAddressed store) :
    (exportedVotes store).Nodup := by
  rw [exportedVotes_eq addressed]
  refine (Store.nodup_toList store.votes).map ?_
  rintro ⟨⟨firstID, firstVoter⟩, first⟩ ⟨⟨secondID, secondVoter⟩, second⟩ same
  cases same
  rfl

/-- Every candidate has the submit block that the export gives it. -/
def SubmitBlocksKept (forZeroHeight : Bool) (store : BudgetStore) : Prop :=
  forZeroHeight = true → ∀ program : Program,
    store.programs[program.programID]? = some program →
      Queued store program.programID → program.submitBlock = 0

theorem SubmitBlocksKept.exported {forZeroHeight : Bool} {store : BudgetStore}
    (kept : SubmitBlocksKept forZeroHeight store) {program : Program}
    (stored : store.programs[program.programID]? = some program)
    (queued : Queued store program.programID) :
    (exportedProgram forZeroHeight program).submitBlock = program.submitBlock := by
  cases forZeroHeight with
  | false => rfl
  | true => exact (kept rfl program stored queued).symm

/-- A candidate with another submit block passes for active. -/
theorem isQueued_reset {store : BudgetStore} (wellFormed : WellFormed store) {program : Program}
    (stored : store.programs[program.programID]? = some program)
    (moved : program.submitBlock ≠ 0) (low : 0 ≤ program.submitBlock)
    (high : program.submitBlock < 2 ^ 63) : isQueued store (resetSubmitBlock program) = false := by
  rw [Bool.eq_false_iff]
  intro isQueued
  rcases Option.isSome_iff_exists.mp isQueued with ⟨found, present⟩
  rcases wellFormed.queued _ _ present with ⟨other, otherStored, ends⟩
  have programEq : program = other := Option.some.inj (stored.symm.trans otherStored)
  subst programEq
  have sameEnd : Int.bmod (program.submitBlock + store.params.votePeriod) (2 ^ 64) =
      Int.bmod (0 + store.params.votePeriod) (2 ^ 64) := ends
  have sameRest := congrArg (· % (2 ^ 64 : ℤ)) sameEnd
  have bmodRest : ∀ block : ℤ, Int.bmod block (2 ^ 64) % (2 ^ 64 : ℤ) = block % (2 ^ 64 : ℤ) :=
    fun block => Int.bmod_emod
  simp only [bmodRest] at sameRest
  omega

theorem splits_iff {store : BudgetStore} (wellFormed : WellFormed store)
    (addressed : VotersAddressed store)
    (fits : ∀ (programID : ℕ) (program : Program), store.programs[programID]? = some program →
      0 ≤ program.submitBlock ∧ program.submitBlock < 2 ^ 63) (forZeroHeight : Bool) :
    Splits forZeroHeight store (exportAppState forZeroHeight store) ↔
      SubmitBlocksKept forZeroHeight store := by
  constructor
  · rintro splits rfl program stored queued
    by_contra moved
    rcases fits _ _ stored with ⟨low, high⟩
    have listed := (splits.active (resetSubmitBlock program)).mp ((mem_active_iff true _).mpr
      ⟨program, stored, isQueued_reset wellFormed stored moved low high, rfl⟩)
    rcases listed with ⟨other, -, notQueued, same⟩
    have sameID := congrArg Program.programID same
    rw [resetSubmitBlock_programID, exportedProgram_programID] at sameID
    exact notQueued (sameID ▸ queued)
  · intro kept
    have activeIff : ∀ program,
        program ∈ (exportAppState forZeroHeight store).activePrograms ↔
          ∃ stored, store.programs[stored.programID]? = some stored ∧
            ¬Queued store stored.programID ∧ program = exportedProgram forZeroHeight stored := by
      intro program
      rw [mem_active_iff]
      refine exists_congr fun stored => and_congr_right fun present => and_congr_left' ?_
      rw [← isQueued_exported_iff forZeroHeight wellFormed present (kept.exported present),
        Bool.not_eq_true]
    refine ⟨mem_candidates_iff forZeroHeight, activeIff, ?_, ?_, ?_⟩
    · rw [List.map_append]
      refine (candidates_distinct forZeroHeight wellFormed).append
        (active_distinct forZeroHeight store) ?_
      intro programID isCandidate isActive
      rcases List.mem_map.mp isCandidate with ⟨_, listed, rfl⟩
      rcases (mem_candidates_iff forZeroHeight _).mp listed with ⟨stored, -, queued, rfl⟩
      rcases List.mem_map.mp isActive with ⟨_, otherListed, sameID⟩
      rcases (activeIff _).mp otherListed with ⟨other, -, notQueued, rfl⟩
      rw [exportedProgram_programID, exportedProgram_programID] at sameID
      exact notQueued (sameID ▸ queued)
    · intro vote
      have sameVotes := (prepared_rest forZeroHeight store).2.2
      have preparedAddressed : VotersAddressed (prepared forZeroHeight store) := by
        rw [VotersAddressed, sameVotes]
        exact addressed
      rw [← sameVotes]
      exact mem_exportedVotes_iff preparedAddressed vote
    · have preparedAddressed : VotersAddressed (prepared forZeroHeight store) := by
        rw [VotersAddressed, (prepared_rest forZeroHeight store).2.2]
        exact addressed
      exact exportedVotes_nodup preparedAddressed

section Runs

variable {L : Type} [Sdk L]

omit [Sdk L] in
theorem handleMsgVoteProgram_voter {ctx after : Context L} {msg : MsgVoteProgram} {result : Result}
    (handled : handleMsgVoteProgram ctx msg = .ok (result, after)) :
    msg.voter.length = addrLen := by
  simp only [handleMsgVoteProgram] at handled
  split at handled
  · cases handled
  · split at handled
    · cases handled
    · next tokens isValidator => exact ctx.staking.validator_length msg.voter tokens isValidator

/-- Only validators vote, and their addresses can be read back. -/
theorem step_votersAddressed {ctx next : Context L} {action : Action L}
    (addressed : VotersAddressed ctx.budget) (taken : step ctx action = some next) :
    VotersAddressed next.budget := by
  cases step_effect taken with
  | kept _ _ budget => exact budget ▸ addressed
  | submitted _ _ budget => exact budget ▸ addressed
  | @withdrew msg _ program _ _ _ budget =>
      intro key option present
      rw [budget] at present
      exact addressed key option ((Shrinks.withdrawn _ program msg.programID).votes _ _ present)
  | @voted msg _ program stored _ budget =>
      cases taken
      rcases ctx.deliver_cases (handleMsgVoteProgram ctx msg) with ⟨result, done⟩ | ⟨-, same⟩
      · intro key option present
        rw [budget, BudgetStore.get_addVote] at present
        split at present
        · next isKey =>
            rw [← isKey]
            exact handleMsgVoteProgram_voter done
        · exact addressed key option present
      · rw [same]
        exact addressed
  | ended _ budget =>
      have shrinks := (rewarded_sameRecords ctx).shrinks (blockEnd_shrinks ctx)
      intro key option present
      rw [budget] at present
      exact addressed key option (shrinks.votes _ _ present)
  | paramsSet _ budget => exact budget ▸ addressed

theorem reaches_votersAddressed {params : Params} {start ctx : Context L}
    {actions : List (Action L)} (initial : start.budget = BudgetStore.initial params)
    (reached : Reaches step start actions ctx) : VotersAddressed ctx.budget := by
  refine reached.invariant (fun state => VotersAddressed state.budget)
    (fun _ _ _ addressed taken => step_votersAddressed addressed taken) ?_
  rw [initial]
  exact fun _ _ present => by simp [BudgetStore.initial] at present

/-- In every state that is reached, whose height is an `int64`, the export splits
the programs correctly unless it prepares for height zero while a candidate has
another submit block. -/
theorem export_splits_iff {params : Params} {start ctx : Context L} {actions : List (Action L)}
    (votePeriod : 0 < params.votePeriod) (initial : start.budget = BudgetStore.initial params)
    (reached : Reaches step start actions ctx) (height : (ctx.height : ℤ) < 2 ^ 63)
    (forZeroHeight : Bool) :
    Splits forZeroHeight ctx.budget (exportAppState forZeroHeight ctx.budget) ↔
      (forZeroHeight = true → ∀ program : Program,
        ctx.budget.programs[program.programID]? = some program →
          Queued ctx.budget program.programID → program.submitBlock = 0) := by
  have submitted : Submitted ctx := by
    refine reached.invariant Submitted (fun _ _ _ holds taken => step_submitted taken holds) ?_
    intro programID program present
    simp [initial, BudgetStore.initial] at present
  apply splits_iff (reaches_consistent reached (initial_consistent votePeriod initial)).wellFormed
    (reaches_votersAddressed initial reached)
  intro programID program stored
  rcases submitted programID program stored with ⟨low, high⟩
  exact ⟨low, high.trans_lt height⟩

end Runs

/-- A program is submitted in the second block. -/
def secondBlockActions : List (Action Book) := [.endBlock, .submitProgram sampleProgram]

theorem secondBlock_lists :
    (perform step sampleStart secondBlockActions).map (fun ctx => (ctx.height,
      (exportAppState true ctx.budget).candidatePrograms.map Program.programID,
        (exportAppState true ctx.budget).activePrograms.map Program.programID)) =
      some (1, [1], [1]) := by
  decide +kernel

theorem export_splits_iff_secondBlock :
    ∃ ctx : Context Book, Reaches step sampleStart secondBlockActions ctx ∧
      Splits false ctx.budget (exportAppState false ctx.budget) := by
  rcases Option.map_eq_some_iff.mp secondBlock_lists with ⟨ctx, performed, lists⟩
  have height : ctx.height = 1 := congrArg Prod.fst lists
  have reached := reaches_of_perform performed
  refine ⟨ctx, reached, ?_⟩
  exact (export_splits_iff sampleParams_valid.votePeriod rfl reached (by simp [height])
    false).mpr (by simp)

/-- The candidate is exported as an active program as well. -/
theorem zero_height_export_lists_twice :
    sampleStart.budget = BudgetStore.initial sampleParams ∧ sampleParams.Valid ∧
      ∃ ctx : Context Book, Reaches step sampleStart secondBlockActions ctx ∧
        (exportAppState true ctx.budget).candidatePrograms.map Program.programID = [1] ∧
        (exportAppState true ctx.budget).activePrograms.map Program.programID = [1] ∧
        ¬Splits true ctx.budget (exportAppState true ctx.budget) := by
  refine ⟨rfl, sampleParams_valid, ?_⟩
  rcases Option.map_eq_some_iff.mp secondBlock_lists with ⟨ctx, performed, lists⟩
  simp only [Prod.mk.injEq] at lists
  rcases lists with ⟨-, candidates, active⟩
  refine ⟨ctx, reaches_of_perform performed, candidates, active, ?_⟩
  intro splits
  have distinct := splits.distinct
  rw [List.map_append, candidates, active] at distinct
  simp at distinct

end TerraCore.Budget
