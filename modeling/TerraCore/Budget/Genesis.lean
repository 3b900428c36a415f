import TerraCore.Budget.Consistency

/-!
# Budget genesis

`InitGenesis` loads programs and votes, but not the last program id. Ids are
therefore handed out from one again, and a submission takes over the records of
a loaded program as soon as the counter arrives at its id.
-/

namespace TerraCore.Budget

open Transition

structure Vote where
  programID : ℕ
  option : Bool
  voter : Address
deriving DecidableEq

structure GenesisState where
  params : Params
  activePrograms : List Program
  candidatePrograms : List Program
  votes : List Vote

def defaultGenesisState : GenesisState := ⟨defaultParams, [], [], []⟩

/-- Load a candidate. Its vote ends one period after genesis. -/
def initCandidate (votePeriod : ℤ) (store : BudgetStore) (program : Program) : BudgetStore :=
  (store.storeProgram program).candQueueInsert votePeriod program.programID

def initVote (store : BudgetStore) (vote : Vote) : BudgetStore :=
  store.addVote vote.programID vote.voter vote.option

/-- `InitGenesis` on an empty store. -/
def initGenesis (data : GenesisState) : BudgetStore :=
  let store := data.activePrograms.foldl BudgetStore.storeProgram (BudgetStore.initial data.params)
  let store := data.candidatePrograms.foldl (initCandidate data.params.votePeriod) store
  data.votes.foldl initVote store

/-- The program ids that a genesis state mentions. -/
def GenesisState.ids (data : GenesisState) : List ℕ :=
  data.activePrograms.map Program.programID ++ data.candidatePrograms.map Program.programID ++
    data.votes.map Vote.programID

section Loading

variable {ids : List ℕ} {store : BudgetStore}

theorem Numbered.storeProgram (numbered : Numbered ids store) {program : Program}
    (listed : program.programID ∈ ids) : Numbered ids (store.storeProgram program) where
  programs programID found present := by
    rw [BudgetStore.get_storeProgram] at present
    split at present
    · next same => exact Or.inl (same ▸ listed)
    · exact numbered.programs programID found present
  votes := numbered.votes
  candQueue := numbered.candQueue

theorem Numbered.candQueueInsert (numbered : Numbered ids store) (endBlock : ℤ) {programID : ℕ}
    (listed : programID ∈ ids) : Numbered ids (store.candQueueInsert endBlock programID) where
  programs := numbered.programs
  votes := numbered.votes
  candQueue key found present := by
    rw [BudgetStore.get_candQueueInsert] at present
    split at present
    · next same => exact Or.inl (same ▸ listed)
    · exact numbered.candQueue key found present

theorem initGenesis_numbered (data : GenesisState) : Numbered data.ids (initGenesis data) := by
  have initially : Numbered data.ids (BudgetStore.initial data.params) :=
    ⟨fun _ _ present => by simp [BudgetStore.initial] at present,
      fun _ _ present => by simp [BudgetStore.initial] at present,
      fun _ _ present => by simp [BudgetStore.initial] at present⟩
  unfold initGenesis
  refine List.foldlRecOn data.votes initVote ?_ fun _ numbered vote listed =>
    numbered.addVote (Or.inl ?_) _ _
  · refine List.foldlRecOn data.candidatePrograms _ ?_ fun _ numbered program listed =>
      (numbered.storeProgram ?_).candQueueInsert _ ?_
    · refine List.foldlRecOn data.activePrograms _ initially fun _ numbered program listed =>
        numbered.storeProgram ?_
      exact List.mem_append_left _ (List.mem_append_left _ (List.mem_map_of_mem listed))
    · exact List.mem_append_left _ (List.mem_append_right _ (List.mem_map_of_mem listed))
    · exact List.mem_append_left _ (List.mem_append_right _ (List.mem_map_of_mem listed))
  · exact List.mem_append_right _ (List.mem_map_of_mem listed)

theorem initGenesis_params (data : GenesisState) :
    (initGenesis data).params = data.params ∧ lastProgramID (initGenesis data) = 0 := by
  let Kept (current : BudgetStore) : Prop :=
    current.params = data.params ∧ lastProgramID current = 0
  unfold initGenesis
  exact List.foldlRecOn (motive := Kept) data.votes initVote
    (List.foldlRecOn (motive := Kept) data.candidatePrograms _
      (List.foldlRecOn (motive := Kept) data.activePrograms _ ⟨rfl, rfl⟩
        fun _ kept _ _ => kept) fun _ kept _ _ => kept) fun _ kept _ _ => kept

/-- Some program or vote has the program id. -/
def Used (store : BudgetStore) (programID : ℕ) : Prop :=
  (∃ program, store.programs[programID]? = some program) ∨
    ∃ (voter : Address) (option : Bool), store.votes[(programID, voter)]? = some option

theorem Unused.not_used {programID : ℕ} (unused : Unused store programID) :
    ¬Used store programID := by
  rintro (⟨program, present⟩ | ⟨voter, option, present⟩)
  · rw [unused.programs] at present
    cases present
  · rw [unused.votes] at present
    cases present

theorem Used.storeProgram {programID : ℕ} (used : Used store programID) (program : Program) :
    Used (store.storeProgram program) programID := by
  rcases used with ⟨found, present⟩ | voted
  · left
    rw [BudgetStore.get_storeProgram]
    split
    · exact ⟨_, rfl⟩
    · exact ⟨found, present⟩
  · exact Or.inr voted

theorem used_storeProgram (store : BudgetStore) (program : Program) :
    Used (store.storeProgram program) program.programID :=
  Or.inl ⟨program, by rw [BudgetStore.get_storeProgram, if_pos rfl]⟩

theorem Used.addVote {programID : ℕ} (used : Used store programID) (other : ℕ) (voter : Address)
    (option : Bool) : Used (store.addVote other voter option) programID := by
  rcases used with stored | ⟨found, previous, present⟩
  · exact Or.inl stored
  · right
    refine ⟨found, ?_⟩
    rw [BudgetStore.get_addVote]
    split
    · exact ⟨_, rfl⟩
    · exact ⟨previous, present⟩

theorem used_addVote (store : BudgetStore) (programID : ℕ) (voter : Address) (option : Bool) :
    Used (store.addVote programID voter option) programID :=
  Or.inr ⟨voter, option, by rw [BudgetStore.get_addVote, if_pos rfl]⟩

/-- A loop that loads items uses the ids of all of them. -/
theorem used_foldl {β : Type} (load : BudgetStore → β → BudgetStore) (part : β → ℕ)
    (keeps : ∀ current item programID, Used current programID →
      Used (load current item) programID)
    (loads : ∀ current item, Used (load current item) (part item)) (items : List β)
    (store : BudgetStore) {programID : ℕ}
    (used : Used store programID ∨ programID ∈ items.map part) :
    Used (items.foldl load store) programID := by
  induction items generalizing store with
  | nil => exact used.resolve_right (by simp)
  | cons item items ih =>
      apply ih
      rcases used with before | listed
      · exact Or.inl (keeps _ _ _ before)
      · rcases List.mem_cons.mp listed with rfl | later
        · exact Or.inl (loads store item)
        · exact Or.inr later

theorem initGenesis_used {data : GenesisState} {programID : ℕ} (listed : programID ∈ data.ids) :
    Used (initGenesis data) programID := by
  unfold initGenesis
  refine used_foldl initVote Vote.programID (fun _ _ _ used => used.addVote _ _ _)
    (fun _ _ => used_addVote _ _ _ _) _ _ ?_
  rcases List.mem_append.mp listed with program | voted
  · left
    refine used_foldl (initCandidate data.params.votePeriod) Program.programID
      (fun _ program _ used => used.storeProgram program)
      (fun _ program => used_storeProgram _ program) _ _ ?_
    rcases List.mem_append.mp program with active | candidate
    · left
      exact used_foldl BudgetStore.storeProgram Program.programID
        (fun _ program _ used => used.storeProgram program)
        (fun _ program => used_storeProgram _ program) _ _ (Or.inr active)
    · exact Or.inr candidate
  · exact Or.inr voted

end Loading

variable {L : Type} [Sdk L]

/-- In every run after genesis, a submission gets an id that no record has. -/
def NeverReuses (L : Type) [Sdk L] (data : GenesisState) : Prop :=
  ∀ (start ctx after : Context L) (actions : List (Action L)) (msg : MsgSubmitProgram)
    (result : Result) (programID : ℕ),
    start.budget = initGenesis data → Reaches step start actions ctx →
      handleMsgSubmitProgram ctx msg = .ok (result, after) →
        Tag.programID programID ∈ result.tags → Unused ctx.budget programID

/-- Somebody has the deposit, and nothing is known about the issuance yet. -/
def refill (ledger : L) (ctx : Context L) : Context L :=
  { ctx with ledger, mint := { issuance := ∅ } }

theorem handleMsgSubmitProgram_isOk {ledger spent : L} {msg : MsgSubmitProgram} {ctx : Context L}
    (payable : Sdk.subtractCoins ledger msg.submitter [ctx.budget.params.deposit] = .ok spent)
    (funded : ctx.ledger = ledger) (unread : ctx.mint.issuance = ∅) :
    ∃ result after, handleMsgSubmitProgram ctx msg = .ok (result, after) := by
  have burned : ∃ after, payDeposit ctx msg.submitter = .ok after := by
    unfold payDeposit Mint.burn
    rw [funded, payable]
    simp only [bind, Except.bind]
    have noSnapshot : (Mint.changeNotBonded { ctx with ledger := spent }
        ctx.budget.params.deposit.denom (-ctx.budget.params.deposit.amount)).mint.issuance = ∅ := by
      unfold Mint.changeNotBonded
      split <;> exact unread
    unfold Mint.changeIssuance
    rw [noSnapshot, Store.get_empty]
    exact ⟨_, rfl⟩
  rcases burned with ⟨paid, paidOk⟩
  exact ⟨_, _, Outcome.bind_eq_ok.mpr ⟨paid, paidOk, rfl⟩⟩

theorem Used.addCandidate {store : BudgetStore} {programID : ℕ} (used : Used store programID)
    (msg : MsgSubmitProgram) (height : ℕ) : Used (addCandidate store msg height) programID := by
  rw [addCandidate_eq]
  rcases used with stored | voted
  · have counted : Used store.newProgramID.2 programID := Or.inl stored
    exact counted.storeProgram _
  · exact Or.inr voted

/-- Somebody who can pay any number of deposits moves the counter to any id,
without deleting a record. -/
theorem submissions_reach {ledger spent : L} (msg : MsgSubmitProgram) {start : Context L}
    (payable : Sdk.subtractCoins ledger msg.submitter [start.budget.params.deposit] = .ok spent)
    (count : ℕ) :
    ∃ actions ctx, Reaches step start actions ctx ∧
      lastProgramID ctx.budget = lastProgramID start.budget + count ∧
      ctx.budget.params = start.budget.params ∧ ctx.ledger = ledger ∧
      ctx.mint.issuance = ∅ ∧
      ∀ programID, Used start.budget programID → Used ctx.budget programID := by
  induction count with
  | zero =>
      have refilled : step start (.elsewhere (refill ledger)) =
          some (elsewhere (refill ledger) start) := rfl
      exact ⟨_, _, Reaches.single refilled, rfl, rfl, rfl, rfl, fun _ used => used⟩
  | succ count ih =>
      rcases ih with ⟨actions, ctx, reached, last, sameParams, funded, unread, keeps⟩
      rw [← sameParams] at payable
      rcases handleMsgSubmitProgram_isOk payable funded unread with ⟨result, after, handled⟩
      have submitted := step_submitProgram handled
      have refilled : step after (.elsewhere (refill ledger)) =
          some (elsewhere (refill ledger) after) := rfl
      rcases handleMsgSubmitProgram_eq_ok handled with ⟨-, budget, -⟩
      rcases addCandidate_rest ctx.budget msg ctx.height with ⟨addedParams, -, -, addedLast⟩
      refine ⟨_, _, (reached.snoc submitted).snoc refilled, ?_, ?_, rfl, rfl, ?_⟩
      · change lastProgramID after.budget = _
        rw [budget, addedLast, last]
        omega
      · change after.budget.params = _
        rw [budget, addedParams, sameParams]
      · intro programID used
        change Used after.budget programID
        rw [budget]
        exact (keeps programID used).addCandidate msg ctx.height

/-- Ids are never reused exactly when genesis mentions no id that the counter
can hand out. -/
theorem never_reuses_iff {data : GenesisState}
    (payable : ∃ (ledger spent : L) (submitter : Address),
      Sdk.subtractCoins ledger submitter [data.params.deposit] = .ok spent) :
    NeverReuses L data ↔ ∀ programID ∈ data.ids, programID = 0 := by
  rcases payable with ⟨ledger, spent, submitter, payable⟩
  constructor
  · intro neverReuses programID listed
    by_contra positive
    rcases Nat.exists_eq_succ_of_ne_zero positive with ⟨count, rfl⟩
    let msg : MsgSubmitProgram := ⟨[], [], submitter, []⟩
    let start : Context L :=
      { Context.genesis ledger (Staking.single (List.replicate 20 1) 10 rfl) with
        budget := initGenesis data }
    rcases initGenesis_params data with ⟨loadedParams, loadedLast⟩
    have startPayable :
        Sdk.subtractCoins ledger msg.submitter [start.budget.params.deposit] = .ok spent := by
      change Sdk.subtractCoins ledger submitter [(initGenesis data).params.deposit] = .ok spent
      rw [loadedParams]
      exact payable
    rcases submissions_reach msg startPayable count with
      ⟨actions, ctx, reached, last, sameParams, funded, unread, keeps⟩
    rw [← sameParams] at startPayable
    rcases handleMsgSubmitProgram_isOk startPayable funded unread with ⟨result, after, handled⟩
    have nextID : lastProgramID ctx.budget + 1 = count + 1 := by
      rw [last]
      change lastProgramID (initGenesis data) + count + 1 = count + 1
      omega
    have tagged : Tag.programID (count + 1) ∈ result.tags := by
      rw [handleMsgSubmitProgram_tags handled, nextID]
      exact List.mem_singleton_self _
    exact (neverReuses start ctx after actions msg result _ rfl reached handled tagged).not_used
      (keeps _ (initGenesis_used listed))
  · intro onlyZero start ctx after actions msg result programID loaded reached handled tagged
    have numbered : Numbered data.ids ctx.budget := by
      refine reached.invariant (fun current => Numbered data.ids current.budget)
        (fun _ _ _ holds taken => step_numbered taken holds) ?_
      rw [loaded]
      exact initGenesis_numbered data
    rw [handleMsgSubmitProgram_tags handled, List.mem_singleton] at tagged
    cases tagged
    refine numbered.unused ?_
    intro listed
    exact Nat.succ_ne_zero _ (onlyZero _ listed)

/-- A genesis state without programs. -/
def emptyGenesis : GenesisState := { defaultGenesisState with params := sampleParams }

theorem never_reuses_iff_sample : NeverReuses Book emptyGenesis := by
  have payable : ∃ (ledger spent : Book) (submitter : Address),
      Sdk.subtractCoins ledger submitter [emptyGenesis.params.deposit] = .ok spent := by
    refine ⟨sampleStart.ledger, ?_⟩
    have accepted : (Sdk.subtractCoins sampleStart.ledger (List.replicate 20 3)
        [emptyGenesis.params.deposit]).isOk = true := by decide +kernel
    cases outcome : Sdk.subtractCoins sampleStart.ledger (List.replicate 20 3)
        [emptyGenesis.params.deposit] with
    | ok spent => exact ⟨spent, List.replicate 20 3, outcome⟩
    | error failure =>
        rw [outcome] at accepted
        cases accepted
  exact (never_reuses_iff payable).mpr (by decide)

/-- An active program with a vote, as an export of a running chain lists it. -/
def restoredProgram : Program :=
  { programID := 1
    title := ascii "restored"
    description := ascii "description"
    submitter := List.replicate 20 5
    executor := List.replicate 20 5
    submitBlock := 0 }

def restoredGenesis : GenesisState :=
  { emptyGenesis with
    activePrograms := [restoredProgram]
    votes := [⟨1, true, List.replicate 20 1⟩] }

def restored : Context Book := { sampleStart with budget := initGenesis restoredGenesis }

/-- The first submission replaces the restored program and takes over its vote. -/
theorem submission_replaces_program :
    ((restoredGenesis.activePrograms ++ restoredGenesis.candidatePrograms).map
        Program.programID).Nodup ∧
      restored.budget.programs[1]? = some restoredProgram ∧
      ∃ result after, handleMsgSubmitProgram restored sampleProgram = .ok (result, after) ∧
        result.tags = [.programID 1] ∧
        after.budget.programs[1]? = some (sampleProgram.program 1 0) ∧
        after.budget.votes[(1, (List.replicate 20 1 : Address))]? = some true := by
  refine ⟨by decide, by decide +kernel, ?_⟩
  have outcome : ((handleMsgSubmitProgram restored sampleProgram).toOption.map
      fun done => (done.1.tags, done.2.budget.programs[1]?,
        done.2.budget.votes[(1, (List.replicate 20 1 : Address))]?)) =
      some ([.programID 1], some (sampleProgram.program 1 0), some true) := by decide +kernel
  cases handled : handleMsgSubmitProgram restored sampleProgram with
  | error failure =>
      rw [handled] at outcome
      cases outcome
  | ok done =>
      rw [handled] at outcome
      simp only [Except.toOption, Option.map_some, Option.some.injEq, Prod.mk.injEq] at outcome
      exact ⟨done.1, done.2, rfl, outcome⟩

end TerraCore.Budget
