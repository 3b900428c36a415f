import TerraCore.Mint.Accounting

/-!
# Budget keeper

Reads and writes of the budget store. Program ids are `uint64` counters that
advance one by one; they are unbounded here.
-/

namespace TerraCore

open Budget

/-- `Program.getVotingEndBlock`: the sum of two `int64`s, which wraps. -/
def Budget.Program.getVotingEndBlock (program : Program) (params : Budget.Params) : ℤ :=
  Int.bmod (program.submitBlock + params.votePeriod) (2 ^ 64)

/-- The vote ends a vote period after the submission if that is an `int64`. -/
theorem Budget.Program.getVotingEndBlock_of_fits {program : Program} {params : Budget.Params}
    (low : -2 ^ 63 ≤ program.submitBlock + params.votePeriod)
    (high : program.submitBlock + params.votePeriod < 2 ^ 63) :
    program.getVotingEndBlock params = program.submitBlock + params.votePeriod := by
  apply Int.bmod_eq_of_le_mul_two
  · push_cast
    omega
  · push_cast
    omega

namespace BudgetStore

def addVote (store : BudgetStore) (programID : ℕ) (voter : Address) (option : Bool) :
    BudgetStore :=
  { store with votes := store.votes.insert (programID, voter) option }

def deleteVote (store : BudgetStore) (programID : ℕ) (voter : Address) : BudgetStore :=
  { store with votes := store.votes.erase (programID, voter) }

def deleteVotesForProgram (store : BudgetStore) (programID : ℕ) : BudgetStore :=
  { store with
    votes := Store.eraseAll store.votes (store.votes.keys.filter fun key => key.1 = programID) }

/-- What `IterateVotesWithPrefix` passes to its handler for one program. Votes
whose voter cannot be parsed from the key are skipped. -/
def votesOn (store : BudgetStore) (programID : ℕ) : List (Address × Bool) :=
  store.votes.toList.filterMap fun vote =>
    if vote.1.1 = programID then
      (accAddressFromBech32 vote.1.2).map fun voter => (voter, vote.2)
    else none

/-- `Keeper.NewProgramID`: ids advance from one. -/
def newProgramID (store : BudgetStore) : ℕ × BudgetStore :=
  let programID :=
    match store.nextProgramID with
    | some last => last + 1
    | none => 1
  (programID, { store with nextProgramID := some programID })

def storeProgram (store : BudgetStore) (program : Program) : BudgetStore :=
  { store with
    programs := store.programs.insert program.programID program
    programs_keyed := Store.forall_get_insert store.programs_keyed rfl }

def deleteProgram (store : BudgetStore) (programID : ℕ) : BudgetStore :=
  { store with
    programs := store.programs.erase programID
    programs_keyed := by
      intro other found present
      rw [Store.get_erase] at present
      split at present
      · cases present
      · exact store.programs_keyed other found present }

def candQueueInsert (store : BudgetStore) (endBlock : ℤ) (programID : ℕ) : BudgetStore :=
  { store with
    candQueue := store.candQueue.insert (endBlock, programID) programID
    candQueue_keyed := Store.forall_get_insert store.candQueue_keyed rfl }

def candQueueRemove (store : BudgetStore) (endBlock : ℤ) (programID : ℕ) : BudgetStore :=
  { store with
    candQueue := store.candQueue.erase (endBlock, programID)
    candQueue_keyed := by
      intro key found present
      rw [Store.get_erase] at present
      split at present
      · cases present
      · exact store.candQueue_keyed key found present }

def candQueueHas (store : BudgetStore) (endBlock : ℤ) (programID : ℕ) : Bool :=
  (store.candQueue[(endBlock, programID)]?).isSome

/-- The program ids that `CandQueueIterateExpired` visits. -/
def expiredCandidates (store : BudgetStore) (endBlock : ℤ) : List ℕ :=
  (store.candQueue.toList.filter fun entry => entry.1.1 ≤ endBlock).map Prod.snd

/-- What `iterateClaimPool` passes to its handler. -/
def claimPool (store : BudgetStore) : List (Address × ℤ) :=
  store.claims.toList.map fun claim => ((accAddressFromBech32 claim.1).getD [], claim.2)

def addClaimPool (store : BudgetStore) (pool : List (Claim ℤ)) : BudgetStore :=
  { store with claims := addClaims store.claims pool }

def clearClaimPool (store : BudgetStore) : BudgetStore :=
  { store with claims := Store.eraseAll store.claims (store.claimPool.map Prod.fst) }

theorem get_addVote (store : BudgetStore) (programID : ℕ) (voter : Address) (option : Bool)
    (key : ℕ × Address) :
    (store.addVote programID voter option).votes[key]? =
      if (programID, voter) = key then some option else store.votes[key]? :=
  Store.get_insert _ _ _ _

theorem get_deleteVotesForProgram (store : BudgetStore) (programID : ℕ) (key : ℕ × Address) :
    (store.deleteVotesForProgram programID).votes[key]? =
      if key.1 = programID then none else store.votes[key]? := by
  unfold deleteVotesForProgram
  rw [Store.get_eraseAll]
  by_cases here : key.1 = programID
  · rw [if_pos here]
    split
    · rfl
    · next notListed =>
        cases present : store.votes[key]? with
        | none => rfl
        | some option =>
            have listed := (Store.mem_keys_iff store.votes key).mpr ⟨option, present⟩
            exact absurd (List.mem_filter.mpr ⟨listed, decide_eq_true here⟩) notListed
  · rw [if_neg here, if_neg]
    intro listed
    exact here (of_decide_eq_true (List.mem_filter.mp listed).2)

theorem get_deleteProgram (store : BudgetStore) (programID other : ℕ) :
    (store.deleteProgram programID).programs[other]? =
      if programID = other then none else store.programs[other]? :=
  Store.get_erase _ _ _

theorem get_storeProgram (store : BudgetStore) (program : Program) (other : ℕ) :
    (store.storeProgram program).programs[other]? =
      if program.programID = other then some program else store.programs[other]? :=
  Store.get_insert _ _ _ _

theorem get_candQueueInsert (store : BudgetStore) (endBlock : ℤ) (programID : ℕ) (key : ℤ × ℕ) :
    (store.candQueueInsert endBlock programID).candQueue[key]? =
      if (endBlock, programID) = key then some programID else store.candQueue[key]? :=
  Store.get_insert _ _ _ _

theorem get_candQueueRemove (store : BudgetStore) (endBlock : ℤ) (programID : ℕ) (key : ℤ × ℕ) :
    (store.candQueueRemove endBlock programID).candQueue[key]? =
      if (endBlock, programID) = key then none else store.candQueue[key]? :=
  Store.get_erase _ _ _

theorem mem_expiredCandidates_iff (store : BudgetStore) (endBlock : ℤ) (programID : ℕ) :
    programID ∈ store.expiredCandidates endBlock ↔
      ∃ due : ℤ, due ≤ endBlock ∧ store.candQueue[(due, programID)]? = some programID := by
  unfold expiredCandidates
  rw [List.mem_map]
  constructor
  · rintro ⟨⟨⟨due, queued⟩, found⟩, entryMem, rfl⟩
    rcases List.mem_filter.mp entryMem with ⟨listed, expired⟩
    have present := (Store.mem_toList_iff store.candQueue _).mp listed
    have foundEq : found = queued := store.candQueue_keyed _ _ present
    subst foundEq
    exact ⟨due, of_decide_eq_true expired, present⟩
  · rintro ⟨due, expired, present⟩
    exact ⟨((due, programID), programID), List.mem_filter.mpr
      ⟨(Store.mem_toList_iff store.candQueue _).mpr present, decide_eq_true expired⟩, rfl⟩

end BudgetStore

end TerraCore
