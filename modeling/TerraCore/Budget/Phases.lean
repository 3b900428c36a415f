import TerraCore.Budget.Tally
import TerraCore.Library.Locality

/-!
# The phases of the end blocker, program by program

Both loops of the end blocker delete records while they iterate. They are loops
of local updates: what happens to a program depends on its own records alone,
so that the records of each program change as if it were the only one visited.
-/

namespace TerraCore.Budget

/-- The records of a program are the same in both stores. -/
structure Agree (programID : ℕ) (left right : BudgetStore) : Prop where
  params : left.params = right.params
  program : left.programs[programID]? = right.programs[programID]?
  votes : ∀ voter : Address,
    left.votes[(programID, voter)]? = right.votes[(programID, voter)]?
  queue : ∀ endBlock : ℤ,
    left.candQueue[(endBlock, programID)]? = right.candQueue[(endBlock, programID)]?

namespace Agree

variable {programID : ℕ} {left middle right : BudgetStore}

theorem refl (programID : ℕ) (store : BudgetStore) : Agree programID store store :=
  ⟨rfl, rfl, fun _ => rfl, fun _ => rfl⟩

theorem symm (agree : Agree programID left right) : Agree programID right left :=
  ⟨agree.params.symm, agree.program.symm, fun voter => (agree.votes voter).symm,
    fun endBlock => (agree.queue endBlock).symm⟩

theorem trans (first : Agree programID left middle) (second : Agree programID middle right) :
    Agree programID left right :=
  ⟨first.params.trans second.params, first.program.trans second.program,
    fun voter => (first.votes voter).trans (second.votes voter),
    fun endBlock => (first.queue endBlock).trans (second.queue endBlock)⟩

theorem equivalence (programID : ℕ) : Equivalence (Agree programID) :=
  ⟨refl programID, symm, trans⟩

theorem votePower (agree : Agree programID left right) (staking : Staking) :
    Budget.votePower staking left programID = Budget.votePower staking right programID :=
  votePower_congr staking fun voter _ => agree.votes voter

end Agree

/-- The parameters, the last program id and the claims are the same in both stores. -/
def SameRest (left right : BudgetStore) : Prop :=
  left.params = right.params ∧ left.nextProgramID = right.nextProgramID ∧
    left.claims = right.claims

theorem SameRest.trans {left middle right : BudgetStore} (first : SameRest left middle)
    (second : SameRest middle right) : SameRest left right :=
  ⟨first.1.trans second.1, first.2.1.trans second.2.1, first.2.2.trans second.2.2⟩

/-- The store after a tally of the program, which is kept or deleted. -/
def settle (staking : Staking) (store : BudgetStore) (programID : ℕ) (keep : Bool) : BudgetStore :=
  if keep then (tally staking store programID).2
  else dropProgram (tally staking store programID).2 programID

theorem get_settle_programs (staking : Staking) (store : BudgetStore) (programID other : ℕ)
    (keep : Bool) :
    (settle staking store programID keep).programs[other]? =
      if keep = false ∧ programID = other then none else store.programs[other]? := by
  unfold settle
  cases keep with
  | true =>
      rw [if_pos rfl, tally_snd]
      simp
  | false =>
      rw [if_neg (by simp), tally_snd]
      unfold dropProgram
      rw [BudgetStore.get_deleteProgram]
      simp [BudgetStore.deleteVotesForProgram]

theorem get_settle_votes (staking : Staking) (store : BudgetStore) (programID : ℕ) (keep : Bool)
    (key : ℕ × Address) :
    (settle staking store programID keep).votes[key]? =
      if key.1 = programID ∧ keep = false then none
      else if Stale staking programID key then none else store.votes[key]? := by
  unfold settle
  cases keep with
  | true => simp [get_tally]
  | false =>
      rw [if_neg (by simp)]
      unfold dropProgram
      simp only [BudgetStore.deleteProgram, BudgetStore.get_deleteVotesForProgram, get_tally]
      simp

theorem settle_candQueue (staking : Staking) (store : BudgetStore) (programID : ℕ) (keep : Bool) :
    (settle staking store programID keep).candQueue = store.candQueue := by
  unfold settle
  rw [tally_snd]
  cases keep <;> rfl

theorem settle_sameRest (staking : Staking) (store : BudgetStore) (programID : ℕ) (keep : Bool) :
    SameRest (settle staking store programID keep) store := by
  unfold settle
  rw [tally_snd]
  cases keep <;> exact ⟨rfl, rfl, rfl⟩

theorem settle_frame (staking : Staking) (store : BudgetStore) (programID : ℕ) (keep : Bool)
    {other : ℕ} (different : other ≠ programID) :
    Agree other (settle staking store programID keep) store where
  params := (settle_sameRest staking store programID keep).1
  program := by
    rw [get_settle_programs, if_neg]
    rintro ⟨_, same⟩
    exact different same.symm
  votes voter := by
    rw [get_settle_votes, if_neg, if_neg]
    · rintro ⟨same, _⟩
      exact different same
    · rintro ⟨same, _⟩
      exact different same
  queue endBlock := by rw [settle_candQueue]

theorem Agree.settle {programID : ℕ} {left right : BudgetStore}
    (agree : Agree programID left right) (staking : Staking) (keep : Bool) :
    Agree programID (settle staking left programID keep)
      (settle staking right programID keep) where
  params := by
    rw [(settle_sameRest staking left programID keep).1,
      (settle_sameRest staking right programID keep).1, agree.params]
  program := by rw [get_settle_programs, get_settle_programs, agree.program]
  votes voter := by rw [get_settle_votes, get_settle_votes, agree.votes]
  queue endBlock := by rw [settle_candQueue, settle_candQueue, agree.queue]

/-- The program has the votes to become active. -/
def Passes (staking : Staking) (store : BudgetStore) (programID : ℕ) : Prop :=
  ClearsThreshold (votePower staking store programID) staking.bondedTokens
    store.params.activeThreshold

instance (staking : Staking) (store : BudgetStore) (programID : ℕ) :
    Decidable (Passes staking store programID) :=
  inferInstanceAs (Decidable (ClearsThreshold _ _ _))

theorem decideCandidate_of_stored (staking : Staking) {store : BudgetStore} {programID : ℕ}
    {program : Program} (stored : store.programs[programID]? = some program) :
    decideCandidate staking store programID =
      (settle staking store programID
        (decide (Passes staking store programID))).candQueueRemove
          (program.getVotingEndBlock store.params) programID := by
  unfold decideCandidate settle
  rw [stored]
  simp only [tally_fst]
  by_cases passes : Passes staking store programID
  · rw [if_pos (decide_eq_true passes)]
    exact congrArg (fun decided : BudgetStore => decided.candQueueRemove _ _) (if_pos passes)
  · rw [decide_eq_false passes, if_neg Bool.false_ne_true]
    exact congrArg (fun decided : BudgetStore => decided.candQueueRemove _ _) (if_neg passes)

theorem decideCandidate_of_missing (staking : Staking) {store : BudgetStore} {programID : ℕ}
    (missing : store.programs[programID]? = none) :
    decideCandidate staking store programID = store := by
  unfold decideCandidate
  rw [missing]

theorem candQueueRemove_frame (store : BudgetStore) (endBlock : ℤ) {programID other : ℕ}
    (different : other ≠ programID) :
    Agree other (store.candQueueRemove endBlock programID) store where
  params := rfl
  program := rfl
  votes _ := rfl
  queue found := by
    rw [BudgetStore.get_candQueueRemove, if_neg]
    intro same
    exact different (Prod.ext_iff.mp same).2.symm

theorem Agree.candQueueRemove {programID : ℕ} {left right : BudgetStore}
    (agree : Agree programID left right) (endBlock : ℤ) :
    Agree programID (left.candQueueRemove endBlock programID)
      (right.candQueueRemove endBlock programID) where
  params := agree.params
  program := agree.program
  votes := agree.votes
  queue found := by
    rw [BudgetStore.get_candQueueRemove, BudgetStore.get_candQueueRemove, agree.queue]

theorem decideCandidate_framed (staking : Staking) :
    Locality.Framed Agree id (decideCandidate staking) := by
  intro store programID other different
  cases stored : store.programs[programID]? with
  | none =>
      rw [decideCandidate_of_missing staking stored]
      exact Agree.refl other store
  | some program =>
      rw [decideCandidate_of_stored staking stored]
      exact (candQueueRemove_frame _ _ different).trans (settle_frame staking store _ _ different)

theorem Agree.passes {programID : ℕ} {left right : BudgetStore}
    (agree : Agree programID left right) (staking : Staking) :
    Passes staking left programID ↔ Passes staking right programID := by
  unfold Passes
  rw [agree.votePower staking, agree.params]

theorem decideCandidate_confined (staking : Staking) :
    Locality.Confined Agree id (decideCandidate staking) := by
  intro left right programID agree
  replace agree : Agree programID left right := agree
  change Agree programID _ _
  cases stored : right.programs[programID]? with
  | none =>
      rw [decideCandidate_of_missing staking stored,
        decideCandidate_of_missing staking (agree.program.trans stored)]
      exact agree
  | some program =>
      rw [decideCandidate_of_stored staking stored,
        decideCandidate_of_stored staking (agree.program.trans stored),
        decide_eq_decide.mpr (agree.passes staking), agree.params]
      exact (agree.settle staking _).candQueueRemove _

theorem decideCandidates_of_pending (staking : Staking) {height programID : ℕ}
    {store : BudgetStore} (pending : programID ∉ store.expiredCandidates height) :
    Agree programID (decideCandidates staking height store) store :=
  Locality.foldl_of_not_mem Agree.equivalence (decideCandidate_framed staking) _ _
    (by simpa using pending)

theorem decideCandidates_of_expired (staking : Staking) {height programID : ℕ}
    {store : BudgetStore} (distinct : (store.expiredCandidates height).Nodup)
    (expired : programID ∈ store.expiredCandidates height) :
    Agree programID (decideCandidates staking height store)
      (decideCandidate staking store programID) :=
  Locality.foldl_of_mem Agree.equivalence (decideCandidate_framed staking)
    (decideCandidate_confined staking) store (by simpa using distinct) expired

theorem decideCandidate_sameRest (staking : Staking) (store : BudgetStore) (programID : ℕ) :
    SameRest (decideCandidate staking store programID) store := by
  cases stored : store.programs[programID]? with
  | none =>
      rw [decideCandidate_of_missing staking stored]
      exact ⟨rfl, rfl, rfl⟩
  | some program =>
      rw [decideCandidate_of_stored staking stored]
      exact settle_sameRest staking store programID _

theorem decideCandidates_sameRest (staking : Staking) (height : ℕ) (store : BudgetStore) :
    SameRest (decideCandidates staking height store) store := by
  unfold decideCandidates
  induction store.expiredCandidates height generalizing store with
  | nil => exact ⟨rfl, rfl, rfl⟩
  | cons programID rest ih =>
      exact (ih _).trans (decideCandidate_sameRest staking store programID)

/-- The program has the votes to stay active. -/
def Survives (staking : Staking) (store : BudgetStore) (programID : ℕ) : Prop :=
  ClearsThreshold (votePower staking store programID) staking.bondedTokens
    store.params.legacyThreshold

instance (staking : Staking) (store : BudgetStore) (programID : ℕ) :
    Decidable (Survives staking store programID) :=
  inferInstanceAs (Decidable (ClearsThreshold _ _ _))

/-- The program is still a candidate. -/
def isQueued (store : BudgetStore) (program : Program) : Bool :=
  store.candQueueHas (program.getVotingEndBlock store.params) program.programID

/-- The store after one active program is weighed. -/
def weighed (staking : Staking) (store : BudgetStore) (program : Program) : BudgetStore :=
  if isQueued store program then store
  else settle staking store program.programID
    (decide (Survives staking store program.programID))

/-- The claim that one active program earns. -/
def grant (staking : Staking) (store : BudgetStore) (program : Program) : List (Claim ℤ) :=
  if isQueued store program then []
  else if Survives staking store program.programID then
    [⟨votePower staking store program.programID, program.executor⟩]
  else []

theorem weighProgram_eq (staking : Staking) (claims : List (Claim ℤ)) (store : BudgetStore)
    (program : Program) :
    weighProgram staking (claims, store) program =
      (claims ++ grant staking store program, weighed staking store program) := by
  unfold weighProgram grant weighed
  by_cases queued : isQueued store program
  · rw [if_pos queued, if_pos queued, List.append_nil]
    exact if_pos queued
  · rw [if_neg queued, if_neg queued]
    refine (if_neg queued).trans ?_
    unfold settle
    simp only [tally_fst]
    by_cases survives : Survives staking store program.programID
    · rw [if_pos survives, if_pos (decide_eq_true survives)]
      exact if_pos survives
    · rw [if_neg survives, decide_eq_false survives, if_neg Bool.false_ne_true, List.append_nil]
      exact if_neg survives

theorem Agree.isQueued {program : Program} {left right : BudgetStore}
    (agree : Agree program.programID left right) :
    isQueued left program = isQueued right program := by
  unfold Budget.isQueued BudgetStore.candQueueHas
  rw [agree.params, agree.queue]

theorem Agree.survives {programID : ℕ} {left right : BudgetStore}
    (agree : Agree programID left right) (staking : Staking) :
    Survives staking left programID ↔ Survives staking right programID := by
  unfold Survives
  rw [agree.votePower staking, agree.params]

theorem Agree.grant {program : Program} {left right : BudgetStore}
    (agree : Agree program.programID left right) (staking : Staking) :
    grant staking left program = grant staking right program := by
  unfold Budget.grant
  simp only [agree.isQueued, agree.survives staking, agree.votePower staking]

theorem weighed_framed (staking : Staking) :
    Locality.Framed Agree Program.programID (weighed staking) := by
  intro store program other different
  unfold weighed
  split
  · exact Agree.refl other store
  · exact settle_frame staking store _ _ different

theorem weighed_confined (staking : Staking) :
    Locality.Confined Agree Program.programID (weighed staking) := by
  intro left right program agree
  unfold weighed
  simp only [agree.isQueued, agree.survives staking]
  split
  · exact agree
  · exact agree.settle staking _

theorem weighed_sameRest (staking : Staking) (store : BudgetStore) (program : Program) :
    SameRest (weighed staking store program) store := by
  unfold weighed
  split
  · exact ⟨rfl, rfl, rfl⟩
  · exact settle_sameRest staking store _ _

/-- The programs that `IteratePrograms` visits. -/
def programsOf (store : BudgetStore) : List Program := store.programs.toList.map Prod.snd

theorem mem_programsOf_iff (store : BudgetStore) (program : Program) :
    program ∈ programsOf store ↔ store.programs[program.programID]? = some program := by
  unfold programsOf
  rw [List.mem_map]
  constructor
  · rintro ⟨⟨programID, found⟩, listed, rfl⟩
    have present := (Store.mem_toList_iff store.programs _).mp listed
    rw [store.programs_keyed programID found present]
    exact present
  · intro present
    exact ⟨(program.programID, program), (Store.mem_toList_iff store.programs _).mpr present, rfl⟩

theorem programsOf_ids (store : BudgetStore) :
    (programsOf store).map Program.programID = store.programs.keys := by
  rw [← Std.ExtTreeMap.map_fst_toList_eq_keys]
  unfold programsOf
  rw [List.map_map]
  refine List.map_congr_left ?_
  intro entry listed
  exact store.programs_keyed _ _ ((Store.mem_toList_iff store.programs entry).mp listed)

theorem programsOf_distinct (store : BudgetStore) :
    ((programsOf store).map Program.programID).Nodup := by
  rw [programsOf_ids]
  exact Store.nodup_keys store.programs

/-- The store after all active programs are weighed, before their claims are added. -/
def weighedAll (staking : Staking) (store : BudgetStore) : BudgetStore :=
  (programsOf store).foldl (weighed staking) store

/-- The claims that all active programs earn. -/
def grants (staking : Staking) (store : BudgetStore) : List (Claim ℤ) :=
  (programsOf store).flatMap (grant staking store)

/-- Each program is weighed in a store that still has all of its records. -/
theorem foldl_weighProgram (staking : Staking) (store : BudgetStore) {programs : List Program}
    (claims : List (Claim ℤ)) (current : BudgetStore)
    (distinct : (programs.map Program.programID).Nodup)
    (agrees : ∀ program ∈ programs, Agree program.programID current store) :
    programs.foldl (weighProgram staking) (claims, current) =
      (claims ++ programs.flatMap (grant staking store),
        programs.foldl (weighed staking) current) := by
  induction programs generalizing claims current with
  | nil => simp
  | cons program rest ih =>
      rw [List.map_cons, List.nodup_cons] at distinct
      rw [List.foldl_cons, weighProgram_eq, ih _ _ distinct.2, List.flatMap_cons,
        (agrees program List.mem_cons_self).grant staking, List.append_assoc]
      · rfl
      · intro other later
        have different : other.programID ≠ program.programID := fun same =>
          distinct.1 (same ▸ List.mem_map_of_mem later)
        exact (weighed_framed staking current program _ different).trans
          (agrees other (List.mem_cons_of_mem _ later))

theorem weighPrograms_eq (staking : Staking) (store : BudgetStore) :
    weighPrograms staking store =
      (weighedAll staking store).addClaimPool (grants staking store) := by
  unfold weighPrograms weighedAll grants
  rw [show store.programs.toList.map Prod.snd = programsOf store from rfl,
    foldl_weighProgram staking store _ _ (programsOf_distinct store)
      fun program _ => Agree.refl _ store]
  rfl

theorem weighedAll_of_stored (staking : Staking) {store : BudgetStore} {program : Program}
    (stored : store.programs[program.programID]? = some program) :
    Agree program.programID (weighedAll staking store) (weighed staking store program) :=
  Locality.foldl_of_mem Agree.equivalence (weighed_framed staking) (weighed_confined staking) store
    (programsOf_distinct store) ((mem_programsOf_iff store program).mpr stored)

theorem weighedAll_sameRest (staking : Staking) (store : BudgetStore) :
    SameRest (weighedAll staking store) store := by
  unfold weighedAll
  induction programsOf store generalizing store with
  | nil => exact ⟨rfl, rfl, rfl⟩
  | cons program rest ih => exact (ih _).trans (weighed_sameRest staking store program)

end TerraCore.Budget
