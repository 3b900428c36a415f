import TerraCore.Budget.EndBlocker

/-!
# Tallies

The vote power of a program is what its votes weigh in the current validator
set. A tally returns it, and deletes the votes of addresses that are no longer
validators. Since these weigh nothing, tallying a program again, or tallying
another one in between, makes no difference.
-/

namespace TerraCore.Budget

/-- What a vote weighs. -/
def signedPower (staking : Staking) (voter : Address) (option : Bool) : ℤ :=
  match staking.validator voter with
  | some bondSize => if option then bondSize else -bondSize
  | none => 0

/-- Yes votes minus no votes on a program, in bonded tokens. -/
def votePower (staking : Staking) (store : BudgetStore) (programID : ℕ) : ℤ :=
  Store.sum (fun key option => if key.1 = programID then signedPower staking key.2 option else 0)
    store.votes

/-- A vote on the program which a tally deletes. -/
def Stale (staking : Staking) (programID : ℕ) (key : ℕ × Address) : Prop :=
  key.1 = programID ∧ Readable key.2 ∧ staking.validator key.2 = none

instance (staking : Staking) (programID : ℕ) (key : ℕ × Address) :
    Decidable (Stale staking programID key) :=
  inferInstanceAs (Decidable (_ ∧ _ ∧ _))

/-- The voters that are no validators. -/
def staleVoters (staking : Staking) (votes : List (Address × Bool)) : List Address :=
  (votes.filter fun vote => staking.validator vote.1 = none).map Prod.fst

theorem mem_staleVoters_iff (staking : Staking) (votes : List (Address × Bool))
    (voter : Address) : voter ∈ staleVoters staking votes ↔
      staking.validator voter = none ∧ ∃ option, (voter, option) ∈ votes := by
  simp [staleVoters, and_comm]

section Count

variable {σ : Type} (staking : Staking) (delete : σ → Address → σ)

/-- What one vote does to the power, and to the store that the votes are deleted from. -/
def countVote (state : ℤ × σ) (vote : Address × Bool) : ℤ × σ :=
  match staking.validator vote.1 with
  | some bondSize => (if vote.2 then state.1 + bondSize else state.1 - bondSize, state.2)
  | none => (state.1, delete state.2 vote.1)

theorem foldl_countVote (votes : List (Address × Bool)) (power : ℤ) (store : σ) :
    votes.foldl (countVote staking delete) (power, store) =
      (power + (votes.map fun vote => signedPower staking vote.1 vote.2).sum,
        (staleVoters staking votes).foldl delete store) := by
  induction votes generalizing power store with
  | nil => simp [staleVoters]
  | cons vote votes ih =>
      rw [List.foldl_cons, List.map_cons, List.sum_cons]
      cases isValidator : staking.validator vote.1 with
      | some bondSize =>
          have counted : countVote staking delete (power, store) vote =
              (power + signedPower staking vote.1 vote.2, store) := by
            unfold countVote signedPower
            cases vote.2 <;> simp [isValidator, sub_eq_add_neg]
          have kept : staleVoters staking (vote :: votes) = staleVoters staking votes := by
            simp [staleVoters, isValidator]
          rw [counted, ih, kept, add_assoc]
      | none =>
          have pruned : countVote staking delete (power, store) vote =
              (power, delete store vote.1) := by simp [countVote, isValidator]
          have listed : staleVoters staking (vote :: votes) =
              vote.1 :: staleVoters staking votes := by simp [staleVoters, isValidator]
          have weightless : signedPower staking vote.1 vote.2 = 0 := by
            simp [signedPower, isValidator]
          rw [pruned, ih, listed, weightless, zero_add, List.foldl_cons]

end Count

/-- The votes that a list of votes on one program leaves to be deleted. -/
def staleKeys (staking : Staking) (programID : ℕ) (votes : List (Address × Bool)) :
    List (ℕ × Address) :=
  (staleVoters staking votes).map fun voter => (programID, voter)

theorem foldl_deleteVote (programID : ℕ) (voters : List Address) (store : BudgetStore) :
    voters.foldl (fun store voter => store.deleteVote programID voter) store =
      { store with
        votes := Store.eraseAll store.votes (voters.map fun voter => (programID, voter)) } := by
  induction voters generalizing store with
  | nil => rfl
  | cons voter voters ih =>
      rw [List.foldl_cons, ih]
      rfl

theorem tallyVotes_eq (staking : Staking) (programID : ℕ) (votes : List (Address × Bool))
    (power : ℤ) (store : BudgetStore) :
    votes.foldl (tallyVote staking programID) (power, store) =
      (power + (votes.map fun vote => signedPower staking vote.1 vote.2).sum,
        { store with
          votes := Store.eraseAll store.votes (staleKeys staking programID votes) }) := by
  have counts : tallyVote staking programID =
      countVote staking fun store voter => store.deleteVote programID voter := rfl
  rw [counts, foldl_countVote, foldl_deleteVote]
  rfl

theorem votesOn_power (staking : Staking) (store : BudgetStore) (programID : ℕ) :
    ((store.votesOn programID).map fun vote => signedPower staking vote.1 vote.2).sum =
      votePower staking store programID := by
  unfold votePower Store.sum BudgetStore.votesOn
  induction store.votes.toList with
  | nil => rfl
  | cons vote votes ih =>
      rw [List.map_cons, List.sum_cons, ← ih, List.filterMap_cons]
      by_cases here : vote.1.1 = programID
      · by_cases readable : Readable vote.1.2
        · simp [here, accAddressFromBech32, readable]
        · -- The voter cannot be parsed, and is no validator.
          have noValidator : staking.validator vote.1.2 = none := by
            cases isValidator : staking.validator vote.1.2 with
            | none => rfl
            | some bondSize =>
                have length := staking.validator_length _ _ isValidator
                exact absurd (readable_of_length length) readable
          simp [here, accAddressFromBech32, readable, signedPower, noValidator]
      · simp [here]

theorem mem_votesOn_iff (store : BudgetStore) (programID : ℕ) (vote : Address × Bool) :
    vote ∈ store.votesOn programID ↔
      Readable vote.1 ∧ store.votes[(programID, vote.1)]? = some vote.2 := by
  unfold BudgetStore.votesOn
  rw [List.mem_filterMap]
  constructor
  · rintro ⟨⟨⟨found, voter⟩, option⟩, listed, parsed⟩
    have present := (Store.mem_toList_iff store.votes _).mp listed
    split at parsed
    · next here =>
        unfold accAddressFromBech32 at parsed
        split at parsed
        · next readable =>
            cases parsed
            exact ⟨readable, here ▸ present⟩
        · cases parsed
    · cases parsed
  · rintro ⟨readable, present⟩
    refine ⟨((programID, vote.1), vote.2), (Store.mem_toList_iff store.votes _).mpr present, ?_⟩
    simp [accAddressFromBech32, readable]

theorem votesOn_nodup (store : BudgetStore) (programID : ℕ) :
    (store.votesOn programID).Nodup := by
  refine (Store.nodup_toList store.votes).filterMap ?_
  rintro ⟨⟨first, voter⟩, option⟩ ⟨⟨second, other⟩, choice⟩ vote parsed parsed'
  simp only [Option.mem_def, accAddressFromBech32] at parsed parsed'
  split at parsed
  · next here =>
      split at parsed'
      · next here' =>
          split at parsed
          · split at parsed'
            · cases parsed
              cases parsed'
              rw [here, here']
            · cases parsed'
          · cases parsed
      · cases parsed'
  · cases parsed

theorem tally_fst (staking : Staking) (store : BudgetStore) (programID : ℕ) :
    (tally staking store programID).1 = votePower staking store programID := by
  unfold tally
  rw [tallyVotes_eq, votesOn_power]
  exact zero_add _

theorem tally_snd (staking : Staking) (store : BudgetStore) (programID : ℕ) :
    (tally staking store programID).2 =
      { store with votes := (tally staking store programID).2.votes } := by
  unfold tally
  rw [tallyVotes_eq]

theorem get_tally (staking : Staking) (store : BudgetStore) (programID : ℕ) (key : ℕ × Address) :
    (tally staking store programID).2.votes[key]? =
      if Stale staking programID key then none else store.votes[key]? := by
  unfold tally
  rw [tallyVotes_eq]
  simp only
  rw [Store.get_eraseAll]
  by_cases stale : Stale staking programID key
  · rw [if_pos stale]
    rcases stale with ⟨here, readable, noValidator⟩
    cases present : store.votes[key]? with
    | none => simp
    | some option =>
        refine if_pos (List.mem_map.mpr ⟨key.2, ?_, by rw [← here]⟩)
        refine (mem_staleVoters_iff staking _ _).mpr ⟨noValidator, option, ?_⟩
        exact (mem_votesOn_iff store programID _).mpr ⟨readable, by rw [← here]; exact present⟩
  · rw [if_neg stale, if_neg]
    intro listed
    rcases List.mem_map.mp listed with ⟨voter, voterMem, rfl⟩
    rcases (mem_staleVoters_iff staking _ voter).mp voterMem with ⟨noValidator, option, onProgram⟩
    exact stale ⟨rfl, ((mem_votesOn_iff store programID _).mp onProgram).1, noValidator⟩

/-- Two stores with the same votes on a program give it the same power. -/
theorem votePower_congr (staking : Staking) {left right : BudgetStore} {programID : ℕ}
    (same : ∀ voter : Address, staking.validator voter ≠ none →
      left.votes[(programID, voter)]? = right.votes[(programID, voter)]?) :
    votePower staking left programID = votePower staking right programID := by
  apply Store.sum_congr_of_support
  rintro ⟨found, voter⟩ option weighs
  simp only at weighs
  split at weighs
  · next here =>
      subst here
      rw [same voter]
      intro noValidator
      simp [signedPower, noValidator] at weighs
  · exact absurd rfl weighs

theorem votePower_tally (staking : Staking) (store : BudgetStore) (programID other : ℕ) :
    votePower staking (tally staking store programID).2 other =
      votePower staking store other := by
  apply votePower_congr
  intro voter isValidator
  rw [get_tally, if_neg]
  rintro ⟨_, _, noValidator⟩
  exact isValidator noValidator

/-- The order in which the votes are visited does not matter. -/
theorem foldl_tallyVote_perm (staking : Staking) (programID : ℕ)
    {first second : List (Address × Bool)} (perm : first.Perm second) (power : ℤ)
    (store : BudgetStore) :
    first.foldl (tallyVote staking programID) (power, store) =
      second.foldl (tallyVote staking programID) (power, store) := by
  have sameSum := (perm.map fun vote => signedPower staking vote.1 vote.2).sum_eq
  have sameKeys : (staleKeys staking programID first).Perm (staleKeys staking programID second) :=
    ((perm.filter _).map _).map _
  have sameVotes : Store.eraseAll store.votes (staleKeys staking programID first) =
      Store.eraseAll store.votes (staleKeys staking programID second) := by
    apply Store.ext_get
    intro key
    rw [Store.get_eraseAll, Store.get_eraseAll]
    by_cases listed : key ∈ staleKeys staking programID first
    · rw [if_pos listed, if_pos (sameKeys.mem_iff.mp listed)]
    · rw [if_neg listed, if_neg fun other => listed (sameKeys.mem_iff.mpr other)]
  rw [tallyVotes_eq, tallyVotes_eq, sameSum]
  simp only [sameVotes]

end TerraCore.Budget
