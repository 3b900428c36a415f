import TerraCore.Budget.KeyedPhases

/-!
# Tallies over the keys of votes

`AddVote` and `InitGenesis` store a vote for any bytes as its voter, under a key
that shows them in bech32. A tally scans the keys of one program. It counts the
votes of all validators, but skips a key whose voter is not read back, so that
this vote stays when its voter is no validator.
-/

namespace TerraCore.Budget

theorem keyVote_account_injective :
    Function.Injective fun key : ℕ × Address =>
      Keyed.keyVote AddressCodec.account key.1 key.2 := by
  intro first second same
  rcases (keyVote_eq_iff AddressCodec.account).mp same with ⟨programEq, voterEq⟩
  exact Prod.ext programEq (printBech32_injective _ voterEq)

theorem colon_not_mem_print_account (voter : Address) : colon ∉ AddressCodec.account.print voter :=
  colon_not_mem_printBech32 (by decide) voter

/-- The votes of the flat store are those of the model; other keys may hold anything. -/
def HasVotes (flat : Flat) (votes : Store (ℕ × Address) Bool) : Prop :=
  Store.Holds Set.univ
    (fun key : ℕ × Address => Keyed.keyVote AddressCodec.account key.1 key.2)
    (fun text => Keyed.prefixVote <+: text) flat.store fun key => votes[key]?.map .option

section Section

variable {flat : Flat} {store : BudgetStore} {votes : Store (ℕ × Address) Bool}

theorem hasVotes_initial (params : Params) :
    HasVotes ⟨params, ∅⟩ (BudgetStore.initial params).votes where
  within := fun _ _ _ => Set.mem_univ _
  entries := by
    intro text record _
    simp [BudgetStore.initial]

theorem HasVotes.addVote (hasVotes : HasVotes flat store.votes) (programID : ℕ) (voter : Address)
    (option : Bool) : HasVotes (flat.addVote AddressCodec.account programID voter option)
      (store.addVote programID voter option).votes := by
  have afterEq : ∀ key : ℕ × Address,
      (store.addVote programID voter option).votes[key]?.map Record.option =
        if (programID, voter) = key then some (.option option)
        else store.votes[key]?.map .option := by
    intro key
    rw [BudgetStore.get_addVote]
    split <;> rfl
  have inserted := Store.Holds.insert hasVotes keyVote_account_injective.injOn
    (Set.mem_univ (programID, voter)) afterEq
  exact inserted

/-- A flat store has the votes of one model only. -/
theorem HasVotes.unique (hasVotes : HasVotes flat votes) {other : Store (ℕ × Address) Bool}
    (hasOther : HasVotes flat other) : votes = other := by
  have found : ∀ {entries : Store (ℕ × Address) Bool}, HasVotes flat entries →
      ∀ key : ℕ × Address, flat.store[Keyed.keyVote AddressCodec.account key.1 key.2]? =
        entries[key]?.map .option := fun has key =>
    has.get keyVote_account_injective.injOn (Set.mem_univ key) (prefixVote_starts _ key.1 key.2)
  apply Store.ext_get
  intro key
  have same := (found hasVotes key).symm.trans (found hasOther key)
  cases left : votes[key]? <;> cases right : other[key]? <;> simp_all

/-- The scan for a program finds its votes. -/
theorem HasVotes.scan (hasVotes : HasVotes flat votes) (programID : ℕ) :
    ∃ listed : List (Address × Bool), listed.Nodup ∧
      (∀ vote, vote ∈ listed ↔ votes[(programID, vote.1)]? = some vote.2) ∧
      Store.scan flat.store (Keyed.keyVote AddressCodec.account programID []) =
        listed.map fun vote =>
          (Keyed.keyVote AddressCodec.account programID vote.1, .option vote.2) := by
  have covers : ∀ (key : ℕ × Address) (record : Record),
      (votes[key]?.map Record.option = some record ∧
        Keyed.keyVote AddressCodec.account programID [] <+:
          Keyed.keyVote AddressCodec.account key.1 key.2) ↔
        ∃ vote : Address × Bool, ((programID, vote.1), Record.option vote.2) = (key, record) ∧
          votes[(programID, vote.1)]? = some vote.2 := by
    rintro ⟨other, voter⟩ record
    rw [keyVote_prefix_iff _ programID other (colon_not_mem_print_account voter)]
    constructor
    · rintro ⟨stored, rfl⟩
      rcases Option.map_eq_some_iff.mp stored with ⟨option, present, rfl⟩
      exact ⟨(voter, option), rfl, present⟩
    · rintro ⟨⟨_, _⟩, same, present⟩
      cases same
      exact ⟨by simp [present], rfl⟩
  have embeds : Function.Injective fun vote : Address × Bool =>
      (((programID, vote.1) : ℕ × Address), Record.option vote.2) := by
    rintro ⟨first, option⟩ ⟨second, choice⟩ same
    simpa using same
  exact Store.Holds.exists_items hasVotes keyVote_account_injective.injOn
    (Store.nodup_scan flat.store _)
    (fun text starts => (prefixVote_starts AddressCodec.account programID []).trans starts)
    (Store.mem_scan_iff flat.store _) _ embeds _ covers

/-- A key is skipped when its voter is not read back. -/
theorem HasVotes.visits (hasVotes : HasVotes flat votes) {programID : ℕ}
    (bound : programID < 2 ^ 64) :
    ∃ visited : List (Address × Bool), visited.Nodup ∧
      (∀ vote, vote ∈ visited ↔
        Readable vote.1 ∧ votes[(programID, vote.1)]? = some vote.2) ∧
      flat.iterateVotesWithPrefix AddressCodec.account
        (Keyed.keyVote AddressCodec.account programID []) =
          some (visited.map fun vote => (programID, vote)) := by
  rcases hasVotes.scan programID with ⟨listed, distinct, entries, scanEq⟩
  refine ⟨listed.filter fun vote => Readable vote.1, distinct.filter _, ?_, ?_⟩
  · intro vote
    rw [List.mem_filter, entries, decide_eq_true_eq, and_comm]
  · have decoded : (Store.scan flat.store
        (Keyed.keyVote AddressCodec.account programID [])).mapM
          (Flat.readVote AddressCodec.account) =
            some (listed.map fun vote => (accAddressFromBech32 vote.1).map fun voter =>
              (programID, voter, vote.2)) := by
      rw [scanEq]
      apply Store.mapM_map_eq_some
      intro vote _
      rw [readVote_keyVote _ bound (colon_not_mem_print_account vote.1)]
      exact congrArg (fun read => some (read.map fun voter => (programID, voter, vote.2)))
        (parseBech32_printBech32 _ vote.1)
    rw [Flat.iterateVotesWithPrefix, decoded, Option.map_some, Option.some.injEq]
    clear decoded scanEq entries distinct
    induction listed with
    | nil => rfl
    | cons vote listed ih =>
        by_cases readable : Readable vote.1
        · have read : accAddressFromBech32 vote.1 = some vote.1 := if_pos readable
          simp [read, readable, ih]
        · have skipped : accAddressFromBech32 vote.1 = none := if_neg readable
          simp [skipped, readable, ih]

/-- The store without the votes of some voters on a program. -/
def Flat.withoutVotes (flat : Flat) (programID : ℕ) (voters : List Address) : Flat where
  params := flat.params
  store := Store.eraseAll flat.store (voters.map (Keyed.keyVote AddressCodec.account programID))

theorem flat_foldl_deleteVote (programID : ℕ) (voters : List Address) (flat : Flat) :
    voters.foldl (fun flat voter => flat.deleteVote AddressCodec.account programID voter) flat =
      flat.withoutVotes programID voters :=
  foldl_erase (Keyed.keyVote AddressCodec.account programID) voters flat

/-- A tally returns the power of the program and the bonded tokens, and erases the
keys of the votes that are stale. -/
theorem HasVotes.tally (staking : Staking) (hasVotes : HasVotes flat store.votes) {programID : ℕ}
    (bound : programID < 2 ^ 64) :
    ∃ voters : List Address,
      (∀ voter, voter ∈ voters ↔ Stale staking programID (programID, voter) ∧
        ∃ option, store.votes[(programID, voter)]? = some option) ∧
      flat.tally AddressCodec.account staking programID =
        some ((votePower staking store programID, staking.bondedTokens),
          flat.withoutVotes programID voters) := by
  rcases hasVotes.visits bound with ⟨visited, distinct, entries, visits⟩
  refine ⟨staleVoters staking visited, ?_, ?_⟩
  · intro voter
    rw [mem_staleVoters_iff]
    constructor
    · rintro ⟨noValidator, option, listed⟩
      rcases (entries _).mp listed with ⟨readable, stored⟩
      exact ⟨⟨rfl, readable, noValidator⟩, option, stored⟩
    · rintro ⟨⟨-, readable, noValidator⟩, option, stored⟩
      exact ⟨noValidator, option, (entries _).mpr ⟨readable, stored⟩⟩
  · have perm : visited.Perm (store.votesOn programID) := by
      apply (List.perm_ext_iff_of_nodup distinct (votesOn_nodup store programID)).mpr
      intro vote
      rw [entries, mem_votesOn_iff]
    have power : (visited.map fun vote => signedPower staking vote.1 vote.2).sum =
        votePower staking store programID := by
      rw [← votesOn_power]
      exact (perm.map _).sum_eq
    have counts : (fun state vote =>
        Flat.tallyVote AddressCodec.account staking programID state (programID, vote)) =
        countVote staking fun flat voter =>
          flat.deleteVote AddressCodec.account programID voter := rfl
    simp only [Flat.tally, visits, Option.bind_eq_bind, Option.bind_some, List.foldl_map, counts,
      foldl_countVote, flat_foldl_deleteVote, power, zero_add]

/-- The votes that are left are those of the tally of the model. -/
theorem HasVotes.tallied (staking : Staking) (hasVotes : HasVotes flat store.votes)
    {programID : ℕ} {voters : List Address}
    (stale : ∀ voter, voter ∈ voters ↔ Stale staking programID (programID, voter) ∧
      ∃ option, store.votes[(programID, voter)]? = some option) :
    HasVotes (flat.withoutVotes programID voters)
      (Budget.tally staking store programID).2.votes := by
  apply Store.Holds.eraseAll hasVotes
  rintro ⟨other, voter⟩
  have listed : Keyed.keyVote AddressCodec.account other voter ∈
      voters.map (Keyed.keyVote AddressCodec.account programID) ↔
        other = programID ∧ voter ∈ voters := by
    rw [List.mem_map]
    constructor
    · rintro ⟨found, foundMem, same⟩
      have key : (programID, found) = (other, voter) := keyVote_account_injective same
      cases key
      exact ⟨rfl, foundMem⟩
    · rintro ⟨rfl, voterMem⟩
      exact ⟨voter, voterMem, rfl⟩
  simp only [get_tally, listed, stale]
  cases present : store.votes[(other, voter)]? with
  | none => simp
  | some option =>
      by_cases isStale : Stale staking programID (other, voter)
      · have here : other = programID := isStale.1
        subst here
        simp [isStale, present]
      · rw [if_neg isStale, if_neg]
        rintro ⟨rfl, staleVoter, -⟩
        exact isStale staleVoter

end Section

/-- A tally returns what the votes of validators on the program weigh and the bonded
tokens, deletes the votes on it of those who are no validators, changes nothing
else, does the same when it is repeated, and reads no vote on another program. -/
structure TallyExact (staking : Staking) (flat : Flat) (store : BudgetStore) (programID : ℕ) :
    Prop where
  tallies : ∃ after,
    flat.tally AddressCodec.account staking programID =
        some ((votePower staking store programID, staking.bondedTokens), after) ∧
      (∃ remaining : Store (ℕ × Address) Bool, HasVotes after remaining ∧
        ∀ key : ℕ × Address, remaining[key]? =
          if key.1 = programID ∧ staking.validator key.2 = none then none
          else store.votes[key]?) ∧
      after.params = flat.params ∧
      (∀ text, ¬Keyed.prefixVote <+: text → after.store[text]? = flat.store[text]?) ∧
      after.tally AddressCodec.account staking programID =
        some ((votePower staking store programID, staking.bondedTokens), after)
  isolated : ∀ (other : Flat) (otherStore : BudgetStore), HasVotes other otherStore.votes →
    (∀ voter : Address,
      otherStore.votes[(programID, voter)]? = store.votes[(programID, voter)]?) →
    (other.tally AddressCodec.account staking programID).map Prod.fst =
      (flat.tally AddressCodec.account staking programID).map Prod.fst

section Exact

variable {staking : Staking} {flat : Flat} {store : BudgetStore} {programID : ℕ}

/-- What an exact tally deletes has been read back. -/
theorem TallyExact.readable (exact : TallyExact staking flat store programID)
    (hasVotes : HasVotes flat store.votes) (bound : programID < 2 ^ 64) {voter : Address}
    {option : Bool} (stored : store.votes[(programID, voter)]? = some option)
    (noValidator : staking.validator voter = none) : Readable voter := by
  rcases exact.tallies with ⟨after, tallies, ⟨remaining, hasRemaining, deleted⟩, -⟩
  rcases hasVotes.tally staking bound with ⟨voters, stale, talliesAlso⟩
  cases tallies.symm.trans talliesAlso
  have same := hasRemaining.unique (hasVotes.tallied staking stale)
  have gone := deleted (programID, voter)
  rw [if_pos ⟨rfl, noValidator⟩, same, get_tally] at gone
  split at gone
  · next isStale => exact isStale.2.1
  · rw [stored] at gone
    cases gone

theorem tallyExact_of_readable (hasVotes : HasVotes flat store.votes) (bound : programID < 2 ^ 64)
    (readable : ∀ (voter : Address) (option : Bool),
      store.votes[(programID, voter)]? = some option → staking.validator voter = none →
        Readable voter) : TallyExact staking flat store programID := by
  rcases hasVotes.tally staking bound with ⟨voters, stale, tallies⟩
  have hasRemaining := hasVotes.tallied staking stale
  constructor
  · refine ⟨_, tallies, ⟨_, hasRemaining, ?_⟩, rfl, ?_, ?_⟩
    · rintro ⟨other, voter⟩
      rw [get_tally]
      by_cases gone : other = programID ∧ staking.validator voter = none
      · rw [if_pos gone]
        rcases gone with ⟨rfl, noValidator⟩
        cases present : store.votes[(other, voter)]? with
        | none => simp
        | some option =>
            exact if_pos ⟨rfl, readable voter option present noValidator, noValidator⟩
      · rw [if_neg gone, if_neg fun isStale => gone ⟨isStale.1, isStale.2.2⟩]
    · intro text outside
      rw [Flat.withoutVotes, Store.get_eraseAll, if_neg]
      intro listed
      rcases List.mem_map.mp listed with ⟨voter, -, rfl⟩
      exact outside (prefixVote_starts _ programID voter)
    · -- Nothing is stale any more.
      rcases hasRemaining.tally staking bound with ⟨voters', stale', again⟩
      have nobody : voters' = [] := by
        apply List.eq_nil_iff_forall_not_mem.mpr
        intro voter listed
        rcases (stale' voter).mp listed with ⟨isStale, option, present⟩
        rw [get_tally, if_pos isStale] at present
        cases present
      rw [again, nobody, votePower_tally]
      rfl
  · intro other otherStore hasOther same
    rcases hasOther.tally staking bound with ⟨_, -, otherTallies⟩
    rw [tallies, otherTallies]
    simp only [Option.map_some]
    rw [votePower_congr staking fun voter _ => same voter]

/-- A tally is exact exactly when all voters on the program that are no validators
are read back from the keys of their votes. -/
theorem tally_exact_iff (staking : Staking) {flat : Flat} {store : BudgetStore}
    (hasVotes : HasVotes flat store.votes) (programID : UInt64) :
    TallyExact staking flat store programID.toNat ↔
      ∀ (voter : Address) (option : Bool),
        store.votes[(programID.toNat, voter)]? = some option →
          staking.validator voter = none → voter = [] ∨ voter.length = addrLen :=
  ⟨fun exact _ _ stored noValidator =>
      exact.readable hasVotes programID.toNat_lt stored noValidator,
    fun readable => tallyExact_of_readable hasVotes programID.toNat_lt readable⟩

end Exact

/-- A validator and a former validator vote on program 1, and the validator on program 12. -/
def votedStore : BudgetStore :=
  (((BudgetStore.initial sampleParams).addVote 1 (List.replicate 20 1) true).addVote
    1 (List.replicate 20 5) false).addVote 12 (List.replicate 20 1) false

def votedFlat : Flat :=
  (((⟨sampleParams, ∅⟩ : Flat).addVote AddressCodec.account 1 (List.replicate 20 1) true).addVote
    AddressCodec.account 1 (List.replicate 20 5) false).addVote
      AddressCodec.account 12 (List.replicate 20 1) false

theorem votedFlat_hasVotes : HasVotes votedFlat votedStore.votes :=
  (((hasVotes_initial sampleParams).addVote 1 _ true).addVote 1 _ false).addVote 12 _ false

theorem votedStore_addressed : ∀ (key : ℕ × Address) (option : Bool),
    votedStore.votes[key]? = some option → key.2.length = addrLen := by
  refine Store.forall_get_insert (Store.forall_get_insert (Store.forall_get_insert ?_ rfl) rfl) rfl
  intro key option present
  simp [BudgetStore.initial] at present

theorem tally_exact_iff_votedStore :
    TallyExact sampleStaking votedFlat votedStore 1 ∧
      votePower sampleStaking votedStore 1 = 10 ∧
      sampleStaking.validator (List.replicate 20 5) = none := by
  refine ⟨(tally_exact_iff sampleStaking votedFlat_hasVotes 1).mpr ?_, by decide +kernel, by decide⟩
  intro voter option stored _
  exact readable_of_length (votedStore_addressed _ option stored)

/-- A vote whose voter has one byte. -/
def strayFlat : Flat := (⟨sampleParams, ∅⟩ : Flat).addVote AddressCodec.account 1 [7] true

def strayStore : BudgetStore := (BudgetStore.initial sampleParams).addVote 1 [7] true

/-- The vote stays although its voter is no validator. -/
theorem stray_vote_stays :
    HasVotes strayFlat strayStore.votes ∧ sampleStaking.validator [7] = none ∧
      strayStore.votes[((1 : ℕ), ([7] : Address))]? = some true ∧
      ((strayFlat.tally AddressCodec.account sampleStaking 1).map fun outcome =>
        (outcome.1, outcome.2.store[Keyed.keyVote AddressCodec.account 1 [7]]?)) =
          some ((0, 20), some (.option true)) ∧
      ¬TallyExact sampleStaking strayFlat strayStore 1 := by
  have hasVotes : HasVotes strayFlat strayStore.votes :=
    (hasVotes_initial sampleParams).addVote 1 [7] true
  have stored : strayStore.votes[((1 : ℕ), ([7] : Address))]? = some true := by decide +kernel
  refine ⟨hasVotes, by decide, stored, by decide +kernel, ?_⟩
  intro exact
  have readable := exact.readable hasVotes (by decide) stored (by decide)
  exact absurd readable (by decide)

end TerraCore.Budget
