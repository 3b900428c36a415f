import TerraCore.Budget.Executors
import TerraCore.Budget.Keys
import TerraCore.Library.Lockstep

/-!
# The end blocker on the flat store

The loops of the end blocker visit programs and candidates in the order of their
keys: program 10 comes before program 2. They call the keeper, which writes the
flat store while they run. What they leave are the records of the typed model,
whose loops visit programs and candidates in the order of their numbers, because
each program is settled by its own records.
-/

namespace TerraCore.Budget

namespace Flat

variable (codec : AddressCodec) (prefixEndBytes : Bytes → Option Bytes) (staking : Staking)

/-- The handler of `tally`. -/
def tallyVote (targetProgramID : ℕ) (state : ℤ × Flat) (vote : ℕ × Address × Bool) : ℤ × Flat :=
  match staking.validator vote.2.1 with
  | some bondSize => (if vote.2.2 then state.1 + bondSize else state.1 - bondSize, state.2)
  | none => (state.1, state.2.deleteVote codec targetProgramID vote.2.1)

/-- `tally`: vote power and total power, and the store after it. -/
def tally (flat : Flat) (targetProgramID : ℕ) : Option ((ℤ × ℕ) × Flat) := do
  let votes ← flat.iterateVotesWithPrefix codec (Keyed.keyVote codec targetProgramID [])
  let (votePower, tallied) := votes.foldl (tallyVote codec staking targetProgramID) (0, flat)
  some ((votePower, staking.bondedTokens), tallied)

def dropProgram (flat : Flat) (programID : ℕ) : Flat :=
  (flat.deleteVotesForProgram codec programID).deleteProgram programID

/-- The handler of the loop over the expired candidates. -/
def decideCandidate (flat : Flat) (programID : ℕ) : Option Flat := do
  match ← flat.getProgram programID with
  | none => some flat
  | some program =>
      let ((votePower, totalPower), tallied) ← flat.tally codec staking programID
      let decided :=
        if ClearsThreshold votePower totalPower flat.params.activeThreshold then tallied
        else tallied.dropProgram codec programID
      some (decided.candQueueRemove (program.getVotingEndBlock flat.params) programID)

def decideCandidates (height : ℕ) (flat : Flat) : Option Flat := do
  let candidates ← flat.candQueueIterateExpired prefixEndBytes height
  candidates.foldlM (decideCandidate codec staking) flat

/-- The handler of the loop over the active programs. -/
def weighProgram (state : List (Claim ℤ) × Flat) (program : Program) :
    Option (List (Claim ℤ) × Flat) :=
  let (claims, flat) := state
  if flat.candQueueHas (program.getVotingEndBlock flat.params) program.programID then some state
  else do
    let ((votePower, totalPower), tallied) ← flat.tally codec staking program.programID
    if ClearsThreshold votePower totalPower flat.params.legacyThreshold then
      some (claims ++ [⟨votePower, program.executor⟩], tallied)
    else some (claims, tallied.dropProgram codec program.programID)

def weighPrograms (flat : Flat) : Option Flat := do
  let programs ← flat.programs
  let (claims, flat) ← programs.foldlM (weighProgram codec staking) ([], flat)
  flat.addClaimPool codec claims

end Flat

section Iterators

variable {codec : AddressCodec} {flat : Flat} {store : BudgetStore}

theorem readClaim_keyClaim {recipient : Address} (addressed : recipient.length = addrLen)
    (weight : ℤ) :
    Flat.readClaim codec (Keyed.keyClaim codec recipient, .weight weight) =
      some (recipient, weight) := by
  have joined : Keyed.keyClaim codec recipient =
      [colon].intercalate [Keyed.prefixClaim, codec.print recipient] := by
    simp [Keyed.keyClaim, ascii_colon, List.intercalate]
  have fields : (Keyed.keyClaim codec recipient).splitOn colon =
      [Keyed.prefixClaim, codec.print recipient] := by
    rw [joined]
    apply List.splitOn_intercalate
    · intro field listed
      simp only [List.mem_cons, List.not_mem_nil, or_false] at listed
      rcases listed with rfl | rfl
      · decide
      · exact codec.printed.noColon addressed
    · simp
  simp [Flat.readClaim, Record.asWeight, fields, codec.parse_print addressed]

/-- An iterator over keys that start like those of votes finds the votes with such keys. -/
theorem Keeps.visitsVotes (keeps : Keeps codec flat store) {start : Bytes}
    (isVote : Keyed.prefixVote <+: start) :
    ∃ visited : List (ℕ × Address × Bool), visited.Nodup ∧
      (∀ vote, vote ∈ visited ↔ store.votes[(vote.1, vote.2.1)]? = some vote.2.2 ∧
        start <+: Keyed.keyVote codec vote.1 vote.2.1) ∧
      flat.iterateVotesWithPrefix codec start = some visited := by
  have covers : ∀ key record, (contents store key = some record ∧ start <+: key.bytes codec) ↔
      ∃ vote : ℕ × Address × Bool, (Key.vote vote.1 vote.2.1, Record.option vote.2.2) =
        (key, record) ∧ store.votes[(vote.1, vote.2.1)]? = some vote.2.2 ∧
          start <+: Keyed.keyVote codec vote.1 vote.2.1 := by
    intro key record
    constructor
    · rintro ⟨stored, starts⟩
      have isKind := (Key.starts_iff codec .vote key).mp (isVote.trans starts)
      cases key <;> cases isKind
      rcases Option.map_eq_some_iff.mp stored with ⟨option, present, rfl⟩
      exact ⟨(_, _, option), rfl, present, starts⟩
    · rintro ⟨vote, same, present, starts⟩
      cases same
      exact ⟨by simp [contents, present], starts⟩
  rcases keeps.records.exists_items (Key.bytes_sound_injOn codec)
    (Store.nodup_scan flat.store start) (fun _ _ => trivial) (Store.mem_scan_iff flat.store start)
    _ (by rintro ⟨_, _, _⟩ ⟨_, _, _⟩ same; simpa [and_assoc] using same) _ covers with
    ⟨visited, distinct, entries, scanEq⟩
  refine ⟨visited, distinct, entries, ?_⟩
  have decoded : (Store.scan flat.store start).mapM (Flat.readVote codec) =
      some (visited.map some) := by
    rw [scanEq]
    apply Store.mapM_map_eq_some
    intro vote listed
    have stored := ((entries vote).mp listed).1
    have sound : (Key.vote vote.1 vote.2.1).Sound :=
      keeps.records.within (.vote vote.1 vote.2.1) (.option vote.2.2) (by simp [contents, stored])
    have read := readVote_keyVote codec sound.1 (codec.printed.noColon sound.2) vote.2.2
    rw [codec.parse_print sound.2] at read
    exact read
  rw [Flat.iterateVotesWithPrefix, decoded]
  simp [List.reduceOption]

/-- The votes on a program. -/
theorem Keeps.visitsVotesOn (keeps : Keeps codec flat store) (programID : ℕ) :
    ∃ visited : List (ℕ × Address × Bool), visited.Nodup ∧
      (∀ vote, vote ∈ visited ↔
        vote.1 = programID ∧ store.votes[(programID, vote.2.1)]? = some vote.2.2) ∧
      flat.iterateVotesWithPrefix codec (Keyed.keyVote codec programID []) = some visited := by
  rcases keeps.visitsVotes (prefixVote_starts codec programID []) with
    ⟨visited, distinct, entries, visits⟩
  refine ⟨visited, distinct, ?_, visits⟩
  rintro ⟨other, voter, option⟩
  rw [entries]
  constructor
  · rintro ⟨stored, starts⟩
    have sound := keeps.records.within (.vote other voter) (.option option)
      (by simp [contents, stored])
    have here := (keyVote_prefix_iff codec programID other (codec.printed.noColon sound.2)).mp starts
    subst here
    exact ⟨rfl, stored⟩
  · rintro ⟨here, stored⟩
    simp only at here
    subst here
    have sound := keeps.records.within (.vote other voter) (.option option)
      (by simp [contents, stored])
    exact ⟨stored, (keyVote_prefix_iff codec other other (codec.printed.noColon sound.2)).mpr rfl⟩

/-- All programs, in the order of their keys. -/
theorem Keeps.visitsPrograms (keeps : Keeps codec flat store) :
    ∃ visited : List Program, visited.Perm (programsOf store) ∧
      flat.programs = some visited := by
  have covers : ∀ key record,
      (contents store key = some record ∧ Keyed.prefixProgram <+: key.bytes codec) ↔
        ∃ program : Program, (Key.program program.programID, Record.program program) =
          (key, record) ∧ store.programs[program.programID]? = some program := by
    intro key record
    constructor
    · rintro ⟨stored, starts⟩
      have isKind := (Key.starts_iff codec .program key).mp starts
      cases key <;> cases isKind
      rcases Option.map_eq_some_iff.mp stored with ⟨program, present, rfl⟩
      have keyed := store.programs_keyed _ _ present
      subst keyed
      exact ⟨program, rfl, present⟩
    · rintro ⟨program, same, present⟩
      cases same
      exact ⟨by simp [contents, present], (Key.starts_iff codec .program (.program _)).mpr rfl⟩
  rcases keeps.records.exists_items (Key.bytes_sound_injOn codec)
    (Store.nodup_scan flat.store Keyed.prefixProgram) (fun _ _ => trivial)
    (Store.mem_scan_iff flat.store Keyed.prefixProgram) _
    (fun _ _ same => Record.program.inj (Prod.mk.inj same).2) _ covers with
    ⟨visited, distinct, entries, scanEq⟩
  refine ⟨visited, ?_, ?_⟩
  · apply (List.perm_ext_iff_of_nodup distinct ((programsOf_distinct store).of_map _)).mpr
    intro program
    rw [entries, mem_programsOf_iff]
  · have decoded : (Store.scan flat.store Keyed.prefixProgram).mapM
        (fun entry => entry.2.asProgram) = some (visited.map id) := by
      rw [scanEq]
      apply Store.mapM_map_eq_some
      exact fun _ _ => rfl
    rw [Flat.programs, decoded, List.map_id]

/-- All candidates, in the order of their end blocks. -/
theorem Keeps.visitsQueue (keeps : Keeps codec flat store) :
    ∃ visited : List (ℤ × ℕ), visited.Nodup ∧
      (∀ candidate, candidate ∈ visited ↔ store.candQueue[candidate]? = some candidate.2) ∧
      visited.Pairwise (fun first second => first.1 ≤ second.1) ∧
      flat.candQueueIterate = some (visited.map Prod.snd) := by
  rcases keeps.represents.visits (Store.pairwise_scan flat.store Keyed.prefixCandQueue)
    (fun _ starts => starts) (Store.mem_scan_iff flat.store Keyed.prefixCandQueue) with
    ⟨visited, distinct, entries, ordered, visitedEq⟩
  refine ⟨visited, distinct, ?_, ordered, ?_⟩
  · intro candidate
    rw [entries]
    exact and_iff_left (prefixCandQueue_starts _ _)
  · rw [Flat.candQueueIterate, visitedEq]
    apply Store.mapM_map_eq_some
    exact fun _ _ => rfl

/-- The candidates whose vote has ended. -/
theorem Keeps.visitsExpired (keeps : Keeps codec flat store)
    {prefixEndBytes : Bytes → Option Bytes} (prefixEnds : PrefixEnds prefixEndBytes)
    {endBlock : ℤ} (nonneg : 0 ≤ endBlock) (block : endBlock < 2 ^ 63) :
    ∃ visited : List ℕ, visited.Perm (store.expiredCandidates endBlock) ∧
      flat.candQueueIterateExpired prefixEndBytes endBlock = some visited := by
  rcases keeps.represents.iterates prefixEnds nonneg block with
    ⟨visited, distinct, entries, -, iterates⟩
  refine ⟨visited.map Prod.snd, visited_perm_expired distinct entries, ?_⟩
  rw [Flat.candQueueIterateExpired, iterates, Store.visit_of_endless]
  simp only [List.foldl_append_eq_append, List.nil_append, ← List.flatMap_def,
    List.flatMap_singleton']

/-- The claims, in the order of their keys. -/
theorem Keeps.visitsClaims (keeps : Keeps codec flat store) :
    ∃ visited : List (Address × ℤ), visited.Nodup ∧
      (∀ claim, claim ∈ visited ↔ store.claims[claim.1]? = some claim.2) ∧
      flat.iterateClaimPool codec = some visited := by
  have covers : ∀ key record,
      (contents store key = some record ∧ Keyed.prefixClaim <+: key.bytes codec) ↔
        ∃ claim : Address × ℤ, (Key.claim claim.1, Record.weight claim.2) = (key, record) ∧
          store.claims[claim.1]? = some claim.2 := by
    intro key record
    constructor
    · rintro ⟨stored, starts⟩
      have isKind := (Key.starts_iff codec .claim key).mp starts
      cases key <;> cases isKind
      rcases Option.map_eq_some_iff.mp stored with ⟨weight, present, rfl⟩
      exact ⟨(_, weight), rfl, present⟩
    · rintro ⟨claim, same, present⟩
      cases same
      exact ⟨by simp [contents, present], (Key.starts_iff codec .claim (.claim _)).mpr rfl⟩
  rcases keeps.records.exists_items (Key.bytes_sound_injOn codec)
    (Store.nodup_scan flat.store Keyed.prefixClaim) (fun _ _ => trivial)
    (Store.mem_scan_iff flat.store Keyed.prefixClaim) _
    (by rintro ⟨_, _⟩ ⟨_, _⟩ same; simpa using same) _ covers with
    ⟨visited, distinct, entries, scanEq⟩
  refine ⟨visited, distinct, entries, ?_⟩
  have decoded : (Store.scan flat.store Keyed.prefixClaim).mapM (Flat.readClaim codec) =
      some (visited.map id) := by
    rw [scanEq]
    apply Store.mapM_map_eq_some
    intro claim listed
    have stored := (entries claim).mp listed
    apply readClaim_keyClaim
    exact keeps.records.within (.claim claim.1) (.weight claim.2) (by simp [contents, stored])
  rw [Flat.iterateClaimPool, decoded, List.map_id]

end Iterators

section Deletions

variable {codec : AddressCodec} {flat : Flat} {store : BudgetStore}

theorem foldl_erase {τ : Type} (key : τ → Bytes) (items : List τ) (flat : Flat) :
    items.foldl (fun flat item => flat.erase (key item)) flat =
      { flat with store := Store.eraseAll flat.store (items.map key) } := by
  induction items generalizing flat with
  | nil => rfl
  | cons item items ih =>
      rw [List.foldl_cons, ih]
      rfl

theorem Keeps.deleteVotesForProgram (keeps : Keeps codec flat store) (programID : ℕ) :
    Keeps codec (flat.deleteVotesForProgram codec programID)
      (store.deleteVotesForProgram programID) := by
  rw [Flat.deleteVotesForProgram, foldl_erase]
  refine ⟨keeps.params, ?_⟩
  apply keeps.records.eraseAll
  have listed : ∀ text, text ∈ (Store.scan flat.store (Keyed.keyVote codec programID [])).map
      Prod.fst → Keyed.keyVote codec programID [] <+: text := by
    intro text textMem
    rcases List.mem_map.mp textMem with ⟨entry, entryMem, rfl⟩
    exact ((Store.mem_scan_iff _ _ entry).mp entryMem).2
  intro key
  cases key with
  | vote other voter =>
      simp only [contents, BudgetStore.get_deleteVotesForProgram]
      cases stored : store.votes[(other, voter)]? with
      | none => simp
      | some option =>
          have present : contents store (.vote other voter) = some (.option option) := by
            simp [contents, stored]
          have sound := keeps.records.within _ _ present
          by_cases here : programID = other
          · rw [if_pos here.symm, if_pos]
            · rfl
            · apply List.mem_map.mpr
              refine ⟨(Keyed.keyVote codec other voter, .option option), ?_, rfl⟩
              apply (Store.mem_scan_iff _ _ _).mpr
              exact ⟨(keeps.get (.vote other voter) sound).trans present,
                (keyVote_prefix_iff codec programID other (codec.printed.noColon sound.2)).mpr here⟩
          · rw [if_neg (Ne.symm here), if_neg]
            intro textMem
            exact here ((keyVote_prefix_iff codec programID other
              (codec.printed.noColon sound.2)).mp (listed _ textMem))
  | _ =>
      rw [if_neg]
      · rfl
      · intro textMem
        have starts := (prefixVote_starts codec programID []).trans (listed _ textMem)
        cases (Key.starts_iff codec .vote _).mp starts

/-- All claims are for addresses whose keys can be read back. -/
theorem Keeps.readable (keeps : Keeps codec flat store) (recipient : Address) (weight : ℤ)
    (present : store.claims[recipient]? = some weight) : recipient.length = addrLen :=
  keeps.records.within (.claim recipient) (.weight weight) (by simp [contents, present])

/-- The claims that are paid are those of the model, in another order. -/
theorem Keeps.iterateClaimPool (keeps : Keeps codec flat store) :
    ∃ visited : List (Address × ℤ), visited.Perm store.claimPool ∧
      flat.iterateClaimPool codec = some visited := by
  rcases keeps.visitsClaims with ⟨visited, distinct, entries, visits⟩
  refine ⟨visited, ?_, visits⟩
  have samePool : store.claimPool = store.claims.toList := by
    rw [BudgetStore.claimPool]
    conv_rhs => rw [← List.map_id store.claims.toList]
    apply List.map_congr_left
    intro claim listed
    have present := (Store.mem_toList_iff store.claims claim).mp listed
    exact Prod.ext (readBack_of_length (keeps.readable claim.1 claim.2 present)) rfl
  rw [samePool]
  apply (List.perm_ext_iff_of_nodup distinct (Store.nodup_toList _)).mpr
  intro claim
  rw [entries, Store.mem_toList_iff]

theorem Keeps.clearClaimPool (keeps : Keeps codec flat store) :
    ∃ after, flat.clearClaimPool codec = some after ∧ Keeps codec after store.clearClaimPool := by
  rcases keeps.visitsClaims with ⟨visited, distinct, entries, visits⟩
  refine ⟨_, by rw [Flat.clearClaimPool, visits]; rfl, ?_⟩
  have cleared : store.clearClaimPool.claims = ∅ := by
    apply (clearClaimPool_eq_empty_iff store).mpr
    intro recipient weight present
    exact readBack_of_length (keeps.readable recipient weight present)
  rw [foldl_erase]
  refine ⟨keeps.params, ?_⟩
  apply keeps.records.eraseAll
  intro key
  cases key with
  | claim recipient =>
      simp only [contents, cleared, Store.get_empty]
      cases present : store.claims[recipient]? with
      | none => simp
      | some weight =>
          rw [if_pos]
          · rfl
          · exact List.mem_map.mpr ⟨(recipient, weight), (entries _).mpr present, rfl⟩
  | _ =>
      rw [if_neg]
      · rfl
      · intro textMem
        rcases List.mem_map.mp textMem with ⟨claim, -, same⟩
        have starts := (Key.starts_iff codec .claim (.claim claim.1)).mpr rfl
        rw [Key.bytes, same] at starts
        cases (Key.starts_iff codec .claim _).mp starts

theorem Keeps.dropProgram (keeps : Keeps codec flat store) (programID : ℕ) :
    Keeps codec (flat.dropProgram codec programID) (dropProgram store programID) :=
  (keeps.deleteVotesForProgram programID).deleteProgram programID

end Deletions

theorem eq_of_agree {left right : BudgetStore} (agree : ∀ programID, Agree programID left right)
    (rest : SameRest left right) : left = right := by
  have programs : left.programs = right.programs :=
    Store.ext_get fun programID => (agree programID).program
  have votes : left.votes = right.votes := Store.ext_get fun key => (agree key.1).votes key.2
  have candQueue : left.candQueue = right.candQueue :=
    Store.ext_get fun key => (agree key.2).queue key.1
  rcases rest with ⟨params, nextProgramID, claims⟩
  cases left
  cases right
  simp only at programs votes candQueue params nextProgramID claims
  simp only [programs, votes, candQueue, params, nextProgramID, claims]

section Order

variable {β : Type} {part : β → ℕ} {update : BudgetStore → β → BudgetStore}

theorem foldl_sameRest (rest : ∀ store item, SameRest (update store item) store) (items : List β)
    (store : BudgetStore) : SameRest (items.foldl update store) store := by
  induction items generalizing store with
  | nil => exact ⟨rfl, rfl, rfl⟩
  | cons item items ih => exact (ih _).trans (rest store item)

/-- A loop of local updates leaves the same store whatever the order of its visits. -/
theorem foldl_eq_of_perm (framed : Locality.Framed Agree part update)
    (confined : Locality.Confined Agree part update)
    (rest : ∀ store item, SameRest (update store item) store) {first second : List β}
    (perm : first.Perm second) (distinct : (first.map part).Nodup) (store : BudgetStore) :
    first.foldl update store = second.foldl update store := by
  apply eq_of_agree
  · exact Locality.foldl_perm Agree.equivalence framed confined perm distinct store
  · have firstRest := foldl_sameRest rest first store
    have secondRest := foldl_sameRest rest second store
    exact ⟨firstRest.1.trans secondRest.1.symm, firstRest.2.1.trans secondRest.2.1.symm,
      firstRest.2.2.trans secondRest.2.2.symm⟩

end Order

theorem addClaimPool_perm (store : BudgetStore) {first second : List (Claim ℤ)}
    (perm : first.Perm second) : store.addClaimPool first = store.addClaimPool second := by
  have claims : addClaims store.claims first = addClaims store.claims second :=
    Store.accumulateAll_perm _ (perm.map _)
  simp only [BudgetStore.addClaimPool, claims]

/-- Every program has a number and a voting end block that the code has. -/
def Timely (store : BudgetStore) : Prop :=
  ∀ (programID : ℕ) (program : Program), store.programs[programID]? = some program →
    Queueable (program.getVotingEndBlock store.params, programID)

theorem Timely.of_shrinks {before after : BudgetStore} (timely : Timely before)
    (shrinks : Shrinks before after) (sameParams : after.params = before.params) :
    Timely after := by
  intro programID program present
  rw [sameParams]
  exact timely programID program (shrinks.programs programID program present)

section Loops

variable {codec : AddressCodec} {flat : Flat} {store : BudgetStore} (staking : Staking)

theorem Keeps.tallyVote (keeps : Keeps codec flat store) {programID : ℕ} (power : ℤ)
    {vote : ℕ × Address × Bool} (sound : (Key.vote programID vote.2.1).Sound) :
    (Flat.tallyVote codec staking programID (power, flat) vote).1 =
        (tallyVote staking programID (power, store) vote.2).1 ∧
      Keeps codec (Flat.tallyVote codec staking programID (power, flat) vote).2
        (tallyVote staking programID (power, store) vote.2).2 := by
  simp only [Flat.tallyVote, Budget.tallyVote]
  cases staking.validator vote.2.1 with
  | some bondSize => exact ⟨rfl, keeps⟩
  | none => exact ⟨rfl, keeps.deleteVote sound⟩

theorem Keeps.foldl_tallyVote (keeps : Keeps codec flat store) {programID : ℕ} (power : ℤ)
    {votes : List (ℕ × Address × Bool)}
    (sound : ∀ vote ∈ votes, (Key.vote programID vote.2.1).Sound) :
    (votes.foldl (Flat.tallyVote codec staking programID) (power, flat)).1 =
        ((votes.map Prod.snd).foldl (Budget.tallyVote staking programID) (power, store)).1 ∧
      Keeps codec (votes.foldl (Flat.tallyVote codec staking programID) (power, flat)).2
        ((votes.map Prod.snd).foldl (Budget.tallyVote staking programID) (power, store)).2 := by
  induction votes generalizing power flat store with
  | nil => exact ⟨rfl, keeps⟩
  | cons vote votes ih =>
      rcases List.forall_mem_cons.mp sound with ⟨here, rest⟩
      have first := keeps.tallyVote staking power here
      simp only [List.foldl_cons, List.map_cons]
      generalize Flat.tallyVote codec staking programID (power, flat) vote = flatNext at first ⊢
      generalize Budget.tallyVote staking programID (power, store) vote.2 = next at first ⊢
      rcases flatNext with ⟨flatPower, flatAfter⟩
      rcases next with ⟨nextPower, after⟩
      rcases first with ⟨rfl, keepsNext⟩
      exact ih keepsNext _ rest

/-- A tally over the keys of votes is the tally of the model. -/
theorem Keeps.tally (keeps : Keeps codec flat store) (programID : ℕ) :
    ∃ after, flat.tally codec staking programID =
        some (((Budget.tally staking store programID).1, staking.bondedTokens), after) ∧
      Keeps codec after (Budget.tally staking store programID).2 := by
  rcases keeps.visitsVotesOn programID with ⟨visited, distinct, entries, visits⟩
  have sound : ∀ vote ∈ visited, (Key.vote programID vote.2.1).Sound := by
    intro vote listed
    exact keeps.records.within (.vote programID vote.2.1) (.option vote.2.2)
      (by simp [contents, ((entries vote).mp listed).2])
  have perm : (visited.map Prod.snd).Perm (store.votesOn programID) := by
    apply (List.perm_ext_iff_of_nodup _ (votesOn_nodup store programID)).mpr
    · intro vote
      rw [mem_votesOn_iff, List.mem_map]
      constructor
      · rintro ⟨found, foundMem, rfl⟩
        exact ⟨readable_of_length (sound found foundMem).2, ((entries found).mp foundMem).2⟩
      · rintro ⟨-, stored⟩
        exact ⟨(programID, vote), (entries _).mpr ⟨rfl, stored⟩, rfl⟩
    · apply distinct.map_on
      intro first firstMem second secondMem same
      exact Prod.ext (((entries first).mp firstMem).1.trans ((entries second).mp secondMem).1.symm)
        same
  rcases keeps.foldl_tallyVote staking 0 sound with ⟨samePower, keepsAfter⟩
  rw [foldl_tallyVote_perm staking programID perm] at samePower keepsAfter
  refine ⟨_, ?_, keepsAfter⟩
  simp [Flat.tally, visits, samePower, Budget.tally]

theorem Keeps.decideCandidate (keeps : Keeps codec flat store) (timely : Timely store)
    (programID : ℕ) :
    ∃ after, flat.decideCandidate codec staking programID = some after ∧
      Keeps codec after (Budget.decideCandidate staking store programID) := by
  simp only [Flat.decideCandidate, Budget.decideCandidate, keeps.getProgram]
  cases stored : store.programs[programID]? with
  | none => exact ⟨flat, rfl, keeps⟩
  | some program =>
      rcases keeps.tally staking programID with ⟨tallied, tallyEq, keepsTallied⟩
      have queueable := timely programID program stored
      simp only [Option.bind_eq_bind, Option.bind_some, tallyEq, keeps.params]
      refine ⟨_, rfl, Keeps.candQueueRemove ?_ queueable⟩
      split
      · exact keepsTallied
      · exact keepsTallied.dropProgram programID

/-- The candidates whose vote has ended are decided as in the model. -/
theorem Keeps.decideCandidates (keeps : Keeps codec flat store) (wellFormed : WellFormed store)
    (timely : Timely store) {prefixEndBytes : Bytes → Option Bytes}
    (prefixEnds : PrefixEnds prefixEndBytes) {height : ℕ} (block : (height : ℤ) < 2 ^ 63) :
    ∃ after, flat.decideCandidates codec prefixEndBytes staking height = some after ∧
      Keeps codec after (Budget.decideCandidates staking height store) := by
  rcases keeps.visitsExpired prefixEnds (Int.natCast_nonneg height) block with
    ⟨visited, perm, visits⟩
  have distinct : (visited.map id).Nodup := by
    rw [List.map_id]
    exact perm.nodup_iff.mpr (wellFormed.expiredCandidates_nodup height)
  have loop : ∃ after, visited.foldlM (Flat.decideCandidate codec staking) flat = some after ∧
      Keeps codec after (visited.foldl (Budget.decideCandidate staking) store) ∧
        Timely (visited.foldl (Budget.decideCandidate staking) store) := by
    apply Lockstep.foldlM_follows (fun flat store => Keeps codec flat store ∧ Timely store) ?_
      ⟨keeps, timely⟩
    rintro programID - flat store ⟨keepsHere, timelyHere⟩
    rcases keepsHere.decideCandidate staking timelyHere programID with ⟨after, done, keepsAfter⟩
    exact ⟨after, done, keepsAfter, timelyHere.of_shrinks (decideCandidate_shrinks _ _ _)
      (decideCandidate_sameRest _ _ _).1⟩
  rcases loop with ⟨after, done, keepsAfter, -⟩
  rw [foldl_eq_of_perm (decideCandidate_framed staking) (decideCandidate_confined staking)
    (decideCandidate_sameRest staking) perm distinct store] at keepsAfter
  exact ⟨after, by rw [Flat.decideCandidates, visits]; exact done, keepsAfter⟩

theorem Keeps.weighProgram (keeps : Keeps codec flat store) (claims : List (Claim ℤ))
    {program : Program}
    (queueable : Queueable (program.getVotingEndBlock store.params, program.programID)) :
    ∃ after, Flat.weighProgram codec staking (claims, flat) program =
        some ((Budget.weighProgram staking (claims, store) program).1, after) ∧
      Keeps codec after (Budget.weighProgram staking (claims, store) program).2 := by
  simp only [Flat.weighProgram, Budget.weighProgram, keeps.params, keeps.candQueueHas queueable]
  split
  · exact ⟨flat, rfl, keeps⟩
  · rcases keeps.tally staking program.programID with ⟨tallied, tallyEq, keepsTallied⟩
    simp only [tallyEq, Option.bind_eq_bind, Option.bind_some]
    split
    · exact ⟨tallied, rfl, keepsTallied⟩
    · exact ⟨_, rfl, keepsTallied.dropProgram program.programID⟩

/-- The active programs are weighed as in the model. -/
theorem Keeps.weighPrograms (keeps : Keeps codec flat store) (timely : Timely store)
    (executors : Executors (fun executor => executor.length = addrLen) store) :
    ∃ after, flat.weighPrograms codec staking = some after ∧
      Keeps codec after (Budget.weighPrograms staking store) := by
  rcases keeps.visitsPrograms with ⟨visited, perm, visits⟩
  have stored : ∀ program ∈ visited, store.programs[program.programID]? = some program :=
    fun program listed => (mem_programsOf_iff store program).mp (perm.mem_iff.mp listed)
  have distinct : (visited.map Program.programID).Nodup :=
    ((perm.map _).nodup_iff).mpr (programsOf_distinct store)
  have loop : ∃ after, visited.foldlM (Flat.weighProgram codec staking) ([], flat) = some after ∧
      after.1 = (visited.foldl (Budget.weighProgram staking) ([], store)).1 ∧
      Keeps codec after.2 (visited.foldl (Budget.weighProgram staking) ([], store)).2 ∧
      (visited.foldl (Budget.weighProgram staking) ([], store)).2.params = store.params := by
    apply Lockstep.foldlM_follows
      (fun (state : List (Claim ℤ) × Flat) (image : List (Claim ℤ) × BudgetStore) =>
        state.1 = image.1 ∧ Keeps codec state.2 image.2 ∧ image.2.params = store.params)
      ?_ ⟨rfl, keeps, rfl⟩
    rintro program listed ⟨claims, flat⟩ ⟨_, current⟩ ⟨rfl, keepsHere, sameParams⟩
    have queueable := timely _ _ (stored program listed)
    rw [← sameParams] at queueable
    rcases keepsHere.weighProgram staking claims queueable with ⟨after, done, keepsAfter⟩
    refine ⟨_, done, rfl, keepsAfter, ?_⟩
    rw [weighProgram_eq, (weighed_sameRest staking current program).1, sameParams]
  rcases loop with ⟨⟨claims, weighed⟩, done, claimsEq, keepsWeighed, -⟩
  rw [foldl_weighProgram staking store [] store distinct fun program _ => Agree.refl _ store,
    List.nil_append] at claimsEq keepsWeighed
  simp only at claimsEq keepsWeighed
  rw [foldl_eq_of_perm (weighed_framed staking) (weighed_confined staking)
    (weighed_sameRest staking) perm distinct store] at keepsWeighed
  have addressed : ∀ claim ∈ claims, claim.recipient.length = addrLen := by
    intro claim listed
    rw [claimsEq] at listed
    rcases List.mem_flatMap.mp listed with ⟨program, programMem, granted⟩
    simp only [grant] at granted
    split at granted
    · cases granted
    · split at granted
      · rw [List.mem_singleton.mp granted]
        exact executors.programs _ program (stored program programMem)
      · cases granted
  rcases keepsWeighed.addClaimPool addressed with ⟨after, added, keepsAfter⟩
  refine ⟨after, ?_, ?_⟩
  · simp [Flat.weighPrograms, visits, done, added]
  · rw [claimsEq, addClaimPool_perm _ (perm.flatMap_right _)] at keepsAfter
    rw [weighPrograms_eq]
    exact keepsAfter

end Loops

end TerraCore.Budget
