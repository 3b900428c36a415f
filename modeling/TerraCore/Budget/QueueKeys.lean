import TerraCore.Budget.Keeper
import TerraCore.Genesis
import TerraCore.Library.ByteOrder
import TerraCore.Sdk.Text

/-!
# Keys of the candidate queue

The queue is a section of the module's store. A candidate is kept under the
block at which its vote ends, in twenty digits, and its program id. The
candidates whose vote has ended are found by iterating from the beginning of
the section to the end of the keys that start with the given block.

A store iterator visits the keys in byte order, from the start up to the end
exclusively. `PrefixEndBytes` and the encoding of program ids are parameters.
-/

namespace TerraCore.Budget

open ByteOrder

namespace Keyed

def prefixCandQueue : Bytes := ascii "candidate-queue"

/-- `%020d`: twenty characters at least, filled up with zeros after the sign. -/
def padded (number : ℤ) : Bytes :=
  let sign := if number < 0 then ascii "-" else []
  let digits := Decimal.print number.natAbs
  sign ++ List.replicate (20 - (sign.length + digits.length)) (Decimal.byte '0') ++ digits

def prefixCandQueueEndBlock (endBlock : ℤ) : Bytes :=
  prefixCandQueue ++ (ascii ":" ++ padded endBlock)

def keyCandidate (endBlock : ℤ) (programID : ℕ) : Bytes :=
  prefixCandQueue ++ (ascii ":" ++ padded endBlock) ++ (ascii ":" ++ Decimal.print programID)

/-- `MarshalBinaryLengthPrefixed` of a program id, and back. -/
structure IDCodec (β : Type) where
  marshal : ℕ → β
  unmarshal : β → Option ℕ
  unmarshal_marshal : ∀ programID < 2 ^ 64, unmarshal (marshal programID) = some programID

section Operations

variable {β : Type} (codec : IDCodec β) (prefixEndBytes : Bytes → Option Bytes)

def candQueueInsert (store : Store Bytes β) (endBlock : ℤ) (programID : ℕ) : Store Bytes β :=
  store.insert (keyCandidate endBlock programID) (codec.marshal programID)

def candQueueHas (store : Store Bytes β) (endBlock : ℤ) (programID : ℕ) : Bool :=
  (store[keyCandidate endBlock programID]?).isSome

def candQueueRemove (store : Store Bytes β) (endBlock : ℤ) (programID : ℕ) : Store Bytes β :=
  store.erase (keyCandidate endBlock programID)

/-- A value that is not a program id panics. -/
def candQueueIterateExpired {σ : Type} (store : Store Bytes β) (endBlock : ℤ)
    (handler : σ → ℕ → σ × Bool) (state : σ) : Option σ :=
  Store.iterate (fun entry => codec.unmarshal entry.2) handler
    (Store.range store prefixCandQueue (prefixEndBytes (prefixCandQueueEndBlock endBlock))) state

end Operations

end Keyed

/-- Of a prefix that is not bytes 255 only, `PrefixEndBytes` returns the least
key above all keys with the prefix. -/
def PrefixEnds (prefixEndBytes : Bytes → Option Bytes) : Prop :=
  ∀ start : Bytes, (∃ byte ∈ start, byte ≠ 255) →
    ∃ bound, prefixEndBytes start = some bound ∧ IsPrefixEnd start bound

theorem prefixEnds_prefixEnd : PrefixEnds prefixEnd := by
  rintro start ⟨byte, listed, notLast⟩
  rcases prefixEnd_isSome listed notLast with ⟨bound, found⟩
  exact ⟨bound, found, prefixEnd_isPrefixEnd found⟩

/-- A block height and a program id as the code has them. -/
structure Queueable (key : ℤ × ℕ) : Prop where
  nonneg : 0 ≤ key.1
  block : key.1 < 2 ^ 63
  programID : key.2 < 2 ^ 64

section Padded

variable {number other : ℤ}

theorem padded_of_nonneg (nonneg : 0 ≤ number) :
    Keyed.padded number = List.replicate (20 - (Decimal.print number.natAbs).length)
      (Decimal.byte '0') ++ Decimal.print number.natAbs := by
  simp [Keyed.padded, not_lt.mpr nonneg]

theorem length_padded (nonneg : 0 ≤ number) (block : number < 2 ^ 63) :
    (Keyed.padded number).length = 20 := by
  have short : (Decimal.print number.natAbs).length ≤ 20 := by
    rw [Decimal.print, List.length_map]
    apply Nat.toDigits_length 10 _ 20 (by decide)
    omega
  rw [padded_of_nonneg nonneg, List.length_append, List.length_replicate]
  omega

theorem value_padded (nonneg : 0 ≤ number) : Decimal.value (Keyed.padded number) = number.natAbs := by
  rw [padded_of_nonneg nonneg, Decimal.value_replicate_append_print]

theorem isDigit_of_mem_padded (nonneg : 0 ≤ number) :
    ∀ digit ∈ Keyed.padded number, Decimal.IsDigit digit := by
  intro digit listed
  rw [padded_of_nonneg nonneg] at listed
  rcases List.mem_append.mp listed with isZero | isDigit
  · rw [List.eq_of_mem_replicate isZero]
    decide
  · exact Decimal.isDigit_of_mem_print isDigit

/-- Twenty digits are in the order of the numbers. -/
theorem padded_before (nonneg : 0 ≤ number) (smaller : number < other) (block : other < 2 ^ 63) :
    Before (Keyed.padded number) (Keyed.padded other) := by
  have nonneg' : 0 ≤ other := by omega
  apply Decimal.before_of_value_lt (isDigit_of_mem_padded nonneg) (isDigit_of_mem_padded nonneg')
  · rw [length_padded nonneg (by omega), length_padded nonneg' block]
  · rw [value_padded nonneg, value_padded nonneg']
    omega

end Padded

theorem keyCandidate_eq (endBlock : ℤ) (programID : ℕ) :
    Keyed.keyCandidate endBlock programID =
      Keyed.prefixCandQueueEndBlock endBlock ++ (ascii ":" ++ Decimal.print programID) := rfl

theorem prefixCandQueue_starts (endBlock : ℤ) (programID : ℕ) :
    Keyed.prefixCandQueue <+: Keyed.keyCandidate endBlock programID := by
  rw [Keyed.keyCandidate, List.append_assoc]
  exact List.prefix_append _ _

/-- A key with an earlier end block comes before everything that starts with a later one. -/
theorem before_of_endBlock_lt {earlier later : ℤ} (nonneg : 0 ≤ earlier)
    (smaller : earlier < later) (block : later < 2 ^ 63) (rest rest' : Bytes) :
    Before (Keyed.prefixCandQueueEndBlock earlier ++ rest)
      (Keyed.prefixCandQueueEndBlock later ++ rest') := by
  simp only [Keyed.prefixCandQueueEndBlock, List.append_assoc]
  apply (before_append_iff _).mpr
  apply (before_append_iff _).mpr
  apply (padded_before nonneg smaller block).append
  rw [length_padded nonneg (by omega), length_padded (by omega) block]

theorem keyCandidate_injOn :
    Set.InjOn (fun key : ℤ × ℕ => Keyed.keyCandidate key.1 key.2) {key | Queueable key} := by
  intro first queueable second queueable' same
  simp only [Keyed.keyCandidate, List.append_assoc] at same
  have fields := List.append_cancel_left (List.append_cancel_left same)
  have sameLength : (Keyed.padded first.1).length = (Keyed.padded second.1).length := by
    rw [length_padded queueable.nonneg queueable.block,
      length_padded queueable'.nonneg queueable'.block]
  rcases List.append_inj fields sameLength with ⟨blockEq, rest⟩
  have values := congrArg Decimal.value blockEq
  rw [value_padded queueable.nonneg, value_padded queueable'.nonneg] at values
  have nonneg := queueable.nonneg
  have nonneg' := queueable'.nonneg
  exact Prod.ext (by omega) (Decimal.print_injective (List.append_cancel_left rest))

section Represented

variable {β : Type} {codec : Keyed.IDCodec β} {flat : Store Bytes β} {store : BudgetStore}

/-- The encoded program id of a candidate that is queued. -/
def queued (codec : Keyed.IDCodec β) (store : BudgetStore) (candidate : ℤ × ℕ) : Option β :=
  store.candQueue[candidate]?.map codec.marshal

theorem queued_eq_some {candidate : ℤ × ℕ} {value : β} :
    queued codec store candidate = some value ↔
      store.candQueue[candidate]? = some candidate.2 ∧ codec.marshal candidate.2 = value := by
  rw [queued, Option.map_eq_some_iff]
  constructor
  · rintro ⟨programID, present, rfl⟩
    have keyed : programID = candidate.2 := store.candQueue_keyed _ _ present
    subst keyed
    exact ⟨present, rfl⟩
  · rintro ⟨present, rfl⟩
    exact ⟨candidate.2, present, rfl⟩

/-- The section of the candidate queue keeps the candidates of the store. The
store of the module has other sections, under keys that start differently. -/
def Represents (codec : Keyed.IDCodec β) (flat : Store Bytes β) (store : BudgetStore) : Prop :=
  Store.Holds {key : ℤ × ℕ | Queueable key} (fun key => Keyed.keyCandidate key.1 key.2)
    (fun key => Keyed.prefixCandQueue <+: key) flat (queued codec store)

theorem Represents.queueable (represents : Represents codec flat store) {candidate : ℤ × ℕ}
    (present : store.candQueue[candidate]? = some candidate.2) : Queueable candidate :=
  represents.within candidate _ (queued_eq_some.mpr ⟨present, rfl⟩)

theorem Represents.candQueueHas (represents : Represents codec flat store) {endBlock : ℤ}
    {programID : ℕ} (queueable : Queueable (endBlock, programID)) :
    Keyed.candQueueHas flat endBlock programID = store.candQueueHas endBlock programID := by
  have inside : (endBlock, programID) ∈ {key : ℤ × ℕ | Queueable key} := queueable
  have found := represents.get keyCandidate_injOn inside (prefixCandQueue_starts endBlock programID)
  simp only [Keyed.candQueueHas, BudgetStore.candQueueHas, found, queued, Option.isSome_map]

theorem Represents.candQueueInsert (represents : Represents codec flat store) {endBlock : ℤ}
    {programID : ℕ} (queueable : Queueable (endBlock, programID)) :
    Represents codec (Keyed.candQueueInsert codec flat endBlock programID)
      (store.candQueueInsert endBlock programID) := by
  have inside : (endBlock, programID) ∈ {key : ℤ × ℕ | Queueable key} := queueable
  have afterEq : ∀ other, queued codec (store.candQueueInsert endBlock programID) other =
      if (endBlock, programID) = other then some (codec.marshal programID)
      else queued codec store other := by
    intro other
    rw [queued, BudgetStore.get_candQueueInsert]
    split <;> rfl
  have inserted := represents.insert keyCandidate_injOn inside afterEq
  exact inserted

theorem Represents.candQueueRemove (represents : Represents codec flat store) {endBlock : ℤ}
    {programID : ℕ} (queueable : Queueable (endBlock, programID)) :
    Represents codec (Keyed.candQueueRemove flat endBlock programID)
      (store.candQueueRemove endBlock programID) := by
  have inside : (endBlock, programID) ∈ {key : ℤ × ℕ | Queueable key} := queueable
  have afterEq : ∀ other, queued codec (store.candQueueRemove endBlock programID) other =
      if (endBlock, programID) = other then none else queued codec store other := by
    intro other
    rw [queued, BudgetStore.get_candQueueRemove]
    split <;> rfl
  have erased := represents.erase keyCandidate_injOn inside afterEq
  exact erased

/-- The entry under which a candidate is kept. -/
def entryOf (codec : Keyed.IDCodec β) (candidate : ℤ × ℕ) : Bytes × β :=
  (Keyed.keyCandidate candidate.1 candidate.2, codec.marshal candidate.2)

variable {prefixEndBytes : Bytes → Option Bytes} {endBlock : ℤ}

/-- Entries of the queue under keys that meet a condition are those of the
candidates with such keys, in the order of their end blocks. -/
theorem Represents.visits (represents : Represents codec flat store) {entries : List (Bytes × β)}
    (ordered : entries.Pairwise fun first second => Before first.1 second.1)
    {selected : Bytes → Prop}
    (starts : ∀ text, selected text → Keyed.prefixCandQueue <+: text)
    (listed : ∀ entry, entry ∈ entries ↔ flat[entry.1]? = some entry.2 ∧ selected entry.1) :
    ∃ visited : List (ℤ × ℕ), visited.Nodup ∧
      (∀ candidate, candidate ∈ visited ↔
        store.candQueue[candidate]? = some candidate.2 ∧
          selected (Keyed.keyCandidate candidate.1 candidate.2)) ∧
      visited.Pairwise (fun first second => first.1 ≤ second.1) ∧
      entries = visited.map (entryOf codec) := by
  have covers : ∀ candidate value, (queued codec store candidate = some value ∧
      selected (Keyed.keyCandidate candidate.1 candidate.2)) ↔
        ∃ found : ℤ × ℕ, (found, codec.marshal found.2) = (candidate, value) ∧
          store.candQueue[found]? = some found.2 ∧
            selected (Keyed.keyCandidate found.1 found.2) := by
    intro candidate value
    rw [queued_eq_some]
    constructor
    · rintro ⟨⟨stored, sameValue⟩, isSelected⟩
      exact ⟨candidate, Prod.ext rfl sameValue, stored, isSelected⟩
    · rintro ⟨found, same, stored, isSelected⟩
      cases same
      exact ⟨⟨stored, rfl⟩, isSelected⟩
  have distinct : entries.Nodup := by
    apply ordered.imp
    rintro first second before rfl
    exact not_before_self _ before
  rcases represents.exists_items keyCandidate_injOn distinct starts listed _
    (fun _ _ same => (Prod.mk.inj same).1) _ covers with
    ⟨visited, visitedDistinct, visitedIff, entriesEq⟩
  refine ⟨visited, visitedDistinct, visitedIff, ?_, entriesEq⟩
  rw [entriesEq, List.pairwise_map] at ordered
  apply ordered.imp_of_mem
  intro first second firstMem secondMem before
  by_contra later
  have queueable := represents.queueable ((visitedIff first).mp firstMem).1
  have queueable' := represents.queueable ((visitedIff second).mp secondMem).1
  apply before.asymm
  simp only [keyCandidate_eq]
  exact before_of_endBlock_lt queueable'.nonneg (not_le.mp later) queueable.block _ _

/-- The keys of a queue entry lie below the end of a block exactly when its vote
has ended by then. -/
theorem before_prefixEnd_iff {bound : Bytes}
    (isEnd : IsPrefixEnd (Keyed.prefixCandQueueEndBlock endBlock) bound) (nonneg : 0 ≤ endBlock)
    (block : endBlock < 2 ^ 63) {candidate : ℤ × ℕ} (queueable : Queueable candidate) :
    Before (Keyed.keyCandidate candidate.1 candidate.2) bound ↔ candidate.1 ≤ endBlock := by
  rw [keyCandidate_eq]
  constructor
  · intro before
    by_contra later
    refine isEnd.least _ ?_ before
    rintro key ⟨rest, rfl⟩
    exact before_of_endBlock_lt nonneg (not_le.mp later) queueable.block rest _
  · intro ended
    rcases ended.lt_or_eq with earlier | same
    · have first := before_of_endBlock_lt queueable.nonneg earlier block
        (ascii ":" ++ Decimal.print candidate.2) []
      rw [List.append_nil] at first
      exact first.trans (isEnd.above _ List.prefix_rfl)
    · rw [same]
      exact isEnd.above _ (List.prefix_append _ _)

/-- The iterator visits the candidates whose vote has ended by a block, each once
and in the order of their end blocks. -/
theorem Represents.iterates (represents : Represents codec flat store)
    (prefixEnds : PrefixEnds prefixEndBytes) (nonneg : 0 ≤ endBlock)
    (block : endBlock < 2 ^ 63) :
    ∃ visited : List (ℤ × ℕ), visited.Nodup ∧
      (∀ candidate, candidate ∈ visited ↔
        store.candQueue[candidate]? = some candidate.2 ∧ candidate.1 ≤ endBlock) ∧
      visited.Pairwise (fun first second => first.1 ≤ second.1) ∧
      ∀ (σ : Type) (handler : σ → ℕ → σ × Bool) (state : σ),
        Keyed.candQueueIterateExpired codec prefixEndBytes flat endBlock handler state =
          some (Store.visit handler (visited.map Prod.snd) state) := by
  have notLast : ∃ byte ∈ Keyed.prefixCandQueueEndBlock endBlock, byte ≠ 255 :=
    ⟨99, List.mem_append_left _ (by decide), by decide⟩
  rcases prefixEnds _ notLast with ⟨bound, boundEq, isEnd⟩
  rcases represents.visits (Store.pairwise_range flat Keyed.prefixCandQueue (some bound))
    (fun text (within : ¬Before text Keyed.prefixCandQueue ∧ Before text bound) =>
      isEnd.prefix_of_before within.1 within.2)
    (Store.mem_range_iff flat Keyed.prefixCandQueue bound) with
    ⟨visited, distinct, entries, ordered, visitedEq⟩
  refine ⟨visited, distinct, ?_, ordered, ?_⟩
  · intro candidate
    rw [entries]
    constructor
    · rintro ⟨stored, -, before⟩
      exact ⟨stored,
        (before_prefixEnd_iff isEnd nonneg block (represents.queueable stored)).mp before⟩
    · rintro ⟨stored, ended⟩
      refine ⟨stored, ?_,
        (before_prefixEnd_iff isEnd nonneg block (represents.queueable stored)).mpr ended⟩
      rcases prefixCandQueue_starts candidate.1 candidate.2 with ⟨rest, same⟩
      rw [← same]
      exact not_before_append _ _
  · intro σ handler state
    rw [Keyed.candQueueIterateExpired, boundEq, visitedEq]
    apply Store.iterate_map
    intro candidate candidateMem
    exact codec.unmarshal_marshal _
      (represents.queueable ((entries candidate).mp candidateMem).1).programID

/-- The visited programs are those that the typed queue finds. -/
theorem visited_perm_expired {visited : List (ℤ × ℕ)} (distinct : visited.Nodup)
    (entries : ∀ candidate, candidate ∈ visited ↔
      store.candQueue[candidate]? = some candidate.2 ∧ candidate.1 ≤ endBlock) :
    (visited.map Prod.snd).Perm (store.expiredCandidates endBlock) := by
  have keyed : ∀ entry ∈ store.candQueue.toList, entry.2 = entry.1.2 := fun entry entryMem =>
    store.candQueue_keyed _ _ ((Store.mem_toList_iff store.candQueue entry).mp entryMem)
  have sameKeys : visited.Perm
      ((store.candQueue.toList.filter fun entry => entry.1.1 ≤ endBlock).map Prod.fst) := by
    apply (List.perm_ext_iff_of_nodup distinct ?_).mpr
    · intro candidate
      rw [entries, List.mem_map]
      constructor
      · rintro ⟨stored, ended⟩
        exact ⟨(candidate, candidate.2), List.mem_filter.mpr
          ⟨(Store.mem_toList_iff _ _).mpr stored, decide_eq_true ended⟩, rfl⟩
      · rintro ⟨entry, entryMem, rfl⟩
        rcases List.mem_filter.mp entryMem with ⟨listed, ended⟩
        rw [← keyed entry listed]
        exact ⟨(Store.mem_toList_iff _ _).mp listed, of_decide_eq_true ended⟩
    · have distinctKeys := Store.nodup_keys store.candQueue
      rw [← Std.ExtTreeMap.map_fst_toList_eq_keys] at distinctKeys
      exact (List.Sublist.map Prod.fst List.filter_sublist).nodup distinctKeys
  rw [BudgetStore.expiredCandidates]
  refine (sameKeys.map Prod.snd).trans (List.Perm.of_eq ?_)
  rw [List.map_map]
  apply List.map_congr_left
  intro entry entryMem
  exact (keyed entry (List.mem_filter.mp entryMem).1).symm

end Represented

/-- What the operations on one candidate do to all candidates. -/
structure ActsOn {β : Type} (codec : Keyed.IDCodec β) (flat : Store Bytes β)
    (candidate : ℤ × ℕ) : Prop where
  inserted : Keyed.candQueueHas (Keyed.candQueueInsert codec flat candidate.1 candidate.2)
    candidate.1 candidate.2 = true
  removed : Keyed.candQueueHas (Keyed.candQueueRemove flat candidate.1 candidate.2)
    candidate.1 candidate.2 = false
  others : ∀ other : ℤ × ℕ, Queueable other → other ≠ candidate →
    Keyed.candQueueHas (Keyed.candQueueInsert codec flat candidate.1 candidate.2) other.1 other.2 =
        Keyed.candQueueHas flat other.1 other.2 ∧
      Keyed.candQueueHas (Keyed.candQueueRemove flat candidate.1 candidate.2) other.1 other.2 =
        Keyed.candQueueHas flat other.1 other.2
  elsewhere : ∀ key, ¬Keyed.prefixCandQueue <+: key →
    (Keyed.candQueueInsert codec flat candidate.1 candidate.2)[key]? = flat[key]? ∧
      (Keyed.candQueueRemove flat candidate.1 candidate.2)[key]? = flat[key]?

theorem actsOn {β : Type} (codec : Keyed.IDCodec β) (flat : Store Bytes β) {candidate : ℤ × ℕ}
    (queueable : Queueable candidate) : ActsOn codec flat candidate := by
  refine ⟨?_, ?_, ?_, ?_⟩
  · simp [Keyed.candQueueHas, Keyed.candQueueInsert]
  · simp [Keyed.candQueueHas, Keyed.candQueueRemove]
  · intro other queueable' different
    have differentKeys : Keyed.keyCandidate candidate.1 candidate.2 ≠
        Keyed.keyCandidate other.1 other.2 :=
      fun same => different (keyCandidate_injOn queueable queueable' same).symm
    simp only [Keyed.candQueueHas, Keyed.candQueueInsert, Keyed.candQueueRemove, Store.get_insert,
      Store.get_erase, if_neg differentKeys, and_self]
  · intro key outside
    have differentKey : Keyed.keyCandidate candidate.1 candidate.2 ≠ key := by
      rintro rfl
      exact outside (prefixCandQueue_starts candidate.1 candidate.2)
    simp only [Keyed.candQueueInsert, Keyed.candQueueRemove, Store.get_insert, Store.get_erase,
      if_neg differentKey, and_self]

/-- The flat store keeps the candidate queue: it is iterated in the order of the
end blocks up to a given one, and its operations act on one candidate only. -/
theorem candQueue_ordered {β : Type} {codec : Keyed.IDCodec β}
    {prefixEndBytes : Bytes → Option Bytes} (prefixEnds : PrefixEnds prefixEndBytes)
    {flat : Store Bytes β} {store : BudgetStore} (represents : Represents codec flat store) :
    (∀ endBlock : ℤ, 0 ≤ endBlock → endBlock < 2 ^ 63 →
      ∃ visited : List (ℤ × ℕ), visited.Nodup ∧
        (∀ candidate, candidate ∈ visited ↔
          store.candQueue[candidate]? = some candidate.2 ∧ candidate.1 ≤ endBlock) ∧
        visited.Pairwise (fun first second => first.1 ≤ second.1) ∧
        (visited.map Prod.snd).Perm (store.expiredCandidates endBlock) ∧
        ∀ (σ : Type) (handler : σ → ℕ → σ × Bool) (state : σ),
          Keyed.candQueueIterateExpired codec prefixEndBytes flat endBlock handler state =
            some (Store.visit handler (visited.map Prod.snd) state)) ∧
    ∀ (endBlock : ℤ) (programID : ℕ), Queueable (endBlock, programID) →
      ActsOn codec flat (endBlock, programID) ∧
      Keyed.candQueueHas flat endBlock programID = store.candQueueHas endBlock programID ∧
      Represents codec (Keyed.candQueueInsert codec flat endBlock programID)
        (store.candQueueInsert endBlock programID) ∧
      Represents codec (Keyed.candQueueRemove flat endBlock programID)
        (store.candQueueRemove endBlock programID) := by
  refine ⟨?_, ?_⟩
  · intro endBlock nonneg block
    rcases represents.iterates prefixEnds nonneg block with
      ⟨visited, distinct, entries, ordered, iterates⟩
    exact ⟨visited, distinct, entries, ordered, visited_perm_expired distinct entries, iterates⟩
  · intro endBlock programID queueable
    exact ⟨actsOn codec flat queueable, represents.candQueueHas queueable,
      represents.candQueueInsert queueable, represents.candQueueRemove queueable⟩

/-- Seven bits of a number in a byte. -/
def sevenBits (byte : UInt8) : ℕ := byte.toNat % 128

/-- Groups of seven bits as bytes; every byte but the last has the top bit set. -/
def groups : List ℕ → Bytes
  | [] => [0]
  | [last] => [last.toUInt8]
  | digit :: rest => (digit + 128).toUInt8 :: groups rest

def uvarint (number : ℕ) : Bytes := groups (Nat.digits 128 number)

theorem ofDigits_groups {digits : List ℕ} (small : ∀ digit ∈ digits, digit < 128) :
    Nat.ofDigits 128 ((groups digits).map sevenBits) = Nat.ofDigits 128 digits := by
  fun_induction groups digits with
  | case1 => rfl
  | case2 last =>
      have bounded := small last List.mem_cons_self
      simp [sevenBits, Nat.toUInt8]
      omega
  | case3 digit rest _ ih =>
      rcases List.forall_mem_cons.mp small with ⟨bounded, others⟩
      have first : sevenBits (digit + 128).toUInt8 = digit := by
        simp only [sevenBits, UInt8.toNat_ofNat', Nat.toUInt8]
        omega
      rw [List.map_cons, Nat.ofDigits_cons, Nat.ofDigits_cons, first, ih others]

theorem ofDigits_uvarint (number : ℕ) :
    Nat.ofDigits 128 ((uvarint number).map sevenBits) = number := by
  rw [uvarint, ofDigits_groups fun _ digitMem => Nat.digits_lt_base (by decide) digitMem,
    Nat.ofDigits_digits]

/-- A program id in groups of seven bits, after the number of bytes. -/
def uvarintCodec : Keyed.IDCodec Bytes where
  marshal programID := (uvarint programID).length.toUInt8 :: uvarint programID
  unmarshal bytes := some (Nat.ofDigits 128 (bytes.tail.map sevenBits))
  unmarshal_marshal := by
    intro programID _
    rw [List.tail_cons, ofDigits_uvarint]

theorem represents_initial (codec : Keyed.IDCodec Bytes) (params : Params) :
    Represents codec ∅ (BudgetStore.initial params) where
  within := by
    intro key value present
    simp [queued, BudgetStore.initial] at present
  entries := by
    intro text value _
    simp [queued, BudgetStore.initial]

/-- Program 11 is decided before program 2. -/
theorem candQueue_ordered_two :
    ∃ visited : List (ℤ × ℕ), visited.Nodup ∧
      visited.Pairwise (fun first second => first.1 ≤ second.1) ∧
      ((9, 11) ∈ visited ∧ (10, 2) ∈ visited) ∧
      Keyed.candQueueIterateExpired uvarintCodec prefixEnd
        (Keyed.candQueueInsert uvarintCodec (Keyed.candQueueInsert uvarintCodec ∅ 10 2) 9 11) 10
        (fun ids programID => (programID :: ids, false)) [] =
          some (Store.visit (fun ids programID => (programID :: ids, false))
            (visited.map Prod.snd) []) := by
  have two : Represents uvarintCodec
      (Keyed.candQueueInsert uvarintCodec (Keyed.candQueueInsert uvarintCodec ∅ 10 2) 9 11)
      (((BudgetStore.initial defaultParams).candQueueInsert 10 2).candQueueInsert 9 11) :=
    ((represents_initial uvarintCodec defaultParams).candQueueInsert
      ⟨by decide, by decide, by decide⟩).candQueueInsert ⟨by decide, by decide, by decide⟩
  rcases (candQueue_ordered prefixEnds_prefixEnd two).1 10 (by decide) (by decide) with
    ⟨visited, distinct, entries, ordered, _, iterates⟩
  refine ⟨visited, distinct, ordered, ⟨?_, ?_⟩, iterates _ _ _⟩
  · simp [entries, BudgetStore.get_candQueueInsert]
  · simp [entries, BudgetStore.get_candQueueInsert]

end TerraCore.Budget
