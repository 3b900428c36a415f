import Mathlib

/-!
# Finite maps with ordered iteration

A key-value store is an extensional finite map: two stores with the same
entries are equal, and iteration visits every entry once, in key order. The
lookup lemmas below are phrased with decidable equality on keys, and the fold
lemmas describe loops which erase keys or accumulate into entries while a
snapshot of the store is being iterated.
-/

attribute [instance] lexOrd

/-- A finite map from `κ` to `α`, iterated in the order of its keys. -/
abbrev Store (κ α : Type) [Ord κ] := Std.ExtTreeMap κ α compare

namespace Store

variable {κ α : Type} [Ord κ] [Std.TransOrd κ]

theorem get_empty (key : κ) : (∅ : Store κ α)[key]? = none :=
  Std.ExtTreeMap.getElem?_empty

/-- The store after erasing every key of a list, in order. -/
def eraseAll (store : Store κ α) (keys : List κ) : Store κ α :=
  keys.foldl (fun current key => current.erase key) store

/-- The sum of a weight over all entries. -/
def sum {M : Type} [AddCommMonoid M] (weight : κ → α → M) (store : Store κ α) : M :=
  (store.toList.map fun entry => weight entry.1 entry.2).sum

/-- Add `amount` to the entry of `key`, creating the entry when it is absent. -/
def accumulate {M : Type} [Add M] (store : Store κ M) (key : κ) (amount : M) : Store κ M :=
  store.insert key (match store[key]? with
    | some previous => amount + previous
    | none => amount)

/-- Accumulate a list of contributions, one by one. -/
def accumulateAll {M : Type} [Add M] (store : Store κ M) (pool : List (κ × M)) : Store κ M :=
  pool.foldl (fun current entry => accumulate current entry.1 entry.2) store

theorem eraseAll_cons (store : Store κ α) (key : κ) (keys : List κ) :
    eraseAll store (key :: keys) = eraseAll (store.erase key) keys := rfl

theorem accumulateAll_cons {M : Type} [Add M] (store : Store κ M) (entry : κ × M)
    (pool : List (κ × M)) :
    accumulateAll store (entry :: pool) =
      accumulateAll (accumulate store entry.1 entry.2) pool := rfl

theorem accumulateAll_append {M : Type} [Add M] (store : Store κ M)
    (first second : List (κ × M)) :
    accumulateAll store (first ++ second) =
      accumulateAll (accumulateAll store first) second := by
  simp [accumulateAll]

section Lookup

variable [Std.LawfulEqOrd κ]

theorem ext_get {left right : Store κ α} (same : ∀ key : κ, left[key]? = right[key]?) :
    left = right :=
  Std.ExtTreeMap.ext_getElem? same

theorem mem_toList_iff (store : Store κ α) (entry : κ × α) :
    entry ∈ store.toList ↔ store[entry.1]? = some entry.2 :=
  Std.ExtTreeMap.mem_toList_iff_getElem?_eq_some

theorem nodup_keys (store : Store κ α) : store.keys.Nodup := by
  have distinct := Std.ExtTreeMap.distinct_keys (t := store)
  refine distinct.imp ?_
  intro first second different same
  exact different (by simp [same])

theorem nodup_toList (store : Store κ α) : store.toList.Nodup := by
  have keysNodup := nodup_keys store
  rw [← Std.ExtTreeMap.map_fst_toList_eq_keys] at keysNodup
  exact keysNodup.of_map _

theorem mem_keys_iff (store : Store κ α) (key : κ) :
    key ∈ store.keys ↔ ∃ value, store[key]? = some value := by
  rw [← Std.ExtTreeMap.map_fst_toList_eq_keys, List.mem_map]
  constructor
  · rintro ⟨entry, entryMem, rfl⟩
    exact ⟨entry.2, (mem_toList_iff store entry).mp entryMem⟩
  · rintro ⟨value, present⟩
    exact ⟨(key, value), (mem_toList_iff store _).mpr present, rfl⟩

variable [DecidableEq κ]

theorem get_insert (store : Store κ α) (key other : κ) (value : α) :
    (store.insert key value)[other]? = if key = other then some value else store[other]? := by
  simp [Std.ExtTreeMap.getElem?_insert]

/-- What is found after an insertion is the new value, or was stored under another key. -/
theorem cases_get_insert {store : Store κ α} {key other : κ} {value found : α}
    (present : (store.insert key value)[other]? = some found) :
    key = other ∧ found = value ∨ key ≠ other ∧ store[other]? = some found := by
  rw [get_insert] at present
  split at present
  · next same => exact Or.inl ⟨same, (Option.some.inj present).symm⟩
  · next different => exact Or.inr ⟨different, present⟩

/-- A property of all entries survives the insertion of an entry that has it. -/
theorem forall_get_insert {store : Store κ α} {key : κ} {value : α} {P : κ → α → Prop}
    (all : ∀ other found, store[other]? = some found → P other found) (holds : P key value)
    (other : κ) (found : α) (present : (store.insert key value)[other]? = some found) :
    P other found := by
  rcases cases_get_insert present with ⟨rfl, rfl⟩ | ⟨-, stored⟩
  · exact holds
  · exact all other found stored

theorem get_erase (store : Store κ α) (key other : κ) :
    (store.erase key)[other]? = if key = other then none else store[other]? := by
  simp [Std.ExtTreeMap.getElem?_erase]

theorem erase_of_get_none {store : Store κ α} {key : κ} (absent : store[key]? = none) :
    store.erase key = store := by
  apply ext_get
  intro other
  rw [get_erase]
  split
  · next same => rw [← same, absent]
  · rfl

end Lookup

section Erase

variable [Std.LawfulEqOrd κ] [DecidableEq κ]

theorem get_eraseAll (store : Store κ α) (keys : List κ) (key : κ) :
    (eraseAll store keys)[key]? = if key ∈ keys then none else store[key]? := by
  induction keys generalizing store with
  | nil => simp [eraseAll]
  | cons head tail ih =>
      rw [eraseAll_cons, ih, get_erase]
      by_cases inTail : key ∈ tail
      · simp [inTail]
      · by_cases isHead : head = key
        · simp [isHead]
        · simp [inTail, isHead, Ne.symm isHead]

theorem get_of_get_eraseAll {store : Store κ α} {keys : List κ} {key : κ} {value : α}
    (present : (eraseAll store keys)[key]? = some value) : store[key]? = some value := by
  rw [get_eraseAll] at present
  split at present
  · cases present
  · exact present

theorem eraseAll_keys (store : Store κ α) : eraseAll store store.keys = ∅ := by
  apply ext_get
  intro key
  rw [get_eraseAll, get_empty]
  split
  · rfl
  · next notKey =>
      cases present : store[key]? with
      | none => rfl
      | some value => exact absurd ((mem_keys_iff store key).mpr ⟨value, present⟩) notKey

end Erase

section Sum

variable [Std.LawfulEqOrd κ] [DecidableEq κ] {M : Type} [AddCommMonoid M]

theorem toList_insert_perm (store : Store κ α) (key : κ) (value : α) :
    (store.insert key value).toList.Perm ((key, value) :: (store.erase key).toList) := by
  have fresh : (key, value) ∉ (store.erase key).toList := by
    rw [mem_toList_iff, get_erase]
    simp
  refine (List.perm_ext_iff_of_nodup (nodup_toList _)
    (List.nodup_cons.mpr ⟨fresh, nodup_toList _⟩)).mpr ?_
  rintro ⟨other, found⟩
  rw [mem_toList_iff, List.mem_cons, mem_toList_iff, get_insert, get_erase]
  by_cases same : key = other
  · subst same
    simp [eq_comm]
  · simp [same, Ne.symm same]

theorem sum_insert (weight : κ → α → M) (store : Store κ α) (key : κ) (value : α) :
    sum weight (store.insert key value) = weight key value + sum weight (store.erase key) := by
  unfold sum
  rw [((toList_insert_perm store key value).map _).sum_eq]
  simp

theorem sum_erase (weight : κ → α → M) {store : Store κ α} {key : κ} {value : α}
    (present : store[key]? = some value) :
    sum weight store = weight key value + sum weight (store.erase key) := by
  have rebuilt : store = store.insert key value := by
    apply ext_get
    intro other
    rw [get_insert]
    split
    · next same => rw [← same, present]
    · rfl
  calc sum weight store = sum weight (store.insert key value) := by rw [← rebuilt]
    _ = weight key value + sum weight (store.erase key) := sum_insert weight store key value

omit [DecidableEq κ] in
/-- Only the entries that weigh something count. -/
theorem sum_congr_of_support [DecidableEq M] (weight : κ → α → M) {left right : Store κ α}
    (same : ∀ key value, weight key value ≠ 0 →
      (left[key]? = some value ↔ right[key]? = some value)) :
    sum weight left = sum weight right := by
  have overSupport : ∀ store : Store κ α, sum weight store =
      ((store.toList.filter fun entry => weight entry.1 entry.2 ≠ 0).map
        fun entry => weight entry.1 entry.2).sum := by
    intro store
    unfold sum
    induction store.toList with
    | nil => rfl
    | cons entry entries ih =>
        by_cases weightless : weight entry.1 entry.2 = 0
        · simpa [weightless] using ih
        · simp [weightless, ih]
  rw [overSupport left, overSupport right]
  refine (List.Perm.map _ ?_).sum_eq
  refine (List.perm_ext_iff_of_nodup ((nodup_toList left).filter _)
    ((nodup_toList right).filter _)).mpr ?_
  rintro ⟨key, value⟩
  rw [List.mem_filter, List.mem_filter, mem_toList_iff, mem_toList_iff]
  simp only [decide_eq_true_eq]
  constructor
  · rintro ⟨present, weighs⟩
    exact ⟨(same key value weighs).mp present, weighs⟩
  · rintro ⟨present, weighs⟩
    exact ⟨(same key value weighs).mpr present, weighs⟩

/-- Summing over one key reads the entry of that key. -/
theorem sum_at (weight : α → M) (store : Store κ α) (key : κ) :
    sum (fun other value => if other = key then weight value else 0) store =
      ((store[key]?).map weight).getD 0 := by
  have elsewhere : ∀ rest : Store κ α, rest[key]? = none →
      sum (fun other value => if other = key then weight value else 0) rest = 0 := by
    intro rest absent
    apply List.sum_eq_zero
    simp only [List.mem_map]
    rintro term ⟨⟨other, value⟩, entryMem, rfl⟩
    have present := (mem_toList_iff rest (other, value)).mp entryMem
    apply if_neg
    rintro rfl
    rw [absent] at present
    cases present
  cases present : store[key]? with
  | none => exact elsewhere store present
  | some value =>
      have erased : (store.erase key)[key]? = none := by
        rw [get_erase, if_pos rfl]
      rw [sum_erase _ present, elsewhere _ erased]
      simp

end Sum

section Accumulate

variable [Std.LawfulEqOrd κ] [DecidableEq κ] {M : Type} [AddCommMonoid M]

theorem get_accumulate (store : Store κ M) (key other : κ) (amount : M) :
    (accumulate store key amount)[other]? =
      if key = other then some (amount + (store[key]?).getD 0) else store[other]? := by
  unfold accumulate
  rw [get_insert]
  split
  · cases store[key]? <;> simp
  · rfl

theorem getD_accumulate (store : Store κ M) (key other : κ) (amount : M) :
    ((accumulate store key amount)[other]?).getD 0 =
      (store[other]?).getD 0 + if key = other then amount else 0 := by
  rw [get_accumulate]
  split
  · next same => subst same; simp [add_comm]
  · simp

theorem accumulate_comm (store : Store κ M) (first second : κ) (left right : M) :
    accumulate (accumulate store first left) second right =
      accumulate (accumulate store second right) first left := by
  apply ext_get
  intro key
  simp only [get_accumulate]
  by_cases same : first = second
  · subst same
    by_cases here : first = key
    · simp [here, add_left_comm]
    · simp [here]
  · by_cases isFirst : first = key
    · subst isFirst
      simp [Ne.symm same]
    · by_cases isSecond : second = key
      · subst isSecond
        simp [same]
      · simp [isFirst, isSecond]

/-- The order in which contributions are accumulated does not matter. -/
theorem accumulateAll_perm (store : Store κ M) {first second : List (κ × M)}
    (perm : first.Perm second) :
    accumulateAll store first = accumulateAll store second := by
  apply perm.foldl_eq'
  intro left _ right _ current
  exact accumulate_comm current left.1 right.1 left.2 right.2

/-- Each entry receives exactly the contributions made under its key. -/
theorem getD_accumulateAll (store : Store κ M) (pool : List (κ × M)) (key : κ) :
    ((accumulateAll store pool)[key]?).getD 0 =
      (store[key]?).getD 0 + ((pool.filter fun entry => entry.1 = key).map Prod.snd).sum := by
  induction pool generalizing store with
  | nil => simp [accumulateAll]
  | cons entry pool ih =>
      rw [accumulateAll_cons, ih, getD_accumulate]
      by_cases here : entry.1 = key
      · simp [here, add_assoc]
      · simp [here]

theorem mem_accumulateAll_iff (store : Store κ M) (pool : List (κ × M)) (key : κ) :
    (∃ value, (accumulateAll store pool)[key]? = some value) ↔
      (∃ value, store[key]? = some value) ∨ ∃ entry ∈ pool, entry.1 = key := by
  induction pool generalizing store with
  | nil => simp [accumulateAll]
  | cons entry pool ih =>
      rw [accumulateAll_cons, ih, get_accumulate]
      by_cases here : entry.1 = key
      · simp [here]
      · simp [here]

/-- A property that sums inherit holds of all entries when it holds of all contributions. -/
theorem accumulateAll_induction (property : M → Prop)
    (closed : ∀ left right, property left → property right → property (left + right))
    {store : Store κ M} {pool : List (κ × M)}
    (stored : ∀ (key : κ) value, store[key]? = some value → property value)
    (added : ∀ entry ∈ pool, property entry.2) (key : κ) (value : M)
    (present : (accumulateAll store pool)[key]? = some value) : property value := by
  induction pool generalizing store with
  | nil => exact stored key value present
  | cons entry pool ih =>
      rw [accumulateAll_cons] at present
      refine ih ?_ (fun later laterMem => added later (List.mem_cons_of_mem _ laterMem)) present
      intro other found foundPresent
      have entryHolds := added entry List.mem_cons_self
      unfold accumulate at foundPresent
      rw [get_insert] at foundPresent
      split at foundPresent
      · cases foundPresent
        split
        · next previous previousPresent =>
            exact closed _ _ entryHolds (stored _ _ previousPresent)
        · exact entryHolds
      · exact stored other found foundPresent

end Accumulate

end Store
