import TerraCore.Library.Store

/-!
# Stores under encoded keys

A key-value store of bytes holds structured keys in encoded form and finds
entries by the way their keys start. On a domain where the encoding is
injective, the encoded store has the entries of the structured one, and erasing
a key commutes with the encoding. A store under pairs of keys has a part under
each first key, over which its sums can be taken.
-/

namespace Store

section Encoded

variable {κ β α : Type} [Ord κ] [Std.TransOrd κ] [Std.LawfulEqOrd κ]
  [Ord β] [Std.TransOrd β] [Std.LawfulEqOrd β] [DecidableEq β]

/-- The store with its keys encoded. -/
def encoded (encode : κ → β) (store : Store κ α) : Store β α :=
  Std.ExtTreeMap.ofList (store.toList.map fun entry => (encode entry.1, entry.2)) compare

/-- All keys of the store lie in the domain. -/
def Within (domain : Set κ) (store : Store κ α) : Prop :=
  ∀ (key : κ) (value : α), store[key]? = some value → key ∈ domain

variable {encode : κ → β} {domain : Set κ} {store : Store κ α}

omit [Std.TransOrd β] [DecidableEq β] in
theorem encoded_distinct (injective : Set.InjOn encode domain) (within : Within domain store) :
    (store.toList.map fun entry => (encode entry.1, entry.2)).Pairwise
      fun first second => ¬compare first.1 second.1 = .eq := by
  rw [List.pairwise_map]
  have distinct := nodup_keys store
  rw [← Std.ExtTreeMap.map_fst_toList_eq_keys, List.Nodup, List.pairwise_map] at distinct
  refine distinct.imp_of_mem ?_
  intro first second firstMem secondMem different same
  refine different (injective ?_ ?_ (Std.LawfulEqOrd.eq_of_compare same))
  · exact within first.1 first.2 ((mem_toList_iff store first).mp firstMem)
  · exact within second.1 second.2 ((mem_toList_iff store second).mp secondMem)

/-- The entries of the encoded store are those of the store. -/
theorem get_encoded_iff (injective : Set.InjOn encode domain) (within : Within domain store)
    (text : β) (value : α) :
    (encoded encode store)[text]? = some value ↔
      ∃ key, encode key = text ∧ store[key]? = some value := by
  constructor
  · intro present
    by_cases listed : text ∈ (store.toList.map fun entry => (encode entry.1, entry.2)).map Prod.fst
    · rw [List.map_map, List.mem_map] at listed
      rcases listed with ⟨entry, entryMem, rfl⟩
      have found : (encoded encode store)[encode entry.1]? = some entry.2 :=
        Std.ExtTreeMap.getElem?_ofList_of_mem Std.ReflCmp.compare_self
          (encoded_distinct injective within) (List.mem_map.mpr ⟨entry, entryMem, rfl⟩)
      have sameValue : some entry.2 = some value := found.symm.trans present
      refine ⟨entry.1, rfl, ?_⟩
      rw [(mem_toList_iff store entry).mp entryMem, sameValue]
    · have absent : (encoded encode store)[text]? = none :=
        Std.ExtTreeMap.getElem?_ofList_of_contains_eq_false (by simpa using listed)
      rw [absent] at present
      cases present
  · rintro ⟨key, rfl, present⟩
    exact Std.ExtTreeMap.getElem?_ofList_of_mem Std.ReflCmp.compare_self
      (encoded_distinct injective within)
      (List.mem_map.mpr ⟨(key, value), (mem_toList_iff store _).mpr present, rfl⟩)

end Encoded

/-- Items that each come from something come from a list. -/
theorem exists_map_eq {α β : Type} {f : α → β} {P : α → Prop} {items : List β}
    (each : ∀ item ∈ items, ∃ source, f source = item ∧ P source) :
    ∃ sources : List α, sources.map f = items ∧ ∀ source ∈ sources, P source := by
  induction items with
  | nil => exact ⟨[], rfl, by simp⟩
  | cons item items ih =>
      rcases List.forall_mem_cons.mp each with ⟨⟨source, rfl, holds⟩, rest⟩
      rcases ih rest with ⟨sources, rfl, all⟩
      exact ⟨source :: sources, rfl, List.forall_mem_cons.mpr ⟨holds, all⟩⟩

section Holds

variable {κ β α : Type} [DecidableEq κ] [Ord β] [Std.TransOrd β] [Std.LawfulEqOrd β]
  [DecidableEq β]

/-- One section of a flat store keeps a map of structured keys. The map has keys
of the domain only; other sections of the store hold anything. -/
structure Holds (domain : Set κ) (encode : κ → β) (inSection : β → Prop) (flat : Store β α)
    (contents : κ → Option α) : Prop where
  within : ∀ key value, contents key = some value → key ∈ domain
  entries : ∀ text value, inSection text →
    (flat[text]? = some value ↔ ∃ key, encode key = text ∧ contents key = some value)

variable {domain : Set κ} {encode : κ → β} {inSection : β → Prop} {flat : Store β α}
  {contents after : κ → Option α} {key : κ}

omit [DecidableEq κ] [Std.LawfulEqOrd β] [DecidableEq β] in
theorem Holds.get (holds : Holds domain encode inSection flat contents)
    (injective : Set.InjOn encode domain) (inside : key ∈ domain)
    (isSection : inSection (encode key)) : flat[encode key]? = contents key := by
  apply Option.ext
  intro value
  rw [holds.entries _ _ isSection]
  constructor
  · rintro ⟨other, sameText, present⟩
    have same := injective (holds.within other value present) inside sameText
    rwa [← same]
  · exact fun present => ⟨key, rfl, present⟩

theorem Holds.insert (holds : Holds domain encode inSection flat contents)
    (injective : Set.InjOn encode domain) (inside : key ∈ domain) {value : α}
    (afterEq : ∀ other, after other = if key = other then some value else contents other) :
    Holds domain encode inSection (flat.insert (encode key) value) after where
  within := by
    intro other found present
    rw [afterEq] at present
    split at present
    · next same => rwa [← same]
    · exact holds.within other found present
  entries := by
    intro text found isSection
    rw [get_insert]
    simp only [afterEq]
    constructor
    · intro present
      split at present
      · next same => exact ⟨key, same, by simpa using present⟩
      · next different =>
          rcases (holds.entries text found isSection).mp present with ⟨other, rfl, stored⟩
          refine ⟨other, rfl, ?_⟩
          rw [if_neg, stored]
          rintro rfl
          exact different rfl
    · rintro ⟨other, rfl, present⟩
      split at present
      · next same =>
          rw [same, if_pos rfl]
          exact present
      · next different =>
          rw [if_neg]
          · exact (holds.entries _ found isSection).mpr ⟨other, rfl, present⟩
          · intro sameText
            exact different (injective inside (holds.within other found present) sameText)

theorem Holds.erase (holds : Holds domain encode inSection flat contents)
    (injective : Set.InjOn encode domain) (inside : key ∈ domain)
    (afterEq : ∀ other, after other = if key = other then none else contents other) :
    Holds domain encode inSection (flat.erase (encode key)) after where
  within := by
    intro other found present
    rw [afterEq] at present
    split at present
    · cases present
    · exact holds.within other found present
  entries := by
    intro text found isSection
    rw [get_erase]
    simp only [afterEq]
    constructor
    · intro present
      split at present
      · cases present
      · next different =>
          rcases (holds.entries text found isSection).mp present with ⟨other, rfl, stored⟩
          refine ⟨other, rfl, ?_⟩
          rw [if_neg, stored]
          rintro rfl
          exact different rfl
    · rintro ⟨other, rfl, present⟩
      split at present
      · cases present
      · next different =>
          rw [if_neg]
          · exact (holds.entries _ found isSection).mpr ⟨other, rfl, present⟩
          · intro sameText
            exact different (injective inside (holds.within other found present) sameText)

omit [DecidableEq κ] in
/-- Erasing texts erases the keys that are encoded as one of them. -/
theorem Holds.eraseAll (holds : Holds domain encode inSection flat contents) (texts : List β)
    (afterEq : ∀ key, after key = if encode key ∈ texts then none else contents key) :
    Holds domain encode inSection (Store.eraseAll flat texts) after where
  within := by
    intro key value present
    rw [afterEq] at present
    split at present
    · cases present
    · exact holds.within key value present
  entries := by
    intro text value isSection
    rw [get_eraseAll]
    simp only [afterEq]
    by_cases listed : text ∈ texts
    · rw [if_pos listed]
      constructor
      · intro present
        cases present
      · rintro ⟨key, rfl, present⟩
        rw [if_pos listed] at present
        cases present
    · rw [if_neg listed, holds.entries text value isSection]
      constructor
      · rintro ⟨key, rfl, present⟩
        exact ⟨key, rfl, by rw [if_neg listed, present]⟩
      · rintro ⟨key, rfl, present⟩
        rw [if_neg listed] at present
        exact ⟨key, rfl, present⟩

omit [DecidableEq κ] [Std.LawfulEqOrd β] [DecidableEq β] in
/-- The entries whose key meets a condition are those of the items that the map
has under such keys. -/
theorem Holds.exists_items {τ : Type} (holds : Holds domain encode inSection flat contents)
    (injective : Set.InjOn encode domain) {entries : List (β × α)} (distinct : entries.Nodup)
    {selected : β → Prop} (within : ∀ text, selected text → inSection text)
    (listed : ∀ entry, entry ∈ entries ↔ flat[entry.1]? = some entry.2 ∧ selected entry.1)
    (embed : τ → κ × α) (embed_injective : Function.Injective embed) (P : τ → Prop)
    (covers : ∀ key value, (contents key = some value ∧ selected (encode key)) ↔
      ∃ item, embed item = (key, value) ∧ P item) :
    ∃ items : List τ, items.Nodup ∧ (∀ item, item ∈ items ↔ P item) ∧
      entries = items.map fun item => (encode (embed item).1, (embed item).2) := by
  have found : ∀ entry ∈ entries,
      ∃ item, (encode (embed item).1, (embed item).2) = entry ∧ P item := by
    intro entry entryMem
    rcases (listed entry).mp entryMem with ⟨present, isSelected⟩
    rcases (holds.entries _ _ (within _ isSelected)).mp present with ⟨key, encodeEq, stored⟩
    rw [← encodeEq] at isSelected
    rcases (covers key entry.2).mp ⟨stored, isSelected⟩ with ⟨item, embedEq, itemHolds⟩
    refine ⟨item, ?_, itemHolds⟩
    rw [embedEq, encodeEq]
  rcases exists_map_eq found with ⟨items, itemsEq, all⟩
  refine ⟨items, ?_, ?_, itemsEq.symm⟩
  · rw [← itemsEq] at distinct
    exact distinct.of_map
  · intro item
    constructor
    · exact all item
    · intro itemHolds
      rcases (covers (embed item).1 (embed item).2).mpr ⟨item, rfl, itemHolds⟩ with
        ⟨stored, isSelected⟩
      have entryMem : (encode (embed item).1, (embed item).2) ∈ entries := by
        apply (listed _).mpr
        exact ⟨(holds.entries _ _ (within _ isSelected)).mpr ⟨_, rfl, stored⟩, isSelected⟩
      rw [← itemsEq] at entryMem
      rcases List.mem_map.mp entryMem with ⟨other, otherMem, same⟩
      rcases Prod.mk.inj same with ⟨sameText, sameValue⟩
      have otherStored :=
        ((covers (embed other).1 (embed other).2).mpr ⟨other, rfl, all other otherMem⟩).1
      have sameKey := injective (holds.within _ _ otherStored) (holds.within _ _ stored) sameText
      rwa [← embed_injective (Prod.ext sameKey sameValue)]

end Holds

section Scan

variable {γ α : Type} [Ord γ] [Std.TransOrd γ] [Std.LawfulEqOrd γ] [DecidableEq γ]

/-- The entries whose key starts in the given way, in key order. -/
def scan (store : Store (List γ) α) (start : List γ) : List (List γ × α) :=
  store.toList.filter fun entry => start.isPrefixOf entry.1

theorem mem_scan_iff (store : Store (List γ) α) (start : List γ) (entry : List γ × α) :
    entry ∈ scan store start ↔ store[entry.1]? = some entry.2 ∧ start <+: entry.1 := by
  unfold scan
  rw [List.mem_filter, mem_toList_iff, List.isPrefixOf_iff_prefix]

theorem nodup_scan (store : Store (List γ) α) (start : List γ) : (scan store start).Nodup :=
  (nodup_toList store).filter _

end Scan

section Iterate

variable {ε τ ρ σ : Type}

/-- Call a handler on one decoded entry after another, until it stops. An entry
that cannot be decoded ends the loop without a result. -/
def iterate (decode : ε → Option τ) (handler : σ → τ → σ × Bool) : List ε → σ → Option σ
  | [], state => some state
  | entry :: rest, state =>
      match decode entry with
      | none => none
      | some item =>
          let (state, stop) := handler state item
          if stop then some state else iterate decode handler rest state

/-- Call a handler on one item after another, until it stops. -/
def visit (handler : σ → τ → σ × Bool) : List τ → σ → σ
  | [], state => state
  | item :: rest, state =>
      let (state, stop) := handler state item
      if stop then state else visit handler rest state

/-- A loop over entries that all can be decoded visits the decoded items. -/
theorem iterate_map {decode : ε → Option τ} {encode : ρ → ε} {item : ρ → τ}
    (handler : σ → τ → σ × Bool) {sources : List ρ}
    (decodes : ∀ source ∈ sources, decode (encode source) = some (item source)) (state : σ) :
    iterate decode handler (sources.map encode) state =
      some (visit handler (sources.map item) state) := by
  induction sources generalizing state with
  | nil => rfl
  | cons source sources ih =>
      rcases List.forall_mem_cons.mp decodes with ⟨here, rest⟩
      simp only [List.map_cons, iterate, visit, here]
      split
      · rfl
      · exact ih rest _

/-- Decoding entries that all can be decoded. -/
theorem mapM_map_eq_some {decode : ε → Option τ} {encode : ρ → ε} {item : ρ → τ}
    {sources : List ρ} (decodes : ∀ source ∈ sources, decode (encode source) = some (item source)) :
    (sources.map encode).mapM decode = some (sources.map item) := by
  induction sources with
  | nil => rfl
  | cons source sources ih =>
      rcases List.forall_mem_cons.mp decodes with ⟨here, rest⟩
      simp [here, ih rest]

/-- A handler that never stops is folded over the items. -/
theorem visit_of_endless (update : σ → τ → σ) (items : List τ) (state : σ) :
    visit (fun state item => (update state item, false)) items state =
      items.foldl update state := by
  induction items generalizing state with
  | nil => rfl
  | cons item items ih => exact ih (update state item)

end Iterate

section Part

variable {ι κ α M : Type} [Ord ι] [Std.TransOrd ι] [Std.LawfulEqOrd ι] [DecidableEq ι]
  [Ord κ] [Std.TransOrd κ] [Std.LawfulEqOrd κ] [DecidableEq κ] [AddCommMonoid M]

/-- The entries under the pairs with a given first key. -/
def part (store : Store (ι × κ) α) (index : ι) : Store κ α :=
  encoded Prod.snd (store.filter fun key _ => decide (key.1 = index))

omit [DecidableEq κ] in
theorem get_filter_index (store : Store (ι × κ) α) (index : ι) (key : ι × κ) (value : α) :
    (store.filter fun key _ => decide (key.1 = index))[key]? = some value ↔
      key.1 = index ∧ store[key]? = some value := by
  simp [Option.filter_eq_some_iff, and_comm]

@[simp]
theorem get_part (store : Store (ι × κ) α) (index : ι) (key : κ) :
    (part store index)[key]? = store[(index, key)]? := by
  have injective : Set.InjOn Prod.snd {key : ι × κ | key.1 = index} := by
    rintro ⟨_, first⟩ rfl ⟨_, second⟩ here same
    exact Prod.ext here.symm same
  have within : Within {key : ι × κ | key.1 = index}
      (store.filter fun key _ => decide (key.1 = index)) :=
    fun key value present => ((get_filter_index store index key value).mp present).1
  apply Option.ext
  intro value
  rw [part, get_encoded_iff injective within]
  constructor
  · rintro ⟨⟨_, _⟩, rfl, present⟩
    rcases (get_filter_index store index _ value).mp present with ⟨rfl, stored⟩
    exact stored
  · intro stored
    exact ⟨(index, key), rfl, (get_filter_index store index _ value).mpr ⟨rfl, stored⟩⟩

/-- A sum over one first key is a sum over its part. -/
theorem sum_part (weight : κ → α → M) (store : Store (ι × κ) α) (index : ι) :
    sum (fun key value => if key.1 = index then weight key.2 value else 0) store =
      sum weight (part store index) := by
  have listed : ((store.toList.filter fun entry => decide (entry.1.1 = index)).map fun entry =>
      (entry.1.2, entry.2)).Perm (part store index).toList := by
    apply (List.perm_ext_iff_of_nodup ?_ (nodup_toList _)).mpr
    · rintro ⟨key, value⟩
      simp [mem_toList_iff]
    · apply ((nodup_toList store).filter _).map_on
      rintro ⟨⟨first, key⟩, value⟩ firstMem ⟨⟨second, other⟩, found⟩ secondMem same
      simp only [List.mem_filter, decide_eq_true_eq] at firstMem secondMem
      simp only [Prod.mk.injEq] at same ⊢
      exact ⟨⟨firstMem.2.trans secondMem.2.symm, same.1⟩, same.2⟩
  have counted : sum (fun key value => if key.1 = index then weight key.2 value else 0) store =
      ((store.toList.filter fun entry => decide (entry.1.1 = index)).map fun entry =>
        weight entry.1.2 entry.2).sum := by
    unfold sum
    induction store.toList with
    | nil => rfl
    | cons entry entries ih =>
        by_cases here : entry.1.1 = index
        · simp [here, ih]
        · simp [here, ih]
  rw [counted, sum, ← (listed.map fun entry => weight entry.1 entry.2).sum_eq, List.map_map]
  rfl

end Part

end Store
