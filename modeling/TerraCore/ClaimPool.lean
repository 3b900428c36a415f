import TerraCore.Sdk.Text

/-!
# Claim pools

Sorting a claim pool merges the claims of each recipient in a map and lists what
the map holds. The list is made with as many entries as the map has and then
appended to, so that it starts with entries that nobody claimed.
-/

namespace TerraCore

/-- An order in which the claims of a map may be visited. -/
structure ClaimOrder where
  visit : List (Claim ℤ) → List (Claim ℤ)
  perm : ∀ claims, (visit claims).Perm claims

namespace ClaimPool

/-- A claim that nothing was assigned to; its weight is unset. -/
def zeroClaim : Claim (Option ℤ) := ⟨none, []⟩

/-- One claim is added to what its recipient has. Recipients are told apart by
their printed addresses. -/
def mergeClaim (print : Address → Bytes) (sortBuf : Store Bytes (Claim ℤ)) (claim : Claim ℤ) :
    Store Bytes (Claim ℤ) :=
  let addrStr := print claim.recipient
  match sortBuf[addrStr]? with
  | some val => sortBuf.insert addrStr { val with weight := val.weight + claim.weight }
  | none => sortBuf.insert addrStr claim

/-- The claims of the map, in the order in which it is visited. -/
def merged (print : Address → Bytes) (order : ClaimOrder) (cp : List (Claim ℤ)) :
    List (Claim ℤ) :=
  order.visit ((cp.foldl (mergeClaim print) ∅).toList.map Prod.snd)

/-- `ClaimPool.Sort` -/
def sort (print : Address → Bytes) (order : ClaimOrder) (cp : List (Claim ℤ)) :
    List (Claim (Option ℤ)) :=
  let sortBuf := cp.foldl (mergeClaim print) ∅
  List.replicate sortBuf.size zeroClaim ++
    (merged print order cp).map fun claim => ⟨some claim.weight, claim.recipient⟩

/-- The weight that a pool has for a recipient. -/
def weightOf (cp : List (Claim ℤ)) (recipient : Address) : ℤ :=
  ((cp.filter fun claim => claim.recipient = recipient).map Claim.weight).sum

/-- The list has one claim for each recipient of the pool, with the sum of the
weights of the recipient, and no other claims. -/
structure Merges (cp : List (Claim ℤ)) (claims : List (Claim (Option ℤ))) : Prop where
  once : claims.Nodup
  mem_iff : ∀ claim, claim ∈ claims ↔
    ∃ recipient ∈ cp.map Claim.recipient, claim = ⟨some (weightOf cp recipient), recipient⟩

/-- What an entry of the map becomes when a claim arrives. -/
def mergeInto (found : Option (Claim ℤ)) (claim : Claim ℤ) : Option (Claim ℤ) :=
  match found with
  | some val => some { val with weight := val.weight + claim.weight }
  | none => some claim

variable (print : Address → Bytes)

theorem get_mergeClaim (sortBuf : Store Bytes (Claim ℤ)) (claim : Claim ℤ) (text : Bytes) :
    (mergeClaim print sortBuf claim)[text]? =
      if print claim.recipient = text then mergeInto sortBuf[text]? claim else sortBuf[text]? := by
  unfold mergeClaim mergeInto
  by_cases here : print claim.recipient = text
  · subst here
    cases found : sortBuf[print claim.recipient]? with
    | none => simp [found]
    | some val => simp [found]
  · simp only [here, if_false]
    split
    · rw [Store.get_insert, if_neg here]
    · rw [Store.get_insert, if_neg here]

theorem get_foldl_mergeClaim (cp : List (Claim ℤ)) (sortBuf : Store Bytes (Claim ℤ))
    (text : Bytes) :
    (cp.foldl (mergeClaim print) sortBuf)[text]? =
      (cp.filter fun claim => print claim.recipient = text).foldl mergeInto sortBuf[text]? := by
  induction cp generalizing sortBuf with
  | nil => rfl
  | cons claim cp ih =>
      rw [List.foldl_cons, ih, get_mergeClaim]
      by_cases here : print claim.recipient = text
      · simp [here]
      · simp [here]

theorem foldl_mergeInto (first : Claim ℤ) (claims : List (Claim ℤ)) :
    claims.foldl mergeInto (some first) =
      some ⟨first.weight + (claims.map Claim.weight).sum, first.recipient⟩ := by
  induction claims generalizing first with
  | nil => simp
  | cons claim claims ih =>
      refine (ih _).trans ?_
      simp [add_assoc]

section Distinct

variable {print} {cp : List (Claim ℤ)}
  (distinct : Set.InjOn print {recipient | recipient ∈ cp.map Claim.recipient})

include distinct

/-- The map has the merged claim of each recipient under its printed address. -/
theorem get_merged_iff (text : Bytes) (claim : Claim ℤ) :
    (cp.foldl (mergeClaim print) ∅)[text]? = some claim ↔
      ∃ recipient ∈ cp.map Claim.recipient, print recipient = text ∧
        claim = ⟨weightOf cp recipient, recipient⟩ := by
  -- Claims with the same printed recipient have the same recipient.
  have sameRecipient : ∀ recipient ∈ cp.map Claim.recipient,
      (cp.filter fun claim => print claim.recipient = print recipient) =
        cp.filter fun claim => claim.recipient = recipient := by
    intro recipient listed
    refine List.filter_congr fun other otherMem => ?_
    have otherListed : other.recipient ∈ cp.map Claim.recipient := List.mem_map_of_mem otherMem
    simp only [decide_eq_decide]
    exact ⟨distinct otherListed listed, fun same => by rw [same]⟩
  have found : ∀ recipient ∈ cp.map Claim.recipient,
      (cp.foldl (mergeClaim print) ∅)[print recipient]? =
        some ⟨weightOf cp recipient, recipient⟩ := by
    intro recipient listed
    rw [get_foldl_mergeClaim, sameRecipient recipient listed, Store.get_empty, weightOf]
    cases claims : cp.filter fun claim => claim.recipient = recipient with
    | nil =>
        rcases List.mem_map.mp listed with ⟨other, otherMem, rfl⟩
        exact absurd (decide_eq_true rfl) (List.filter_eq_nil_iff.mp claims other otherMem)
    | cons first rest =>
        have firstMem : first ∈ cp.filter fun claim => claim.recipient = recipient := by
          simp [claims]
        have firstRecipient := of_decide_eq_true (List.mem_filter.mp firstMem).2
        refine (foldl_mergeInto first rest).trans ?_
        simp [firstRecipient]
  constructor
  · intro present
    have notEmpty : (cp.filter fun claim => print claim.recipient = text) ≠ [] := by
      intro isEmpty
      rw [get_foldl_mergeClaim, isEmpty, Store.get_empty] at present
      cases present
    rcases List.exists_mem_of_ne_nil _ notEmpty with ⟨other, otherMem⟩
    rcases List.mem_filter.mp otherMem with ⟨listed, printed⟩
    have printed := of_decide_eq_true printed
    have otherListed : other.recipient ∈ cp.map Claim.recipient := List.mem_map_of_mem listed
    refine ⟨other.recipient, otherListed, printed, ?_⟩
    rw [← printed, found _ otherListed] at present
    exact (Option.some.inj present).symm
  · rintro ⟨recipient, listed, rfl, rfl⟩
    exact found recipient listed

/-- The claims that are appended are merged as intended. -/
theorem merged_merges (order : ClaimOrder) :
    Merges cp ((merged print order cp).map fun claim => ⟨some claim.weight, claim.recipient⟩) := by
  have entries := get_merged_iff distinct
  constructor
  · refine List.Nodup.map ?_ ((order.perm _).nodup_iff.mpr ?_)
    · rintro ⟨weight, recipient⟩ ⟨otherWeight, otherRecipient⟩ same
      simpa using same
    · refine (Store.nodup_toList _).map_on ?_
      rintro ⟨text, claim⟩ listed ⟨otherText, _⟩ otherListed rfl
      rcases (entries _ _).mp ((Store.mem_toList_iff _ _).mp listed) with ⟨_, -, rfl, same⟩
      rcases (entries _ _).mp ((Store.mem_toList_iff _ _).mp otherListed) with
        ⟨_, -, rfl, otherSame⟩
      have recipientEq := congrArg Claim.recipient (same.symm.trans otherSame)
      simp only at recipientEq
      rw [recipientEq]
  · intro claim
    simp only [merged, List.mem_map, (order.perm _).mem_iff]
    constructor
    · rintro ⟨found, ⟨⟨text, _⟩, listed, rfl⟩, rfl⟩
      rcases (entries _ _).mp ((Store.mem_toList_iff _ _).mp listed) with
        ⟨recipient, recipientMem, -, claimEq⟩
      simp only at claimEq
      exact ⟨recipient, List.mem_map.mp recipientMem, by rw [claimEq]⟩
    · rintro ⟨recipient, recipientMem, rfl⟩
      have present := (entries (print recipient) ⟨weightOf cp recipient, recipient⟩).mpr
        ⟨recipient, List.mem_map.mpr recipientMem, rfl, rfl⟩
      exact ⟨⟨weightOf cp recipient, recipient⟩,
        ⟨(print recipient, _), (Store.mem_toList_iff _ _).mpr present, rfl⟩, rfl⟩

end Distinct

/-- Printed addresses tell all recipients apart. -/
theorem merged_bech32 (hrp : Bytes) (order : ClaimOrder) (cp : List (Claim ℤ)) :
    Merges cp ((merged (printBech32 hrp) order cp).map
      fun claim => ⟨some claim.weight, claim.recipient⟩) :=
  merged_merges (printBech32_injective hrp).injOn order

theorem size_pos {cp : List (Claim ℤ)} (notEmpty : cp ≠ []) :
    0 < (cp.foldl (mergeClaim print) ∅).size := by
  rcases List.exists_cons_of_ne_nil notEmpty with ⟨claim, rest, rfl⟩
  rw [← Std.ExtTreeMap.length_toList, List.length_pos_iff_exists_mem]
  have present : ∃ found, ((claim :: rest).foldl (mergeClaim print) ∅)[print claim.recipient]? =
      some found := by
    rw [get_foldl_mergeClaim, List.filter_cons, if_pos (decide_eq_true rfl), Store.get_empty]
    exact ⟨_, foldl_mergeInto claim _⟩
  rcases present with ⟨found, present⟩
  exact ⟨(print claim.recipient, found), (Store.mem_toList_iff _ _).mpr present⟩

/-- The pool is sorted as intended only when it is empty: of any other pool the
list starts with a claim without weight. -/
theorem sort_merges_iff (order : ClaimOrder) (cp : List (Claim ℤ)) :
    Merges cp (sort print order cp) ↔ cp = [] := by
  constructor
  · intro merges
    by_contra notEmpty
    have zeroListed : zeroClaim ∈ sort print order cp := by
      apply List.mem_append_left
      rw [List.mem_replicate]
      exact ⟨(size_pos print notEmpty).ne', rfl⟩
    rcases (merges.mem_iff zeroClaim).mp zeroListed with ⟨_, -, same⟩
    cases same
  · rintro rfl
    have nothing : merged print order [] = [] := List.perm_nil.mp (order.perm [])
    have sorted : sort print order [] = [] := by
      simp only [sort, nothing]
      rfl
    rw [sorted]
    exact ⟨List.nodup_nil, by simp⟩

/-- A single claim is sorted into two. -/
theorem sort_adds_zeroClaim :
    sort (printBech32 (ascii "terra")) ⟨id, fun _ => List.Perm.refl _⟩
        [⟨5, List.replicate 20 1⟩] = [zeroClaim, ⟨some 5, List.replicate 20 1⟩] ∧
      ¬Merges [⟨5, List.replicate 20 1⟩]
        (sort (printBech32 (ascii "terra")) ⟨id, fun _ => List.Perm.refl _⟩
          [⟨5, List.replicate 20 1⟩]) := by
  have sorted : sort (printBech32 (ascii "terra")) ⟨id, fun _ => List.Perm.refl _⟩
      [⟨5, List.replicate 20 1⟩] = [zeroClaim, ⟨some 5, List.replicate 20 1⟩] := by
    decide +kernel
  refine ⟨sorted, ?_⟩
  rw [sorted]
  intro merges
  rcases (merges.mem_iff zeroClaim).mp List.mem_cons_self with ⟨_, -, same⟩
  cases same

end ClaimPool

end TerraCore
