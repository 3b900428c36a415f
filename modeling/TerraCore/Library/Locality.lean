import Mathlib

/-!
# Loops of local updates

A loop visits items and updates a state which is divided into parts. The update
for an item is local when it changes nothing but the part of that item, in a
way that depends on nothing but this part. When no part is visited twice, the
loop then does to every part what a single update does to it.

Whether two states are the same in a part is given as a family of equivalence
relations, so that nothing needs to be known about how states are composed.
-/

namespace Locality

variable {ι σ β : Type} {agree : ι → σ → σ → Prop} {part : β → ι} {update : σ → β → σ}

/-- The update for an item changes nothing but its own part. -/
def Framed (agree : ι → σ → σ → Prop) (part : β → ι) (update : σ → β → σ) : Prop :=
  ∀ state item other, other ≠ part item → agree other (update state item) state

/-- The update for an item depends on nothing but its own part. -/
def Confined (agree : ι → σ → σ → Prop) (part : β → ι) (update : σ → β → σ) : Prop :=
  ∀ left right item, agree (part item) left right →
    agree (part item) (update left item) (update right item)

section Loop

variable (equivalence : ∀ other, Equivalence (agree other)) (framed : Framed agree part update)

include equivalence framed

theorem foldl_of_not_mem (items : List β) (state : σ) {other : ι}
    (notVisited : other ∉ items.map part) : agree other (items.foldl update state) state := by
  induction items generalizing state with
  | nil => exact (equivalence other).refl state
  | cons item items ih =>
      rw [List.map_cons, List.mem_cons, not_or] at notVisited
      exact (equivalence other).trans (ih (update state item) notVisited.2)
        (framed state item other notVisited.1)

theorem foldl_of_mem (confined : Confined agree part update) {items : List β} (state : σ)
    (distinct : (items.map part).Nodup) {item : β} (visited : item ∈ items) :
    agree (part item) (items.foldl update state) (update state item) := by
  induction items generalizing state with
  | nil => cases visited
  | cons head tail ih =>
      rw [List.map_cons, List.nodup_cons] at distinct
      rcases List.mem_cons.mp visited with rfl | later
      · exact foldl_of_not_mem equivalence framed tail _ distinct.1
      · have different : part item ≠ part head := fun same =>
          distinct.1 (same ▸ List.mem_map_of_mem later)
        exact (equivalence _).trans (ih (update state head) distinct.2 later)
          (confined _ _ item (framed state head _ different))

/-- The order of the visits does not matter to any part. -/
theorem foldl_perm (confined : Confined agree part update) {first second : List β}
    (perm : first.Perm second) (distinct : (first.map part).Nodup) (state : σ) (other : ι) :
    agree other (first.foldl update state) (second.foldl update state) := by
  by_cases visited : other ∈ first.map part
  · rcases List.mem_map.mp visited with ⟨item, itemMem, rfl⟩
    have distinct' := ((perm.map part).nodup_iff).mp distinct
    exact (equivalence _).trans
      (foldl_of_mem equivalence framed confined state distinct itemMem)
      ((equivalence _).symm
        (foldl_of_mem equivalence framed confined state distinct' (perm.mem_iff.mp itemMem)))
  · have notVisited := fun later => visited (((perm.map part).mem_iff).mpr later)
    exact (equivalence _).trans (foldl_of_not_mem equivalence framed first state visited)
      ((equivalence _).symm (foldl_of_not_mem equivalence framed second state notVisited))

/-- An invariant of the loop. Each item is visited in a state which still agrees
with the first one in the part of the item. -/
theorem foldl_induction (invariant : σ → Prop) {items : List β} (start : σ)
    (distinct : (items.map part).Nodup)
    (preserved : ∀ state, ∀ item ∈ items, agree (part item) state start →
      invariant state → invariant (update state item))
    (initially : invariant start) : invariant (items.foldl update start) := by
  -- The state is generalised to one that agrees with the start in all parts still to be visited.
  suffices general : ∀ (rest : List β) (state : σ), (rest.map part).Nodup →
      (∀ item ∈ rest, item ∈ items) → (∀ item ∈ rest, agree (part item) state start) →
      invariant state → invariant (rest.foldl update state) from
    general items start distinct (fun _ visited => visited)
      (fun item _ => (equivalence (part item)).refl start) initially
  intro rest
  induction rest with
  | nil => exact fun _ _ _ _ holds => holds
  | cons head tail ih =>
      intro state distinct within agrees holds
      rw [List.map_cons, List.nodup_cons] at distinct
      refine ih (update state head) distinct.2
        (fun item later => within item (List.mem_cons_of_mem _ later)) ?_
        (preserved state head (within head List.mem_cons_self) (agrees head List.mem_cons_self)
          holds)
      intro item later
      have different : part item ≠ part head := fun same =>
        distinct.1 (same ▸ List.mem_map_of_mem later)
      exact (equivalence _).trans (framed state head _ different)
        (agrees item (List.mem_cons_of_mem _ later))

end Loop

end Locality
