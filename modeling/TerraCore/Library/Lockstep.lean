import Mathlib

/-!
# Two computations in lockstep

Rules for comparing two computations that may fail. They are related when both
fail in the same way, or both succeed with related results. A relation that
every part of a program keeps is kept by the program, which is how two runs from
different states are compared.
-/

namespace Lockstep

variable {ε α β γ δ ι : Type}

/-- Both computations fail in the same way, or both succeed with related results. -/
inductive Related (relation : α → β → Prop) : Except ε α → Except ε β → Prop where
  | ok {left : α} {right : β} (related : relation left right) :
      Related relation (.ok left) (.ok right)
  | error (failure : ε) : Related relation (.error failure) (.error failure)

namespace Related

variable {relation : α → β → Prop} {left : Except ε α} {right : Except ε β}

theorem bind {next : γ → δ → Prop} {leftRest : α → Except ε γ} {rightRest : β → Except ε δ}
    (first : Related relation left right)
    (rest : ∀ a b, relation a b → Related next (leftRest a) (rightRest b)) :
    Related next (left >>= leftRest) (right >>= rightRest) := by
  cases first with
  | ok related => exact rest _ _ related
  | error failure => exact .error failure

theorem mono {weaker : α → β → Prop} (both : Related relation left right)
    (weakens : ∀ a b, relation a b → weaker a b) : Related weaker left right := by
  cases both with
  | ok related => exact .ok (weakens _ _ related)
  | error failure => exact .error failure

/-- The same computation on both sides. -/
theorem same (outcome : Except ε α) : Related (· = ·) outcome outcome := by
  cases outcome with
  | ok value => exact .ok rfl
  | error failure => exact .error failure

/-- A loop keeps what its body keeps. -/
theorem foldlM {leftBody : α → ι → Except ε α} {rightBody : β → ι → Except ε β} {items : List ι}
    (body : ∀ item ∈ items, ∀ a b, relation a b →
      Related relation (leftBody a item) (rightBody b item))
    {a : α} {b : β} (start : relation a b) :
    Related relation (items.foldlM leftBody a) (items.foldlM rightBody b) := by
  induction items generalizing a b with
  | nil => exact .ok start
  | cons item items ih =>
      rw [List.foldlM_cons, List.foldlM_cons]
      refine (body item List.mem_cons_self a b start).bind ?_
      intro nextLeft nextRight related
      exact ih (fun other otherMem => body other (List.mem_cons_of_mem _ otherMem)) related

/-- The left result is the one that the left computation returns. -/
theorem returned (both : Related relation left right) :
    Related (fun a b => relation a b ∧ left = .ok a) left right := by
  cases both with
  | ok related => exact .ok ⟨related, rfl⟩
  | error failure => exact .error failure

/-- Results that are related by a function. -/
theorem eq_map {image : α → β} (both : Related (fun a b => b = image a) left right) :
    right = left.map image := by
  cases both with
  | ok related =>
      rw [related]
      rfl
  | error failure => rfl

theorem cases_eq (both : Related relation left right) :
    (∃ a b, left = .ok a ∧ right = .ok b ∧ relation a b) ∨
      ∃ failure, left = .error failure ∧ right = .error failure := by
  cases both with
  | ok related => exact Or.inl ⟨_, _, rfl, rfl, related⟩
  | error failure => exact Or.inr ⟨failure, rfl, rfl⟩

end Related

/-- A loop that can fail follows a loop that cannot when its body does. -/
theorem foldlM_follows (relation : α → β → Prop) {body : α → ι → Option α} {image : β → ι → β}
    {items : List ι}
    (follows : ∀ item ∈ items, ∀ a b, relation a b →
      ∃ next, body a item = some next ∧ relation next (image b item))
    {a : α} {b : β} (start : relation a b) :
    ∃ final, items.foldlM body a = some final ∧ relation final (items.foldl image b) := by
  induction items generalizing a b with
  | nil => exact ⟨a, rfl, start⟩
  | cons item items ih =>
      rcases follows item List.mem_cons_self a b start with ⟨next, taken, related⟩
      rcases ih (fun other otherMem => follows other (List.mem_cons_of_mem _ otherMem)) related with
        ⟨final, rest, finalRelated⟩
      exact ⟨final, by simp [taken, rest], finalRelated⟩

end Lockstep
