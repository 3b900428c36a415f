import Mathlib

/-!
# Texts with separators

Fields that are joined by a separator can be told apart from one side when the
fields on that side are free of it. A field that may itself contain the
separator is found from the other side, or, when it is short, because what
follows it is long and free of separators.
-/

namespace Separator

variable {α : Type}

/-- The text after the last separator determines the text before it. -/
theorem last_unique {separator : α} {before before' after after' : List α}
    (free : separator ∉ after) (free' : separator ∉ after')
    (same : before ++ separator :: after = before' ++ separator :: after') :
    before = before' ∧ after = after' := by
  rcases List.append_eq_append_iff.mp same with ⟨gap, beforeEq, rest⟩ | ⟨gap, beforeEq, rest⟩
  · cases gap with
    | nil =>
        rw [List.nil_append, List.cons.injEq] at rest
        exact ⟨by simpa using beforeEq.symm, rest.2⟩
    | cons first gap =>
        rw [List.cons_append, List.cons.injEq] at rest
        exact absurd (by rw [rest.2]; simp) free
  · cases gap with
    | nil =>
        rw [List.nil_append, List.cons.injEq] at rest
        exact ⟨by simpa using beforeEq, rest.2.symm⟩
    | cons first gap =>
        rw [List.cons_append, List.cons.injEq] at rest
        exact absurd (by rw [rest.2]; simp) free'

/-- The text before the first separator determines the text after it. -/
theorem first_unique {separator : α} {before before' after after' : List α}
    (free : separator ∉ before) (free' : separator ∉ before')
    (same : before ++ separator :: after = before' ++ separator :: after') :
    before = before' ∧ after = after' := by
  have reversed : after.reverse ++ separator :: before.reverse =
      after'.reverse ++ separator :: before'.reverse := by
    simpa using congrArg List.reverse same
  have unique := last_unique (by simpa using free) (by simpa using free') reversed
  exact ⟨List.reverse_injective unique.2, List.reverse_injective unique.1⟩

/-- A header that may contain separators ends where it does in one text only,
when a separator-free field longer than any header follows. -/
theorem header_length_le {separator : α} {header header' field after after' : List α}
    (long : header'.length ≤ field.length) (free : separator ∉ field)
    (same : header ++ separator :: (field ++ after) = header' ++ separator :: after') :
    header'.length ≤ header.length := by
  by_contra shorter
  rw [not_le] at shorter
  -- The separator behind the longer header falls into the field.
  have position : (header ++ separator :: (field ++ after))[header'.length]? = some separator := by
    rw [same]
    simp
  have offset : header'.length = header.length + ((header'.length - header.length - 1) + 1) := by
    omega
  rw [offset, List.getElem?_append_right (by omega), Nat.add_sub_cancel_left,
    List.getElem?_cons_succ, List.getElem?_append_left (by omega)] at position
  exact free (List.mem_of_getElem? position)

/-- Short headers in front of long separator-free fields are unique. -/
theorem header_unique {separator : α} {header header' field field' after after' : List α}
    (long : header'.length ≤ field.length) (long' : header.length ≤ field'.length)
    (free : separator ∉ field) (free' : separator ∉ field')
    (same : header ++ separator :: (field ++ after) =
      header' ++ separator :: (field' ++ after')) :
    header = header' ∧ field ++ after = field' ++ after' := by
  have sameLength : header.length = header'.length :=
    le_antisymm (header_length_le long' free' same.symm) (header_length_le long free same)
  have split := List.append_inj same sameLength
  rw [List.cons.injEq] at split
  exact ⟨split.1, split.2.2⟩

/-- A field and the start of what follows it are the start of a text when they
are found there, or when the text's own field starts with all of them. -/
theorem prefix_iff {separator : α} {field field' start after : List α}
    (free : separator ∉ start) (free' : separator ∉ after) :
    field ++ separator :: start <+: field' ++ separator :: after ↔
      (field = field' ∧ start <+: after) ∨ field ++ separator :: start <+: field' := by
  constructor
  · rintro ⟨rest, same⟩
    rcases List.append_eq_append_iff.mp same with ⟨gap, fieldEq, -⟩ | ⟨gap, fieldEq, tail⟩
    · exact Or.inr ⟨gap, fieldEq.symm⟩
    · cases gap with
      | nil => exact Or.inr ⟨[], by simpa using fieldEq⟩
      | cons first gap =>
          rw [List.cons_append, List.cons.injEq] at tail
          rw [← tail.1] at fieldEq
          have gapFree : separator ∉ gap := by
            intro listed
            exact free' (by rw [tail.2]; exact List.mem_append_left rest listed)
          have unique := last_unique free gapFree fieldEq
          exact Or.inl ⟨unique.1, rest, by rw [unique.2, tail.2]⟩
  · rintro (⟨rfl, rest, rfl⟩ | longer)
    · exact ⟨rest, by simp⟩
    · exact longer.trans (List.prefix_append _ _)

end Separator
