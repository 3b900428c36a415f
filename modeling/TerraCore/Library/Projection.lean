import TerraCore.Library.Transition

/-!
# Parts of a system

A part of a system has actions of its own, and one for everything that the rest
may do. When each step of the system is a sequence of such actions, so is each
run, and what is known about the runs of the part holds of the system.
-/

namespace Projection

open Transition

variable {σ τ α β : Type} {whole : σ → α → Option σ} {part : τ → β → Option τ} {view : σ → τ}

variable (whole part view) in
/-- The steps of the system that meet the condition keep the invariant, and what
they write down is what happens to the part. -/
def Follows (invariant : σ → Prop) (condition : σ → α → Prop) (write : σ → α → List β) : Prop :=
  ∀ before action after, invariant before → condition before action →
    whole before action = some after →
    Reaches part (view before) (write before action) (view after) ∧ invariant after

variable {invariant : σ → Prop} {condition : σ → α → Prop} {write : σ → α → List β}

/-- A run of the system is a run of the part. -/
theorem Follows.reaches (follows : Follows whole part view invariant condition write)
    {start finish : σ} {actions : List α} (reached : Reaches whole start actions finish)
    (along : Along whole condition start actions) (initially : invariant start) :
    Reaches part (view start) (record whole write start actions) (view finish) := by
  induction actions generalizing start with
  | nil =>
      rw [reached.eq_of_nil]
      exact .refl
  | cons action actions ih =>
      rcases reached.of_cons with ⟨next, taken, rest⟩
      rcases follows _ _ _ initially along.1 taken with ⟨here, preserved⟩
      rw [record_cons taken]
      exact here.trans (ih rest (along.2 next taken) preserved)

end Projection
