import TerraCore.Library.Transition

/-!
# Potentials

A potential is a value of the state that no step raises by more than it earns,
less what it spends. Along a run the amounts add up: the potential at the end,
together with everything that was spent, is at most the potential at the start
together with everything that was earned.
-/

namespace Potential

open Transition

variable {σ α R : Type} (step : σ → α → Option σ)

section Totals

variable [AddCommMonoid R]

/-- The sum of an amount over the steps of a run. -/
def total (amount : σ → α → R) : σ → List α → R
  | _, [] => 0
  | state, action :: actions =>
      match step state action with
      | some next => amount state action + total amount next actions
      | none => 0

variable {step}

@[simp]
theorem total_nil (amount : σ → α → R) (state : σ) : total step amount state [] = 0 := rfl

theorem total_cons (amount : σ → α → R) {state next : σ} {action : α}
    (taken : step state action = some next) (actions : List α) :
    total step amount state (action :: actions) =
      amount state action + total step amount next actions := by
  simp only [total, taken]

theorem total_add (first second : σ → α → R) (state : σ) (actions : List α) :
    total step (fun state action => first state action + second state action) state actions =
      total step first state actions + total step second state actions := by
  induction actions generalizing state with
  | nil => simp
  | cons action actions ih =>
      cases taken : step state action with
      | none => simp [total, taken]
      | some next =>
          simp only [total_cons _ taken, ih]
          apply add_add_add_comm

end Totals

section Order

variable [AddCommMonoid R] [PartialOrder R] [IsOrderedAddMonoid R] {step}

/-- Amounts that are never negative on the way have a total that is not negative. -/
theorem total_nonneg {amount : σ → α → R} (invariant : σ → Prop) {condition : σ → α → Prop}
    (nonneg : ∀ state action, invariant state → 0 ≤ amount state action)
    (preserved : ∀ before action after, invariant before → condition before action →
      step before action = some after → invariant after)
    {start : σ} {actions : List α} (along : Along step condition start actions)
    (initially : invariant start) : 0 ≤ total step amount start actions := by
  induction actions generalizing start with
  | nil => simp
  | cons action actions ih =>
      cases taken : step start action with
      | none => simp [total, taken]
      | some next =>
          rw [total_cons _ taken]
          apply add_nonneg (nonneg start action initially)
          exact ih (along.2 next taken) (preserved _ _ _ initially along.1 taken)

/-- Over a run the potential grows by what is earned less what is spent, at most. -/
theorem le_of_steps (potential : σ → R) (earned spent : σ → α → R) (invariant : σ → Prop)
    {condition : σ → α → Prop}
    (accounted : ∀ before action after, invariant before → condition before action →
      step before action = some after →
      potential after + spent before action ≤ potential before + earned before action ∧
        invariant after)
    {start finish : σ} {actions : List α} (reached : Reaches step start actions finish)
    (along : Along step condition start actions) (initially : invariant start) :
    potential finish + total step spent start actions ≤
      potential start + total step earned start actions := by
  induction actions generalizing start with
  | nil =>
      rw [reached.eq_of_nil]
      simp
  | cons action actions ih =>
      rcases reached.of_cons with ⟨next, taken, rest⟩
      rcases accounted _ _ _ initially along.1 taken with ⟨here, preserved⟩
      have later := ih rest (along.2 next taken) preserved
      rw [total_cons _ taken, total_cons _ taken]
      calc potential finish + (spent start action + total step spent next actions)
          = (potential finish + total step spent next actions) + spent start action := by
            rw [add_comm (spent start action), add_assoc]
        _ ≤ (potential next + total step earned next actions) + spent start action := by
            gcongr
        _ = (potential next + spent start action) + total step earned next actions := by
            rw [add_right_comm]
        _ ≤ (potential start + earned start action) + total step earned next actions := by
            gcongr
        _ = potential start + (earned start action + total step earned next actions) := by
            rw [add_assoc]

end Order

end Potential
