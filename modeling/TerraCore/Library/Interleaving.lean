import TerraCore.Library.Transition

/-!
# Interleavings of independent actions

The state of a system has parts, and an action touches some of them. Two
actions that touch no common part are independent. When independent actions
commute, a run is determined by what each part sees of it: two lists of actions
that look alike from every part lead to the same state.
-/

namespace Interleaving

open Transition

variable {σ α ι : Type} {step : σ → α → Option σ} {touches : α → ι → Prop}

variable (touches) in
/-- The actions touch no common part. -/
def Independent (first second : α) : Prop := ∀ part, touches first part → ¬touches second part

variable (step touches) in
/-- Independent actions can be swapped. -/
def Commutes : Prop :=
  ∀ first second, Independent touches first second → ∀ state,
    (step state first).bind (step · second) = (step state second).bind (step · first)

theorem perform_cons (start : σ) (action : α) (actions : List α) :
    perform step start (action :: actions) =
      (step start action).bind fun next => perform step next actions := rfl

/-- An action moves to the front of actions that are independent of it. -/
theorem perform_move_front (commutes : Commutes step touches) {action : α} {earlier : List α}
    (independent : ∀ other ∈ earlier, Independent touches other action) (later : List α)
    (start : σ) :
    perform step start (earlier ++ action :: later) =
      perform step start (action :: (earlier ++ later)) := by
  induction earlier generalizing start with
  | nil => rfl
  | cons other earlier ih =>
      have swapped := commutes other action (independent other List.mem_cons_self) start
      have rest (next : σ) := ih (fun each eachMem =>
        independent each (List.mem_cons_of_mem _ eachMem)) next
      calc perform step start (other :: (earlier ++ action :: later))
          = (step start other).bind fun next =>
              perform step next (action :: (earlier ++ later)) := by
            simp only [perform_cons, rest]
        _ = ((step start other).bind (step · action)).bind fun next =>
              perform step next (earlier ++ later) := by
            simp only [perform_cons, Option.bind_assoc]
        _ = ((step start action).bind (step · other)).bind fun next =>
              perform step next (earlier ++ later) := by rw [swapped]
        _ = perform step start (action :: other :: (earlier ++ later)) := by
            simp only [perform_cons, Option.bind_assoc]

variable [∀ part, DecidablePred (touches · part)]

/-- What a part sees of a list of actions. -/
def view (touches : α → ι → Prop) [∀ part, DecidablePred (touches · part)] (part : ι)
    (actions : List α) : List α :=
  actions.filter fun action => decide (touches action part)

/-- The first action that a part sees, with what comes before it. -/
theorem view_eq_cons {part : ι} {action : α} {actions seen : List α}
    (viewEq : view touches part actions = action :: seen) :
    ∃ earlier later, actions = earlier ++ action :: later ∧
      (∀ other ∈ earlier, ¬touches other part) ∧ view touches part later = seen := by
  rcases List.filter_eq_cons_iff.mp viewEq with ⟨earlier, later, split, unseen, -, rest⟩
  refine ⟨earlier, later, split, ?_, rest⟩
  intro other otherMem
  simpa using unseen other otherMem

theorem view_append (part : ι) (first second : List α) :
    view touches part (first ++ second) = view touches part first ++ view touches part second :=
  List.filter_append ..

theorem view_cons_of_touches {part : ι} {action : α} (touched : touches action part)
    (actions : List α) :
    view touches part (action :: actions) = action :: view touches part actions :=
  List.filter_cons_of_pos (by simpa using touched)

theorem view_cons_of_not_touches {part : ι} {action : α} (untouched : ¬touches action part)
    (actions : List α) :
    view touches part (action :: actions) = view touches part actions :=
  List.filter_cons_of_neg (by simpa using untouched)

/-- Nothing is seen by the parts that nothing touches. -/
theorem view_eq_nil {part : ι} {actions : List α}
    (untouched : ∀ action ∈ actions, ¬touches action part) : view touches part actions = [] := by
  rw [view, List.filter_eq_nil_iff]
  intro action actionMem
  simpa using untouched action actionMem

/-- What comes before the first action that one of its parts sees is independent of it. -/
theorem independent_of_views {action : α} {actions earlier later : List α} {part : ι}
    (touched : touches action part)
    (same : ∀ other, view touches other (action :: actions) =
      view touches other (earlier ++ action :: later))
    (unseen : ∀ other ∈ earlier, ¬touches other part) {other : α} (otherMem : other ∈ earlier) :
    Independent touches other action := by
  intro shared otherTouches actionTouches
  -- The shared part sees the action first, so that it does not see the other one before it.
  have viewEq := same shared
  rw [view_cons_of_touches actionTouches] at viewEq
  rcases view_eq_cons viewEq.symm with ⟨front, back, split, frontUnseen, -⟩
  rcases List.append_eq_append_iff.mp split with
    ⟨between, frontEq, -⟩ | ⟨between, earlierEq, backEq⟩
  · exact frontUnseen other (by rw [frontEq]; exact List.mem_append_left _ otherMem) otherTouches
  · cases between with
    | nil =>
        rw [List.append_nil] at earlierEq
        exact frontUnseen other (by rw [← earlierEq]; exact otherMem) otherTouches
    | cons first between =>
        -- Otherwise the action would already be among the earlier ones.
        have firstEq : action = first := (List.cons.inj backEq).1
        refine absurd touched (unseen action ?_)
        rw [earlierEq, firstEq]
        exact List.mem_append_right _ List.mem_cons_self

/-- Lists of actions that look alike from every part lead to the same state. -/
theorem perform_eq_of_views (commutes : Commutes step touches)
    (touched : ∀ action, ∃ part, touches action part) {first second : List α}
    (same : ∀ part, view touches part first = view touches part second) (start : σ) :
    perform step start first = perform step start second := by
  induction first generalizing second start with
  | nil =>
      cases second with
      | nil => rfl
      | cons action second =>
          rcases touched action with ⟨part, touchesPart⟩
          have viewEq := same part
          rw [view_cons_of_touches touchesPart] at viewEq
          cases viewEq
  | cons action first ih =>
      rcases touched action with ⟨part, touchesPart⟩
      have viewEq := same part
      rw [view_cons_of_touches touchesPart] at viewEq
      rcases view_eq_cons viewEq.symm with ⟨earlier, later, rfl, unseen, -⟩
      have independent : ∀ other ∈ earlier, Independent touches other action :=
        fun other otherMem => independent_of_views touchesPart same unseen otherMem
      rw [perform_move_front commutes independent, perform_cons, perform_cons]
      -- The action is removed from every view that it is part of.
      have rest : ∀ other, view touches other first = view touches other (earlier ++ later) := by
        intro other
        have viewEq := same other
        rw [view_append] at viewEq
        by_cases touchesOther : touches action other
        · have none : view touches other earlier = [] :=
            view_eq_nil fun each eachMem eachTouches =>
              independent each eachMem other eachTouches touchesOther
          rw [view_cons_of_touches touchesOther, view_cons_of_touches touchesOther, none,
            List.nil_append] at viewEq
          rw [view_append, none, List.nil_append]
          exact (List.cons.inj viewEq).2
        · rw [view_cons_of_not_touches touchesOther, view_cons_of_not_touches touchesOther] at viewEq
          rw [view_append, viewEq]
      exact Option.bind_congr fun next _ => ih rest next

end Interleaving
