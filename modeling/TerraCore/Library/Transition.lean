import Mathlib

/-!
# Runs of a partial step function

A step function takes a state and an action to the next state, or to nothing
when the system halts. Runs are finite sequences of actions. The rules below
turn facts about one step into facts about whole runs: an invariant of the
step holds in every state reached, and a quantity which no step raises stays
constant exactly as long as no step lowers it. What the steps of a run write
down is a list, which is compared with other such lists step by step.
-/

namespace Transition

variable {σ α : Type} (step : σ → α → Option σ)

/-- `Reaches step start actions state`: performing `actions` from `start` ends in `state`. -/
inductive Reaches (start : σ) : List α → σ → Prop where
  | refl : Reaches start [] start
  | snoc {actions : List α} {state next : σ} {action : α}
      (before : Reaches start actions state) (taken : step state action = some next) :
      Reaches start (actions ++ [action]) next

/-- Every state of the run satisfies the property, the first and the last included. -/
def Throughout (property : σ → Prop) : σ → List α → Prop
  | state, [] => property state
  | state, action :: actions =>
      property state ∧
        ∀ next, step state action = some next → Throughout property next actions

/-- Every action of the run is taken in a state which meets the condition. -/
def Along (condition : σ → α → Prop) : σ → List α → Prop
  | _, [] => True
  | state, action :: actions =>
      condition state action ∧
        ∀ next, step state action = some next → Along condition next actions

/-- Perform a list of actions. -/
def perform (state : σ) : List α → Option σ
  | [] => some state
  | action :: actions => do
      let next ← step state action
      perform next actions

instance decidableAlong {condition : σ → α → Prop}
    [∀ state action, Decidable (condition state action)] :
    (state : σ) → (actions : List α) → Decidable (Along step condition state actions)
  | _, [] => .isTrue trivial
  | state, action :: actions =>
      match taken : step state action with
      | none => decidable_of_iff (condition state action) (by simp [Along, taken])
      | some next =>
          have : Decidable (Along step condition next actions) := decidableAlong next actions
          decidable_of_iff (condition state action ∧ Along step condition next actions)
            (by simp [Along, taken])

variable {step}

theorem Reaches.single {start next : σ} {action : α} (taken : step start action = some next) :
    Reaches step start [action] next := by
  rw [← List.nil_append [action]]
  exact Reaches.refl.snoc taken

theorem Reaches.trans {start middle finish : σ} {first second : List α}
    (left : Reaches step start first middle) (right : Reaches step middle second finish) :
    Reaches step start (first ++ second) finish := by
  induction right with
  | refl => simpa using left
  | snoc _ taken ih =>
      rw [← List.append_assoc]
      exact ih.snoc taken

theorem Reaches.invariant (invariant : σ → Prop) {start state : σ} {actions : List α}
    (preserved : ∀ before action after,
      invariant before → step before action = some after → invariant after)
    (reached : Reaches step start actions state) (initially : invariant start) :
    invariant state := by
  induction reached with
  | refl => exact initially
  | snoc _ taken ih => exact preserved _ _ _ ih taken

theorem Reaches.cons {start next finish : σ} {action : α} {actions : List α}
    (taken : step start action = some next) (rest : Reaches step next actions finish) :
    Reaches step start (action :: actions) finish :=
  (Reaches.single taken).trans rest

theorem reaches_of_perform {start finish : σ} {actions : List α}
    (performed : perform step start actions = some finish) :
    Reaches step start actions finish := by
  induction actions generalizing start with
  | nil =>
      cases performed
      exact .refl
  | cons action actions ih =>
      rcases Option.bind_eq_some_iff.mp performed with ⟨next, taken, rest⟩
      exact .cons taken (ih rest)

theorem Reaches.eq_of_nil {start finish : σ} (reached : Reaches step start [] finish) :
    finish = start := by
  generalize none : ([] : List α) = actions at reached
  cases reached with
  | refl => rfl
  | snoc => simp at none

theorem Reaches.of_cons {start finish : σ} {action : α} {actions : List α}
    (reached : Reaches step start (action :: actions) finish) :
    ∃ next, step start action = some next ∧ Reaches step next actions finish := by
  generalize all : action :: actions = performed at reached
  induction reached generalizing actions with
  | refl => cases all
  | @snoc earlier state finish final before taken ih =>
      rcases List.eq_nil_or_concat actions with rfl | ⟨front, last, rfl⟩
      · -- The only action is the last one.
        have earlierEq : earlier = [] := by
          have := congrArg List.length all
          simp at this
          exact this
        subst earlierEq
        rw [before.eq_of_nil] at taken
        have actionEq : action = final := by simpa using all
        subst actionEq
        exact ⟨finish, taken, .refl⟩
      · rw [List.concat_eq_append, ← List.cons_append] at all
        rcases List.append_inj' all rfl with ⟨earlierEq, lastEq⟩
        rcases ih earlierEq with ⟨next, first, rest⟩
        have lastEq : last = final := by simpa using lastEq
        subst lastEq
        exact ⟨next, first, by rw [List.concat_eq_append]; exact rest.snoc taken⟩

/-- A run ends in one state. -/
theorem Reaches.unique {start first second : σ} {actions : List α}
    (left : Reaches step start actions first) (right : Reaches step start actions second) :
    first = second := by
  induction actions generalizing start with
  | nil => rw [left.eq_of_nil, right.eq_of_nil]
  | cons action actions ih =>
      rcases left.of_cons with ⟨next, taken, rest⟩
      rcases right.of_cons with ⟨other, otherTaken, otherRest⟩
      cases taken.symm.trans otherTaken
      exact ih rest otherRest

/-- A condition that held along a run and holds for one more action holds along
the longer run. -/
theorem Along.snoc {condition : σ → α → Prop} {start state : σ} {actions : List α} {action : α}
    (along : Along step condition start actions) (reached : Reaches step start actions state)
    (holds : condition state action) : Along step condition start (actions ++ [action]) := by
  induction actions generalizing start with
  | nil =>
      rw [reached.eq_of_nil] at holds
      exact ⟨holds, fun _ _ => trivial⟩
  | cons first actions ih =>
      rcases reached.of_cons with ⟨next, taken, rest⟩
      refine ⟨along.1, ?_⟩
      intro other otherTaken
      have nextEq : next = other := Option.some.inj (taken.symm.trans otherTaken)
      subst nextEq
      exact ih (along.2 next taken) rest

theorem Along.and {first second : σ → α → Prop} {start : σ} {actions : List α}
    (left : Along step first start actions) (right : Along step second start actions) :
    Along step (fun state action => first state action ∧ second state action) start actions := by
  induction actions generalizing start with
  | nil => trivial
  | cons action actions ih =>
      exact ⟨⟨left.1, right.1⟩, fun next taken => ih (left.2 next taken) (right.2 next taken)⟩

/-- A run goes on from where its first actions end. -/
theorem Reaches.of_append {start middle finish : σ} {first second : List α}
    (reached : Reaches step start (first ++ second) finish)
    (before : Reaches step start first middle) : Reaches step middle second finish := by
  induction first generalizing start with
  | nil =>
      rw [before.eq_of_nil]
      exact reached
  | cons action first ih =>
      rcases reached.of_cons with ⟨next, taken, rest⟩
      rcases before.of_cons with ⟨other, otherTaken, beforeRest⟩
      cases taken.symm.trans otherTaken
      exact ih rest beforeRest

theorem Along.of_append {condition : σ → α → Prop} {start middle : σ} {first second : List α}
    (along : Along step condition start (first ++ second))
    (before : Reaches step start first middle) : Along step condition middle second := by
  induction first generalizing start with
  | nil =>
      rw [before.eq_of_nil]
      exact along
  | cons action first ih =>
      rcases before.of_cons with ⟨next, taken, rest⟩
      exact ih (along.2 next taken) rest

theorem throughout_of_invariant (invariant : σ → Prop) {property : σ → Prop}
    (preserved : ∀ before action after,
      invariant before → step before action = some after → invariant after)
    (implies : ∀ state, invariant state → property state)
    {start : σ} (actions : List α) (initially : invariant start) :
    Throughout step property start actions := by
  induction actions generalizing start with
  | nil => exact implies start initially
  | cons action actions ih =>
      refine ⟨implies start initially, ?_⟩
      intro next taken
      exact ih (preserved _ _ _ initially taken)

theorem along_of_forall {condition : σ → α → Prop} {actions : List α}
    (always : ∀ action ∈ actions, ∀ state, condition state action) (start : σ) :
    Along step condition start actions := by
  induction actions generalizing start with
  | nil => trivial
  | cons action actions ih =>
      refine ⟨always action List.mem_cons_self start, ?_⟩
      intro next _
      exact ih (fun later laterMem => always later (List.mem_cons_of_mem _ laterMem)) next

/-- An invariant of the steps that meet a condition holds throughout every run
whose steps all meet it. -/
theorem throughout_of_along (invariant : σ → Prop) {property : σ → Prop}
    {condition : σ → α → Prop}
    (preserved : ∀ before action after, invariant before → condition before action →
      step before action = some after → invariant after)
    (implies : ∀ state, invariant state → property state)
    {start : σ} (actions : List α) (along : Along step condition start actions)
    (initially : invariant start) : Throughout step property start actions := by
  induction actions generalizing start with
  | nil => exact implies start initially
  | cons action actions ih =>
      refine ⟨implies start initially, ?_⟩
      intro next taken
      exact ih (along.2 next taken) (preserved _ _ _ initially along.1 taken)

/-- An invariant of the steps that meet a condition holds at the end of every
run whose steps all meet it. -/
theorem Reaches.invariant_of_along (invariant : σ → Prop) {condition : σ → α → Prop}
    (preserved : ∀ before action after, invariant before → condition before action →
      step before action = some after → invariant after)
    {start state : σ} {actions : List α} (reached : Reaches step start actions state)
    (along : Along step condition start actions) (initially : invariant start) :
    invariant state := by
  induction actions generalizing start with
  | nil =>
      rw [reached.eq_of_nil]
      exact initially
  | cons action actions ih =>
      rcases reached.of_cons with ⟨next, taken, rest⟩
      exact ih rest (along.2 next taken) (preserved _ _ _ initially along.1 taken)

/-- A relation that silent steps keep on the left and other steps keep on both
sides relates the end of a run to the end of the run without its silent steps. -/
theorem Reaches.without_silent (relation : σ → σ → Prop) {silent : α → Bool}
    {condition : σ → α → Prop}
    (absorbed : ∀ before action after other, silent action = true → condition before action →
      step before action = some after → relation before other → relation after other)
    (followed : ∀ before action after other, silent action = false →
      step before action = some after → relation before other →
      ∃ otherAfter, step other action = some otherAfter ∧ relation after otherAfter)
    {start other state : σ} {actions : List α} (reached : Reaches step start actions state)
    (along : Along step condition start actions) (related : relation start other) :
    ∃ bare, Reaches step other (actions.filter fun action => !silent action) bare ∧
      relation state bare := by
  induction actions generalizing start other with
  | nil =>
      rw [reached.eq_of_nil]
      exact ⟨other, .refl, related⟩
  | cons action actions ih =>
      rcases reached.of_cons with ⟨next, taken, rest⟩
      cases isSilent : silent action with
      | true =>
          rw [List.filter_cons_of_neg (by simp [isSilent])]
          exact ih rest (along.2 next taken) (absorbed _ _ _ _ isSilent along.1 taken related)
      | false =>
          rw [List.filter_cons_of_pos (by simp [isSilent])]
          rcases followed _ _ _ _ isSilent taken related with ⟨otherNext, otherTaken, nextRelated⟩
          rcases ih rest (along.2 next taken) nextRelated with ⟨bare, bareReached, bareRelated⟩
          exact ⟨bare, .cons otherTaken bareReached, bareRelated⟩

theorem along_congr {first second : σ → α → Prop}
    (same : ∀ state action, first state action ↔ second state action) {start : σ}
    {actions : List α} : Along step first start actions ↔ Along step second start actions := by
  induction actions generalizing start with
  | nil => exact Iff.rfl
  | cons action actions ih => simp only [Along, same, ih]

/-- A quantity that each step lowers by a non-negative loss keeps its initial
value throughout a run exactly when every step of the run loses nothing. -/
theorem throughout_const_iff_along (invariant : σ → Prop) {quantity : σ → ℤ}
    {loss : σ → α → ℤ}
    (preserved : ∀ before action after,
      invariant before → step before action = some after → invariant after)
    (lossNonneg : ∀ state action, 0 ≤ loss state action)
    (lowers : ∀ before action after, invariant before → step before action = some after →
      quantity after = quantity before - loss before action)
    {start : σ} (actions : List α) (initially : invariant start) :
    Throughout step (fun state => quantity state = quantity start) start actions ↔
      Along step (fun state action =>
        (step state action).isSome → loss state action = 0) start actions := by
  -- The constant is generalised to a bound that the start may already be below.
  suffices general : ∀ bound, quantity start ≤ bound →
      (Throughout step (fun state => quantity state = bound) start actions ↔
        quantity start = bound ∧ Along step (fun state action =>
          (step state action).isSome → loss state action = 0) start actions) by
    simpa using general (quantity start) le_rfl
  induction actions generalizing start with
  | nil =>
      intro bound _
      simp [Throughout, Along]
  | cons action actions ih =>
      intro bound below
      simp only [Throughout, Along]
      constructor
      · rintro ⟨atStart, later⟩
        refine ⟨atStart, ?_, ?_⟩
        · intro moves
          rcases Option.isSome_iff_exists.mp moves with ⟨next, taken⟩
          have drop := lowers _ _ _ initially taken
          have nextBelow : quantity next ≤ bound := by
            have := lossNonneg start action
            omega
          have nextConst :=
            ((ih (preserved _ _ _ initially taken)) bound nextBelow).mp (later next taken)
          omega
        · intro next taken
          have drop := lowers _ _ _ initially taken
          have nextBelow : quantity next ≤ bound := by
            have := lossNonneg start action
            omega
          exact (((ih (preserved _ _ _ initially taken)) bound nextBelow).mp
            (later next taken)).2
      · rintro ⟨atStart, noLoss, later⟩
        refine ⟨atStart, ?_⟩
        intro next taken
        have drop := lowers _ _ _ initially taken
        have none : loss start action = 0 := noLoss (by simp [taken])
        have nextEq : quantity next = bound := by omega
        exact ((ih (preserved _ _ _ initially taken)) bound nextEq.le).mpr
          ⟨nextEq, later next taken⟩

section Record

variable {ε δ : Type}

variable (step) in
/-- What the steps of a run write down, in order. -/
def record (write : σ → α → List ε) : σ → List α → List ε
  | _, [] => []
  | state, action :: actions =>
      match step state action with
      | some next => write state action ++ record write next actions
      | none => []

theorem record_cons {write : σ → α → List ε} {state next : σ} {action : α}
    (taken : step state action = some next) (actions : List α) :
    record step write state (action :: actions) =
      write state action ++ record step write next actions := by
  rw [record, taken]

theorem record_append {write : σ → α → List ε} {start middle : σ} {first : List α}
    (reached : Reaches step start first middle) (second : List α) :
    record step write start (first ++ second) =
      record step write start first ++ record step write middle second := by
  induction first generalizing start with
  | nil =>
      rw [reached.eq_of_nil]
      rfl
  | cons action first ih =>
      rcases reached.of_cons with ⟨next, taken, rest⟩
      rw [List.cons_append, record_cons taken, record_cons taken, ih rest, List.append_assoc]

/-- A view of the state follows what the steps write down when every step makes it so. -/
theorem Reaches.follows_record {τ : Type} (invariant : σ → Prop) {write : σ → α → List ε}
    {view : σ → τ} {follow : τ → ε → τ} {start finish : σ} {actions : List α}
    (reached : Reaches step start actions finish)
    (follows : ∀ before action after, invariant before → step before action = some after →
      view after = (write before action).foldl follow (view before) ∧ invariant after)
    (initially : invariant start) :
    view finish = (record step write start actions).foldl follow (view start) := by
  induction actions generalizing start with
  | nil =>
      rw [reached.eq_of_nil]
      rfl
  | cons action actions ih =>
      rcases reached.of_cons with ⟨next, taken, rest⟩
      rcases follows _ _ _ initially taken with ⟨here, later⟩
      rw [record_cons taken, List.foldl_append, ← here]
      exact ih rest later

/-- A record is a list operation on another record when every step makes it so. -/
theorem record_eq_of_invariant (invariant : σ → Prop) {write : σ → α → List ε}
    {other : σ → α → List δ} {operation : List δ → List ε} (nil : operation [] = [])
    (append : ∀ left right, operation (left ++ right) = operation left ++ operation right)
    (follows : ∀ before action after, invariant before → step before action = some after →
      write before action = operation (other before action) ∧ invariant after)
    {start : σ} (actions : List α) (initially : invariant start) :
    record step write start actions = operation (record step other start actions) := by
  induction actions generalizing start with
  | nil => exact nil.symm
  | cons action actions ih =>
      cases taken : step start action with
      | none => simp only [record, taken, nil]
      | some next =>
          rcases follows _ _ _ initially taken with ⟨here, later⟩
          rw [record_cons taken, record_cons taken, append, here, ih later]

/-- Nothing is recorded by a run whose steps keep an invariant and write nothing. -/
theorem record_eq_nil (invariant : σ → Prop) {write : σ → α → List ε}
    (silent : ∀ before action after, invariant before → step before action = some after →
      write before action = [] ∧ invariant after)
    {start : σ} (actions : List α) (initially : invariant start) :
    record step write start actions = [] := by
  induction actions generalizing start with
  | nil => rfl
  | cons action actions ih =>
      cases taken : step start action with
      | none => simp only [record, taken]
      | some next =>
          rcases silent _ _ _ initially taken with ⟨here, later⟩
          rw [record_cons taken, here, List.nil_append]
          exact ih later

/-- What ends the waiting is recorded at most once when nothing is recorded
before the end and nothing after it. -/
theorem record_once (waiting finished : σ → Prop) {property : ε → Prop} {write : σ → α → List ε}
    (waits : ∀ before action after, waiting before → step before action = some after →
      (write before action = [] ∧ waiting after) ∨
        ∃ entry, write before action = [entry] ∧ property entry ∧ finished after)
    (ends : ∀ before action after, finished before → step before action = some after →
      write before action = [] ∧ finished after)
    {start : σ} (actions : List α) (initially : waiting start) :
    (record step write start actions).length ≤ 1 ∧
      ∀ entry ∈ record step write start actions, property entry := by
  induction actions generalizing start with
  | nil => simp [record]
  | cons action actions ih =>
      cases taken : step start action with
      | none => simp [record, taken]
      | some next =>
          rw [record_cons taken]
          rcases waits _ _ _ initially taken with ⟨silent, still⟩ | ⟨entry, written, holds, done⟩
          · rw [silent]
            exact ih still
          · rw [written, record_eq_nil finished ends actions done]
            simp [holds]

end Record

end Transition
