import TerraCore.Library.Store

/-!
# Values inherited from earlier periods

A store keeps one value per period, and a period without a value of its own has
the value of the latest period before it. Reading such a store may fill in the
inherited value. Filling in changes no value in effect, and writing the value of
the current period changes none of an earlier one.
-/

namespace Inheritance

variable {α : Type}

/-- The value in effect in a period: its own, or the one of the latest period before it. -/
def valueAt (store : Store ℤ α) : ℕ → Option α
  | 0 => store[(0 : ℤ)]?
  | period + 1 =>
      match store[((period + 1 : ℕ) : ℤ)]? with
      | some value => some value
      | none => valueAt store period

theorem valueAt_of_present {store : Store ℤ α} {period : ℕ} {value : α}
    (present : store[(period : ℤ)]? = some value) : valueAt store period = some value := by
  cases period with
  | zero => exact present
  | succ period => rw [valueAt, present]

theorem valueAt_of_absent {store : Store ℤ α} {period : ℕ}
    (absent : store[((period + 1 : ℕ) : ℤ)]? = none) :
    valueAt store (period + 1) = valueAt store period := by
  rw [valueAt, absent]

theorem valueAt_isSome {store : Store ℤ α} {first : α} (present : store[(0 : ℤ)]? = some first)
    (period : ℕ) : ∃ value, valueAt store period = some value := by
  induction period with
  | zero => exact ⟨first, present⟩
  | succ period ih =>
      rw [valueAt]
      split
      · exact ⟨_, rfl⟩
      · exact ih

/-- `after` has the entries of `before`, and in some of the periods that had none the
value that was in effect there. -/
def Filled (before after : Store ℤ α) : Prop :=
  ∀ period : ℕ, after[(period : ℤ)]? = before[(period : ℤ)]? ∨
    (before[(period : ℤ)]? = none ∧ after[(period : ℤ)]? = valueAt before period)

theorem Filled.refl (store : Store ℤ α) : Filled store store := fun _ => Or.inl rfl

theorem Filled.valueAt_eq {before after : Store ℤ α} (filled : Filled before after)
    (period : ℕ) : valueAt after period = valueAt before period := by
  induction period with
  | zero =>
      rcases filled 0 with same | ⟨_, added⟩
      · exact same
      · exact added
  | succ period ih =>
      rcases filled (period + 1) with same | ⟨absent, added⟩
      · rw [valueAt, same, ih, valueAt]
      · rw [valueAt, added]
        split
        · next value found => exact found.symm
        · next none => rw [ih, ← valueAt_of_absent absent]

theorem Filled.present {before after : Store ℤ α} (filled : Filled before after) {period : ℕ}
    {value : α} (present : before[(period : ℤ)]? = some value) :
    after[(period : ℤ)]? = some value := by
  rcases filled period with same | ⟨absent, _⟩
  · exact same.trans present
  · rw [absent] at present
    cases present

theorem Filled.trans {before middle after : Store ℤ α} (first : Filled before middle)
    (second : Filled middle after) : Filled before after := by
  intro period
  rcases second period with same | ⟨absent, added⟩
  · rw [same]
    exact first period
  · rw [first.valueAt_eq] at added
    rcases first period with firstSame | ⟨firstAbsent, _⟩
    · exact Or.inr ⟨firstSame ▸ absent, added⟩
    · exact Or.inr ⟨firstAbsent, added⟩

theorem get_insert_natCast (store : Store ℤ α) (period other : ℕ) (value : α) :
    (store.insert (period : ℤ) value)[(other : ℤ)]? =
      if period = other then some value else store[(other : ℤ)]? := by
  rw [Store.get_insert]
  by_cases same : period = other
  · rw [if_pos same, if_pos (by exact_mod_cast same)]
  · rw [if_neg same, if_neg (by exact_mod_cast same)]

/-- A period that had no entry gets one, and every entry stays. -/
theorem get_insert_of_absent {store : Store ℤ α} {period other : ℕ} {stored : α}
    (absent : store[(period : ℤ)]? = none) (present : store[(other : ℤ)]? = some stored)
    (value : α) : (store.insert (period : ℤ) value)[(other : ℤ)]? = some stored := by
  rw [get_insert_natCast, if_neg]
  · exact present
  · rintro rfl
    rw [absent] at present
    cases present

/-- Storing the value in effect is filling it in. -/
theorem filled_insert {store : Store ℤ α} {period : ℕ} {value : α}
    (absent : store[(period : ℤ)]? = none) (inEffect : valueAt store period = some value) :
    Filled store (store.insert (period : ℤ) value) := by
  intro other
  rw [get_insert_natCast]
  split
  · next same =>
      subst same
      exact Or.inr ⟨absent, inEffect.symm⟩
  · exact Or.inl rfl

theorem valueAt_insert_self (store : Store ℤ α) (period : ℕ) (value : α) :
    valueAt (store.insert (period : ℤ) value) period = some value :=
  valueAt_of_present (by rw [get_insert_natCast, if_pos rfl])

/-- Earlier periods do not see what is stored for a later one. -/
theorem valueAt_insert_of_lt (store : Store ℤ α) {period earlier : ℕ} (value : α)
    (before : earlier < period) :
    valueAt (store.insert (period : ℤ) value) earlier = valueAt store earlier := by
  induction earlier with
  | zero =>
      exact (get_insert_natCast store period 0 value).trans (if_neg (by omega))
  | succ earlier ih =>
      rw [valueAt, get_insert_natCast, if_neg (by omega), ih (by omega), valueAt]

/-- Nothing is stored for a period after the given one. -/
def Until (store : Store ℤ α) (period : ℕ) : Prop :=
  ∀ later : ℕ, period < later → store[(later : ℤ)]? = none

theorem Until.valueAt_eq {store : Store ℤ α} {period : ℕ} (bounded : Until store period)
    {later : ℕ} (order : period ≤ later) : valueAt store later = valueAt store period := by
  induction later, order using Nat.le_induction with
  | base => rfl
  | succ later order ih => rw [valueAt_of_absent (bounded (later + 1) (by omega)), ih]

theorem Until.mono {store : Store ℤ α} {period later : ℕ} (bounded : Until store period)
    (order : period ≤ later) : Until store later :=
  fun other after => bounded other (by omega)

theorem Until.insert {store : Store ℤ α} {period current : ℕ} (bounded : Until store current)
    (order : period ≤ current) (value : α) : Until (store.insert (period : ℤ) value) current := by
  intro later after
  rw [get_insert_natCast, if_neg (by omega)]
  exact bounded later after

/-- The value in effect, or the default where none is. -/
def valueOr (default : α) (store : Store ℤ α) (period : ℕ) : α :=
  (valueAt store period).getD default

/-- The value is the one stored for the latest period up to the given one; it is
the default if nothing is stored that far. -/
def IsLatest (default : α) (store : Store ℤ α) (period : ℕ) (value : α) : Prop :=
  (∃ stored ≤ period, store[(stored : ℤ)]? = some value ∧
      ∀ later, stored < later → later ≤ period → store[(later : ℤ)]? = none) ∨
    ((∀ stored ≤ period, store[(stored : ℤ)]? = none) ∧ value = default)

theorem valueAt_eq_none_iff {store : Store ℤ α} {period : ℕ} :
    valueAt store period = none ↔ ∀ stored ≤ period, store[(stored : ℤ)]? = none := by
  induction period with
  | zero => simp [valueAt]
  | succ period ih =>
      simp only [Nat.le_succ_iff, or_imp, forall_and, forall_eq, ← ih]
      cases found : store[((period + 1 : ℕ) : ℤ)]? with
      | some value => simp [valueAt_of_present found]
      | none => simp [valueAt_of_absent found]

theorem valueAt_isSome_iff {store : Store ℤ α} {period : ℕ} :
    (∃ value, valueAt store period = some value) ↔
      ∃ stored ≤ period, ∃ value, store[(stored : ℤ)]? = some value := by
  rw [← Option.isSome_iff_exists, ← not_iff_not, Option.not_isSome_iff_eq_none,
    valueAt_eq_none_iff]
  simp [Option.eq_none_iff_forall_ne_some]

theorem valueAt_eq_some {store : Store ℤ α} {period : ℕ} {value : α}
    (found : valueAt store period = some value) :
    ∃ stored ≤ period, store[(stored : ℤ)]? = some value ∧
      ∀ later, stored < later → later ≤ period → store[(later : ℤ)]? = none := by
  induction period with
  | zero => exact ⟨0, le_rfl, found, fun later after before => by omega⟩
  | succ period ih =>
      cases present : store[((period + 1 : ℕ) : ℤ)]? with
      | some other =>
          rw [valueAt_of_present present] at found
          exact ⟨period + 1, le_rfl, present.trans found, fun later after before => by omega⟩
      | none =>
          rw [valueAt_of_absent present] at found
          rcases ih found with ⟨stored, order, storedValue, absent⟩
          refine ⟨stored, by omega, storedValue, ?_⟩
          intro later after before
          rcases Nat.le_succ_iff.mp before with earlier | rfl
          · exact absent later after earlier
          · exact present

theorem isLatest_valueOr (default : α) (store : Store ℤ α) (period : ℕ) :
    IsLatest default store period (valueOr default store period) := by
  unfold valueOr
  cases found : valueAt store period with
  | some value => exact Or.inl (valueAt_eq_some found)
  | none => exact Or.inr ⟨valueAt_eq_none_iff.mp found, rfl⟩

/-- Two stores have the same values in effect up to the current period, and the
same entries beyond it. -/
structure Agree (default : α) (current : ℕ) (first second : Store ℤ α) : Prop where
  inEffect : ∀ period ≤ current, valueOr default first period = valueOr default second period
  beyond : ∀ later : ℕ, current < later → first[(later : ℤ)]? = second[(later : ℤ)]?

namespace Agree

variable {default : α} {current : ℕ} {first second third : Store ℤ α}

theorem refl (store : Store ℤ α) : Agree default current store store :=
  ⟨fun _ _ => rfl, fun _ _ => rfl⟩

theorem symm (agree : Agree default current first second) :
    Agree default current second first :=
  ⟨fun period order => (agree.inEffect period order).symm,
    fun later after => (agree.beyond later after).symm⟩

theorem trans (left : Agree default current first second)
    (right : Agree default current second third) : Agree default current first third :=
  ⟨fun period order => (left.inEffect period order).trans (right.inEffect period order),
    fun later after => (left.beyond later after).trans (right.beyond later after)⟩

/-- Stores that agree now agree later. -/
theorem advance (agree : Agree default current first second) {later : ℕ}
    (order : current ≤ later) : Agree default later first second := by
  refine ⟨?_, fun other after => agree.beyond other (by omega)⟩
  intro period _
  induction period with
  | zero => exact agree.inEffect 0 (Nat.zero_le _)
  | succ period ih =>
      by_cases known : period + 1 ≤ current
      · exact agree.inEffect (period + 1) known
      · have same := agree.beyond (period + 1) (by omega)
        simp only [valueOr, valueAt, same]
        cases second[((period + 1 : ℕ) : ℤ)]? with
        | some value => rfl
        | none => exact ih (by omega)

/-- Both stores get the value of the current period. -/
theorem insert (agree : Agree default current first second) (value : α) :
    Agree default current (first.insert (current : ℤ) value)
      (second.insert (current : ℤ) value) := by
  constructor
  · intro period order
    rcases Nat.lt_or_eq_of_le order with before | rfl
    · simp only [valueOr, valueAt_insert_of_lt _ value before]
      exact agree.inEffect period order
    · simp only [valueOr, valueAt_insert_self]
  · intro later after
    simp only [get_insert_natCast, if_neg (by omega : current ≠ later)]
    exact agree.beyond later after

/-- Storing the value in effect changes no value in effect. -/
theorem fill (agree : Agree default current first second)
    {value : α} (known : value = valueOr default second current) :
    Agree default current first (second.insert (current : ℤ) value) := by
  constructor
  · intro period order
    rcases Nat.lt_or_eq_of_le order with before | rfl
    · simp only [valueOr, valueAt_insert_of_lt _ value before]
      exact agree.inEffect period order
    · rw [agree.inEffect period le_rfl, ← known, valueOr, valueAt_insert_self, Option.getD_some]
  · intro later after
    rw [get_insert_natCast, if_neg (by omega)]
    exact agree.beyond later after

/-- Entries that were added without a change of the values in effect were filled in. -/
theorem filled (agree : Agree default current first second) {initial : α}
    (grounded : first[(0 : ℤ)]? = some initial)
    (kept : ∀ (period : ℕ) (value : α), first[(period : ℤ)]? = some value →
      second[(period : ℤ)]? = some value) : Filled first second := by
  intro period
  cases before : first[(period : ℤ)]? with
  | some value => exact Or.inl (kept period value before)
  | none =>
      cases after : second[(period : ℤ)]? with
      | none => exact Or.inl rfl
      | some value =>
          have current : period ≤ current := by
            by_contra later
            have same := agree.beyond period (not_le.mp later)
            rw [before, after] at same
            cases same
          rcases valueAt_isSome grounded period with ⟨inherited, inEffect⟩
          have same := agree.inEffect period current
          rw [valueOr, valueOr, inEffect, valueAt_of_present after, Option.getD_some,
            Option.getD_some] at same
          exact Or.inr ⟨rfl, by rw [inEffect, same]⟩

end Agree

end Inheritance
