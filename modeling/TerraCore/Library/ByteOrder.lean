import TerraCore.Library.Decimal
import TerraCore.Library.Keyspace

/-!
# Keys in byte order

Keys are compared at the first place where they differ, and a key comes before
its continuations. The keys that start in a given way form an interval of this
order, which ends at the least key above all of them. Decimal texts of one
length are in the order of the numbers they write.
-/

namespace ByteOrder

section Keys

variable {γ : Type} [Ord γ]

/-- The first key comes before the second one. -/
def Before (first second : List γ) : Prop := compare first second = .lt

instance (first second : List γ) : Decidable (Before first second) :=
  inferInstanceAs (Decidable (_ = _))

/-- `end` is the least key above all keys that start in the given way. -/
structure IsPrefixEnd (start bound : List γ) : Prop where
  above : ∀ key, start <+: key → Before key bound
  least : ∀ other, (∀ key, start <+: key → Before key other) → ¬Before other bound

section Order

variable [Std.TransOrd γ] {first second third : List γ}

theorem Before.trans (one : Before first second) (two : Before second third) :
    Before first third :=
  Std.TransCmp.lt_trans one two

theorem Before.asymm (before : Before first second) : ¬Before second first := by
  intro after
  have swapped : compare second first = .gt := Std.OrientedCmp.gt_of_lt before
  rw [Before, swapped] at after
  cases after

theorem not_before_self (key : List γ) : ¬Before key key := by
  intro before
  exact before.asymm before

theorem before_append_iff (start : List γ) :
    Before (start ++ first) (start ++ second) ↔ Before first second := by
  induction start with
  | nil => rfl
  | cons character start ih =>
      simp only [Before, List.cons_append, List.compare_cons_cons, Std.ReflCmp.compare_self,
        Ordering.eq_then] at ih ⊢
      exact ih

/-- Parts of one length decide the order unless they are the same. -/
theorem Before.append (before : Before first second) (sameLength : first.length = second.length)
    (rest rest' : List γ) : Before (first ++ rest) (second ++ rest') := by
  induction first generalizing second with
  | nil =>
      rw [List.length_nil, eq_comm, List.length_eq_zero_iff] at sameLength
      subst sameLength
      exact absurd before (not_before_self [])
  | cons character first ih =>
      cases second with
      | nil => cases sameLength
      | cons character' second =>
          simp only [Before, List.cons_append, List.compare_cons_cons] at before ih ⊢
          cases compared : compare character character' with
          | lt => rfl
          | eq =>
              rw [compared] at before
              exact ih before (Nat.succ.inj sameLength)
          | gt =>
              rw [compared] at before
              cases before

/-- No continuation of a key comes before it. -/
theorem not_before_append (start rest : List γ) : ¬Before (start ++ rest) start := by
  induction start with
  | nil => cases rest <;> simp [Before]
  | cons character start ih =>
      simp only [Before, List.cons_append, List.compare_cons_cons, Std.ReflCmp.compare_self,
        Ordering.eq_then] at ih ⊢
      exact ih

variable [Std.LawfulEqOrd γ]

theorem before_or_eq_or_before (first second : List γ) :
    Before first second ∨ first = second ∨ Before second first := by
  cases compared : compare first second with
  | lt => exact Or.inl compared
  | eq => exact Or.inr (Or.inl (Std.LawfulEqOrd.eq_of_compare compared))
  | gt => exact Or.inr (Or.inr (Std.OrientedCmp.lt_of_gt compared))

omit [Std.TransOrd γ] in
/-- What is after a key without continuing it is after all its continuations. -/
theorem Before.append_left (before : Before first second) (different : ¬first <+: second)
    (rest : List γ) : Before (first ++ rest) second := by
  induction first generalizing second with
  | nil => exact absurd List.nil_prefix different
  | cons character first ih =>
      cases second with
      | nil => simp [Before] at before
      | cons character' second =>
          simp only [Before, List.cons_append, List.compare_cons_cons] at before ih ⊢
          cases compared : compare character character' with
          | lt => rfl
          | eq =>
              rw [compared] at before
              have same := Std.LawfulEqOrd.eq_of_compare compared
              refine ih before ?_
              intro starts
              exact different (List.cons_prefix_cons.mpr ⟨same, starts⟩)
          | gt =>
              rw [compared] at before
              cases before

variable {start part bound key : List γ}

/-- A key that is not before `start` and before an end above a part of its
continuations starts with it. -/
theorem IsPrefixEnd.prefix_of_before (isEnd : IsPrefixEnd (start ++ part) bound)
    (notBefore : ¬Before key start) (before : Before key bound) : start <+: key := by
  by_contra different
  rcases before_or_eq_or_before key start with early | same | late
  · exact notBefore early
  · rw [same] at different
    exact different List.prefix_rfl
  · refine isEnd.least key ?_ before
    rintro continued ⟨rest, rfl⟩
    rw [List.append_assoc]
    exact late.append_left different (part ++ rest)

theorem IsPrefixEnd.cons {character : γ} (isEnd : IsPrefixEnd start bound) :
    IsPrefixEnd (character :: start) (character :: bound) where
  above := by
    intro key starts
    rcases starts with ⟨rest, rfl⟩
    exact (before_append_iff [character]).mpr (isEnd.above _ (List.prefix_append start rest))
  least := by
    intro other above before
    cases other with
    | nil =>
        have impossible := above _ List.prefix_rfl
        simp [Before] at impossible
    | cons character' other =>
        have first := above _ List.prefix_rfl
        simp only [Before, List.compare_cons_cons] at first before
        cases compared : compare character' character with
        | lt =>
            rw [Std.OrientedCmp.gt_of_lt compared] at first
            cases first
        | gt =>
            rw [compared] at before
            cases before
        | eq =>
            have same := Std.LawfulEqOrd.eq_of_compare compared
            subst same
            rw [compared] at before
            refine isEnd.least other ?_ before
            intro key starts
            exact (before_append_iff [character']).mp
              (above _ (List.cons_prefix_cons.mpr ⟨rfl, starts⟩))

end Order

end Keys

/-- The least key of bytes above all keys that start in the given way. There is
none when all bytes are 255. -/
def prefixEnd : List UInt8 → Option (List UInt8)
  | [] => none
  | byte :: rest =>
      match prefixEnd rest with
      | some bound => some (byte :: bound)
      | none => if byte = 255 then none else some [byte + 1]

theorem prefixEnd_eq_none {start : List UInt8} (unbounded : prefixEnd start = none) :
    ∀ byte ∈ start, byte = 255 := by
  induction start with
  | nil => simp
  | cons byte start ih =>
      simp only [prefixEnd] at unbounded
      split at unbounded
      · cases unbounded
      · next restNone =>
          split at unbounded
          · next isLast => exact List.forall_mem_cons.mpr ⟨isLast, ih restNone⟩
          · cases unbounded

/-- Nothing of the same length comes after bytes that are all 255. -/
theorem not_before_of_all_last {last other : List UInt8} (all : ∀ byte ∈ last, byte = 255)
    (long : other.length ≤ last.length) : ¬Before last other := by
  induction other generalizing last with
  | nil =>
      cases last <;> simp [Before]
  | cons byte other ih =>
      cases last with
      | nil => cases long
      | cons byte' last =>
          rcases List.forall_mem_cons.mp all with ⟨rfl, rest⟩
          simp only [Before, List.compare_cons_cons] at ih ⊢
          cases compared : compare (255 : UInt8) byte with
          | lt =>
              have larger := Std.compare_eq_lt.mp compared
              rw [UInt8.lt_iff_toNat_lt] at larger
              have bound := byte.toNat_lt
              have lastByte : (255 : UInt8).toNat = 255 := rfl
              omega
          | eq => exact ih rest (Nat.le_of_succ_le_succ long)
          | gt => simp

theorem toNat_next {byte : UInt8} (notLast : byte ≠ 255) :
    (byte + 1).toNat = byte.toNat + 1 := by
  have bound := byte.toNat_lt
  have notTop : byte.toNat ≠ 255 := fun top => notLast (UInt8.toNat_inj.mp top)
  have one : (1 : UInt8).toNat = 1 := rfl
  rw [UInt8.toNat_add]
  omega

/-- The next byte ends the keys that continue with bytes 255 only. -/
theorem isPrefixEnd_next {byte : UInt8} {start : List UInt8} (notLast : byte ≠ 255)
    (allLast : ∀ other ∈ start, other = 255) : IsPrefixEnd (byte :: start) [byte + 1] where
  above := by
    rintro key ⟨rest, rfl⟩
    have larger : byte < byte + 1 := by
      rw [UInt8.lt_iff_toNat_lt, toNat_next notLast]
      omega
    simp [Before, Std.compare_eq_lt.mpr larger]
  least := by
    intro other above before
    cases other with
    | nil =>
        have impossible := above _ List.prefix_rfl
        simp [Before] at impossible
    | cons byte' other =>
        -- A key with enough bytes 255 after the prefix is not before the other end.
        have late := above (byte :: start ++ List.replicate other.length 255)
          (List.prefix_append _ _)
        simp only [Before, List.cons_append, List.compare_cons_cons] at late before
        cases compared : compare byte byte' with
        | gt =>
            rw [compared] at late
            cases late
        | eq =>
            rw [compared] at late
            refine not_before_of_all_last ?_ ?_ late
            · intro last lastMem
              rcases List.mem_append.mp lastMem with inStart | inRest
              · exact allLast last inStart
              · exact List.eq_of_mem_replicate inRest
            · simp
        | lt =>
            have passed := UInt8.lt_iff_toNat_lt.mp (Std.compare_eq_lt.mp compared)
            cases compared' : compare byte' (byte + 1) with
            | lt =>
                have below := UInt8.lt_iff_toNat_lt.mp (Std.compare_eq_lt.mp compared')
                rw [toNat_next notLast] at below
                omega
            | eq =>
                rw [compared'] at before
                cases other <;> cases before
            | gt =>
                rw [compared'] at before
                cases before

theorem prefixEnd_isPrefixEnd {start bound : List UInt8} (found : prefixEnd start = some bound) :
    IsPrefixEnd start bound := by
  induction start generalizing bound with
  | nil => cases found
  | cons byte start ih =>
      simp only [prefixEnd] at found
      split at found
      · next rest restFound =>
          cases found
          exact (ih restFound).cons
      · next restNone =>
          split at found
          · cases found
          · next notLast =>
              cases found
              exact isPrefixEnd_next notLast (prefixEnd_eq_none restNone)

/-- A prefix with a byte below 255 has an end. -/
theorem prefixEnd_isSome {start : List UInt8} {byte : UInt8} (listed : byte ∈ start)
    (notLast : byte ≠ 255) : ∃ bound, prefixEnd start = some bound := by
  cases found : prefixEnd start with
  | some bound => exact ⟨bound, rfl⟩
  | none => exact absurd (prefixEnd_eq_none found byte listed) notLast

end ByteOrder

namespace Decimal

open ByteOrder

/-- The number of a text with one more digit in front. -/
theorem value_cons (digit : UInt8) (text : List UInt8) :
    value (digit :: text) = (digit.toNat - 48) * 10 ^ text.length + value text := by
  have general : ∀ (text : List UInt8) (number : ℕ),
      text.foldl (fun number character => 10 * number + (character.toNat - 48)) number =
        number * 10 ^ text.length + value text := by
    intro text
    induction text with
    | nil => simp [value]
    | cons character text ih =>
        intro number
        simp only [value, List.foldl_cons, List.length_cons]
        rw [ih, ih, pow_succ]
        ring
  rw [value, List.foldl_cons, general]
  simp

theorem value_lt {text : List UInt8} (digits : ∀ digit ∈ text, IsDigit digit) :
    value text < 10 ^ text.length := by
  induction text with
  | nil => simp [value]
  | cons digit text ih =>
      rcases List.forall_mem_cons.mp digits with ⟨isDigit, rest⟩
      have atMost : digit.toNat ≤ 57 := UInt8.le_iff_toNat_le.mp isDigit.2
      have leading : (digit.toNat - 48) * 10 ^ text.length ≤ 9 * 10 ^ text.length :=
        Nat.mul_le_mul_right _ (by omega)
      have bounded := ih rest
      rw [value_cons, List.length_cons, pow_succ]
      omega

/-- Texts of one length are in the order of their numbers. -/
theorem before_of_value_lt {first second : List UInt8}
    (digits : ∀ digit ∈ first, IsDigit digit) (digits' : ∀ digit ∈ second, IsDigit digit)
    (sameLength : first.length = second.length) (smaller : value first < value second) :
    Before first second := by
  induction first generalizing second with
  | nil =>
      rw [List.length_nil, eq_comm, List.length_eq_zero_iff] at sameLength
      subst sameLength
      exact absurd smaller (lt_irrefl _)
  | cons digit first ih =>
      cases second with
      | nil => cases sameLength
      | cons digit' second =>
          rcases List.forall_mem_cons.mp digits with ⟨isDigit, rest⟩
          rcases List.forall_mem_cons.mp digits' with ⟨isDigit', rest'⟩
          have lengths := Nat.succ.inj sameLength
          have bound := value_lt rest
          have bound' := value_lt rest'
          rw [value_cons, value_cons, lengths] at smaller
          rw [lengths] at bound
          have atLeast : 48 ≤ digit.toNat := UInt8.le_iff_toNat_le.mp isDigit.1
          have atLeast' : 48 ≤ digit'.toNat := UInt8.le_iff_toNat_le.mp isDigit'.1
          simp only [Before, List.compare_cons_cons]
          rcases lt_trichotomy digit.toNat digit'.toNat with less | same | more
          · rw [Std.compare_eq_lt.mpr (UInt8.lt_iff_toNat_lt.mpr less)]
            rfl
          · have sameDigit := UInt8.toNat_inj.mp same
            subst sameDigit
            have self : compare digit digit = .eq := Std.ReflCmp.compare_self
            rw [self]
            exact ih rest rest' lengths (by omega)
          · -- A larger first digit outweighs everything after it.
            have outweighs : (digit'.toNat - 48 + 1) * 10 ^ second.length ≤
                (digit.toNat - 48) * 10 ^ second.length :=
              Nat.mul_le_mul_right _ (by omega)
            rw [Nat.add_mul, Nat.one_mul] at outweighs
            omega

end Decimal

namespace Store

open ByteOrder

variable {γ α : Type} [Ord γ] [Std.TransOrd γ]

/-- The entries from a start up to an end, in key order. Without an end the
entries go on to the last one. -/
def range (store : Store (List γ) α) (start : List γ) (bound : Option (List γ)) :
    List (List γ × α) :=
  store.toList.filter fun entry =>
    decide (¬Before entry.1 start) && bound.all fun bound => decide (Before entry.1 bound)

theorem mem_range_iff [Std.LawfulEqOrd γ] (store : Store (List γ) α) (start bound : List γ)
    (entry : List γ × α) :
    entry ∈ range store start (some bound) ↔
      store[entry.1]? = some entry.2 ∧ ¬Before entry.1 start ∧ Before entry.1 bound := by
  simp [range, mem_toList_iff]

theorem pairwise_range (store : Store (List γ) α) (start : List γ) (bound : Option (List γ)) :
    (range store start bound).Pairwise fun first second => Before first.1 second.1 :=
  Std.ExtTreeMap.ordered_keys_toList.filter _

theorem pairwise_scan [DecidableEq γ] (store : Store (List γ) α) (start : List γ) :
    (scan store start).Pairwise fun first second => Before first.1 second.1 :=
  Std.ExtTreeMap.ordered_keys_toList.filter _

end Store
