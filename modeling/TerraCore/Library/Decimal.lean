import Mathlib

/-!
# Decimal texts

Numbers as the bytes of their decimal digits. Reading inverts printing, with
any number of zeros in front.
-/

namespace Decimal

/-- The byte of an ASCII character. -/
def byte (character : Char) : UInt8 := character.toNat.toUInt8

/-- A number without leading zeros. -/
def print (number : ℕ) : List UInt8 := (Nat.toDigits 10 number).map byte

def IsDigit (character : UInt8) : Prop := 48 ≤ character ∧ character ≤ 57

instance (character : UInt8) : Decidable (IsDigit character) :=
  inferInstanceAs (Decidable (_ ∧ _))

/-- The number that is written by a list of digits. -/
def value (text : List UInt8) : ℕ :=
  text.foldl (fun number character => 10 * number + (character.toNat - 48)) 0

/-- `strconv.ParseUint` in base ten: an unsigned number of 64 bits. -/
def parseUint (text : List UInt8) : Option ℕ :=
  if text ≠ [] ∧ (∀ character ∈ text, IsDigit character) ∧ value text < 2 ^ 64 then
    some (value text)
  else none

theorem toNat_byte {character : Char} (digit : character.isDigit = true) :
    48 ≤ character.toNat ∧ character.toNat ≤ 57 ∧ (byte character).toNat = character.toNat := by
  simp only [Char.isDigit, Bool.and_eq_true, decide_eq_true_eq, ge_iff_le,
    UInt32.le_iff_toNat_le] at digit
  have bounds : 48 ≤ character.toNat ∧ character.toNat ≤ 57 := digit
  refine ⟨bounds.1, bounds.2, ?_⟩
  simp [byte]
  omega

theorem isDigit_byte {character : Char} (digit : character.isDigit = true) :
    IsDigit (byte character) := by
  rcases toNat_byte digit with ⟨lower, upper, same⟩
  rw [IsDigit, UInt8.le_iff_toNat_le, UInt8.le_iff_toNat_le, same]
  exact ⟨lower, upper⟩

theorem value_map_byte {characters : List Char}
    (digits : ∀ character ∈ characters, character.isDigit = true) :
    value (characters.map byte) = Nat.ofDigitChars 10 characters 0 := by
  rw [value, List.foldl_map, Nat.ofDigitChars_eq_foldl]
  refine List.foldl_ext _ _ 0 fun number character listed => ?_
  rw [(toNat_byte (digits character listed)).2.2]
  rfl

theorem isDigit_of_mem_toDigits {number : ℕ} {character : Char}
    (listed : character ∈ Nat.toDigits 10 number) : character.isDigit = true :=
  Nat.isDigit_of_mem_toDigits (by decide) (by decide) listed

theorem isDigit_of_mem_print {number : ℕ} {character : UInt8}
    (listed : character ∈ print number) : IsDigit character := by
  rcases List.mem_map.mp listed with ⟨digit, digitMem, rfl⟩
  exact isDigit_byte (isDigit_of_mem_toDigits digitMem)

theorem value_replicate_append_print (zeros number : ℕ) :
    value (List.replicate zeros (byte '0') ++ print number) = number := by
  have digits : ∀ character ∈ List.replicate zeros '0' ++ Nat.toDigits 10 number,
      character.isDigit = true := by
    intro character listed
    rcases List.mem_append.mp listed with isZero | isDigit
    · rw [List.eq_of_mem_replicate isZero]
      rfl
    · exact isDigit_of_mem_toDigits isDigit
  rw [print, ← List.map_replicate, ← List.map_append, value_map_byte digits,
    Nat.ofDigitChars_append, Nat.ofDigitChars_replicate_zero, mul_zero,
    Nat.ofDigitChars_ten_toDigits]

@[simp]
theorem value_print (number : ℕ) : value (print number) = number :=
  value_replicate_append_print 0 number

theorem print_injective : Function.Injective print :=
  Function.LeftInverse.injective value_print

theorem print_ne_nil (number : ℕ) : print number ≠ [] := by
  simp [print]

theorem parseUint_print {number : ℕ} (bound : number < 2 ^ 64) :
    parseUint (print number) = some number := by
  have valid : print number ≠ [] ∧ (∀ character ∈ print number, IsDigit character) ∧
      value (print number) < 2 ^ 64 :=
    ⟨print_ne_nil number, fun _ => isDigit_of_mem_print, by rwa [value_print]⟩
  rw [parseUint, if_pos valid, value_print]

end Decimal
