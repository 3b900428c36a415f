import Mathlib

/-!
# Bech32

A bech32 text is a human-readable part, the separator `1`, the data in groups
of five bits and a checksum of six such groups. Regrouping reads the bytes as
one number and writes it out again in another base, with zero bits appended
where the last group is not full. Texts of one human-readable part can be read
back, hence are injective, and their length depends on that of the data only.
-/

namespace Bech32

/-- The last `width` digits of a number, most significant digit first. -/
def digits (base : ℕ) : ℕ → ℕ → List ℕ
  | 0, _ => []
  | width + 1, value => digits base width (value / base) ++ [value % base]

/-- The number that is written by a list of digits. -/
def number (base : ℕ) (written : List ℕ) : ℕ :=
  written.foldl (fun value digit => value * base + digit) 0

@[simp]
theorem length_digits (base width value : ℕ) : (digits base width value).length = width := by
  induction width generalizing value with
  | zero => rfl
  | succ width ih => simp [digits, ih]

theorem lt_of_mem_digits {base : ℕ} (positive : 0 < base) {width value digit : ℕ}
    (listed : digit ∈ digits base width value) : digit < base := by
  induction width generalizing value with
  | zero => simp [digits] at listed
  | succ width ih =>
      rw [digits, List.mem_append, List.mem_singleton] at listed
      rcases listed with earlier | rfl
      · exact ih earlier
      · exact Nat.mod_lt value positive

@[simp]
theorem number_append_singleton (base : ℕ) (written : List ℕ) (digit : ℕ) :
    number base (written ++ [digit]) = number base written * base + digit := by
  simp [number]

theorem number_digits {base : ℕ} {width value : ℕ} (fits : value < base ^ width) :
    number base (digits base width value) = value := by
  induction width generalizing value with
  | zero =>
      have isZero : value = 0 := by simpa using fits
      simp [digits, number, isZero]
  | succ width ih =>
      have shorter : value / base < base ^ width := by
        rw [pow_succ, mul_comm] at fits
        exact Nat.div_lt_of_lt_mul fits
      rw [digits, number_append_singleton, ih shorter]
      exact Nat.div_add_mod' value base

theorem digits_number {base : ℕ} {written : List ℕ} (bounded : ∀ digit ∈ written, digit < base) :
    digits base written.length (number base written) = written := by
  induction written using List.reverseRecOn with
  | nil => rfl
  | append_singleton written digit ih =>
      have small : digit < base := bounded digit (by simp)
      have earlier := ih fun other listed => bounded other (by simp [listed])
      have quotient : (number base written * base + digit) / base = number base written := by
        rw [mul_comm, Nat.mul_add_div (by omega), Nat.div_eq_of_lt small, add_zero]
      have remainder : (number base written * base + digit) % base = digit := by
        rw [mul_comm, Nat.mul_add_mod, Nat.mod_eq_of_lt small]
      rw [List.length_append, List.length_singleton, digits, number_append_singleton, quotient,
        remainder, earlier]

theorem number_lt {base : ℕ} {written : List ℕ} (bounded : ∀ digit ∈ written, digit < base) :
    number base written < base ^ written.length := by
  induction written using List.reverseRecOn with
  | nil => simp [number]
  | append_singleton written digit ih =>
      have small : digit < base := bounded digit (by simp)
      have earlier := ih fun other listed => bounded other (by simp [listed])
      rw [number_append_singleton, List.length_append, List.length_singleton, pow_succ]
      calc number base written * base + digit
        _ < number base written * base + base := by omega
        _ = (number base written + 1) * base := by ring
        _ ≤ base ^ written.length * base := Nat.mul_le_mul_right base earlier

/-- The number of groups that hold `bytes` bytes. -/
def groupCount (bytes : ℕ) : ℕ := (8 * bytes + 4) / 5

/-- Bytes in groups of five bits; the last group is filled up with zero bits. -/
def regroup (data : List UInt8) : List ℕ :=
  let padding := 5 * groupCount data.length - 8 * data.length
  digits 32 (groupCount data.length) (number 256 (data.map UInt8.toNat) * 2 ^ padding)

/-- The bytes that are complete in a list of groups. -/
def ungroup (groups : List ℕ) : List UInt8 :=
  (digits 256 (5 * groups.length / 8) (number 32 groups / 2 ^ (5 * groups.length % 8))).map
    Nat.toUInt8

@[simp]
theorem length_regroup (data : List UInt8) : (regroup data).length = groupCount data.length :=
  length_digits _ _ _

theorem lt_of_mem_regroup {data : List UInt8} {group : ℕ} (listed : group ∈ regroup data) :
    group < 32 :=
  lt_of_mem_digits (by decide) listed

theorem ungroup_regroup (data : List UInt8) : ungroup (regroup data) = data := by
  have bounded : ∀ digit ∈ data.map UInt8.toNat, digit < 256 := by
    intro digit listed
    rcases List.mem_map.mp listed with ⟨byte, -, rfl⟩
    exact byte.toNat_lt
  have small := number_lt bounded
  rw [List.length_map] at small
  have count : 8 * data.length ≤ 5 * groupCount data.length ∧
      5 * groupCount data.length < 8 * data.length + 5 := by
    unfold groupCount
    omega
  have fits : number 256 (data.map UInt8.toNat) *
      2 ^ (5 * groupCount data.length - 8 * data.length) < 32 ^ groupCount data.length := by
    have capacity : (32 : ℕ) ^ groupCount data.length =
        256 ^ data.length * 2 ^ (5 * groupCount data.length - 8 * data.length) := by
      rw [show (32 : ℕ) = 2 ^ 5 from rfl, show (256 : ℕ) = 2 ^ 8 from rfl, ← pow_mul, ← pow_mul,
        ← pow_add]
      congr 1
      omega
    rw [capacity]
    exact Nat.mul_lt_mul_of_pos_right small (Nat.two_pow_pos _)
  have bytes : 5 * groupCount data.length / 8 = (data.map UInt8.toNat).length := by
    rw [List.length_map]
    omega
  have padding : 5 * groupCount data.length % 8 =
      5 * groupCount data.length - 8 * data.length := by omega
  unfold ungroup
  rw [length_regroup, bytes, padding, regroup, number_digits fits,
    Nat.mul_div_cancel _ (Nat.two_pow_pos _), digits_number bounded, List.map_map]
  refine (List.map_congr_left fun byte _ => ?_).trans (List.map_id data)
  exact UInt8.ofNat_toNat

/-- The characters of the groups `0` to `31`. -/
def charset : List UInt8 :=
  "qpzry9x8gf2tvdw0s3jn54khce6mua7l".toList.map fun character => character.toNat.toUInt8

def character (group : ℕ) : UInt8 := charset.getD group 0

def groupOf (character : UInt8) : Option ℕ := charset.idxOf? character

theorem groupOf_character {group : ℕ} (bound : group < 32) :
    groupOf (character group) = some group := by
  have all : ∀ group < 32, groupOf (character group) = some group := by decide
  exact all group bound

theorem character_mem_charset {group : ℕ} (bound : group < 32) :
    character group ∈ charset := by
  have all : ∀ group < 32, character group ∈ charset := by decide
  exact all group bound

theorem mapM_groupOf {groups : List ℕ} (bounded : ∀ group ∈ groups, group < 32) :
    (groups.map character).mapM groupOf = some groups := by
  induction groups with
  | nil => rfl
  | cons group groups ih =>
      rw [List.map_cons, List.mapM_cons, groupOf_character (bounded group (by simp)),
        ih fun other listed => bounded other (by simp [listed])]
      rfl

/-- One step of the checksum, a polynomial remainder. -/
def polymodStep (checksum group : ℕ) : ℕ :=
  let top := checksum >>> 25
  let shifted := ((checksum &&& 0x1ffffff) <<< 5) ^^^ group
  let generator := [0x3b6a57b2, 0x26508e6d, 0x1ea119fa, 0x3d4233dd, 0x2a1462b3]
  generator.zipIdx.foldl (fun current entry =>
    if (top >>> entry.2) % 2 = 1 then current ^^^ entry.1 else current) shifted

def polymod (groups : List ℕ) : ℕ := groups.foldl polymodStep 1

/-- The human-readable part as it enters the checksum. -/
def expand (hrp : List UInt8) : List ℕ :=
  hrp.map (fun character => character.toNat / 32) ++ 0 ::
    hrp.map fun character => character.toNat % 32

def checksum (hrp : List UInt8) (groups : List ℕ) : List ℕ :=
  digits 32 6 (polymod (expand hrp ++ groups ++ List.replicate 6 0) ^^^ 1)

def separator : UInt8 := 49

def encode (hrp data : List UInt8) : List UInt8 :=
  hrp ++ separator :: (regroup data ++ checksum hrp (regroup data)).map character

/-- Read a text with the given human-readable part. -/
def decode (hrp text : List UInt8) : Option (List UInt8) := do
  let groups ← (text.drop (hrp.length + 1)).mapM groupOf
  let payload := groups.take (groups.length - 6)
  if text.take (hrp.length + 1) = hrp ++ [separator] ∧ groups = payload ++ checksum hrp payload then
    some (ungroup payload)
  else none

theorem lt_of_mem_payload {hrp data : List UInt8} {group : ℕ}
    (listed : group ∈ regroup data ++ checksum hrp (regroup data)) : group < 32 := by
  rcases List.mem_append.mp listed with inData | inChecksum
  · exact lt_of_mem_regroup inData
  · exact lt_of_mem_digits (by decide) inChecksum

theorem length_checksum (hrp : List UInt8) (groups : List ℕ) : (checksum hrp groups).length = 6 :=
  length_digits _ _ _

theorem length_encode (hrp data : List UInt8) :
    (encode hrp data).length = hrp.length + groupCount data.length + 7 := by
  simp [encode, length_checksum]
  omega

theorem mem_encode {hrp data : List UInt8} {byte : UInt8} (listed : byte ∈ encode hrp data) :
    byte ∈ hrp ∨ byte = separator ∨ byte ∈ charset := by
  unfold encode at listed
  rw [List.mem_append, List.mem_cons, List.mem_map] at listed
  rcases listed with inHrp | isSeparator | ⟨group, groupMem, rfl⟩
  · exact Or.inl inHrp
  · exact Or.inr (Or.inl isSeparator)
  · exact Or.inr (Or.inr (character_mem_charset (lt_of_mem_payload groupMem)))

/-- What was encoded is read back. -/
theorem decode_encode (hrp data : List UInt8) : decode hrp (encode hrp data) = some data := by
  have parts : encode hrp data = (hrp ++ [separator]) ++
      (regroup data ++ checksum hrp (regroup data)).map character := by
    unfold encode
    rw [List.append_cons]
  have header : hrp.length + 1 = (hrp ++ [separator]).length := by simp
  have groups : ((regroup data ++ checksum hrp (regroup data)).map character).mapM groupOf =
      some (regroup data ++ checksum hrp (regroup data)) :=
    mapM_groupOf fun _ => lt_of_mem_payload
  have payload : (regroup data ++ checksum hrp (regroup data)).take
      ((regroup data ++ checksum hrp (regroup data)).length - 6) = regroup data := by
    rw [List.length_append, length_checksum, Nat.add_sub_cancel, List.take_left]
  unfold decode
  rw [parts, header, List.drop_left, List.take_left, groups, Option.bind_eq_bind,
    Option.bind_some, payload, if_pos ⟨rfl, rfl⟩, ungroup_regroup]

theorem encode_injective (hrp : List UInt8) : Function.Injective (encode hrp) := by
  intro first second same
  have read := decode_encode hrp first
  rw [same, decode_encode, Option.some.injEq] at read
  exact read.symm

end Bech32
