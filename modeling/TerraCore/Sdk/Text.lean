import TerraCore.Library.Bech32
import TerraCore.Library.Decimal
import TerraCore.Library.Separator
import TerraCore.Sdk.Ledger

/-!
# Texts of the SDK

Keys and commitments are texts whose fields are joined by colons. Printed
decimals have no colon and at least twenty characters. Of printed addresses the
texts rely on what `Printed` collects, which bech32 has.
-/

namespace TerraCore

/-- The separator of the fields of a text. -/
def colon : UInt8 := 58

theorem ascii_colon : ascii ":" = [colon] := rfl

theorem colon_not_mem_print (number : ℕ) : colon ∉ Decimal.print number := by
  intro listed
  exact absurd (Decimal.isDigit_of_mem_print listed) (by decide)

namespace Dec

def point : UInt8 := 46

/-- The eighteen digits after the point. -/
def fractionText (value : Dec) : Bytes :=
  let fraction := Decimal.print (value.raw.natAbs % 10 ^ 18)
  List.replicate (18 - fraction.length) (Decimal.byte '0') ++ fraction

theorem string_of_nonneg {value : Dec} (nonneg : 0 ≤ value.raw) :
    value.string =
      Decimal.print (value.raw.natAbs / 10 ^ 18) ++ point :: value.fractionText := by
  have noSign : ¬value.raw < 0 := not_lt.mpr nonneg
  simp only [string, if_neg noSign, List.nil_append, List.map_append, List.map_cons,
    List.map_replicate, fractionText, Decimal.print, List.length_map]
  rfl

theorem length_fractionText (value : Dec) : value.fractionText.length = 18 := by
  have bound : value.raw.natAbs % 10 ^ 18 < 10 ^ 18 := Nat.mod_lt _ (by decide)
  have short : (Decimal.print (value.raw.natAbs % 10 ^ 18)).length ≤ 18 := by
    rw [Decimal.print, List.length_map]
    exact Nat.toDigits_length 10 _ 18 (by decide) bound
  simp only [fractionText, List.length_append, List.length_replicate]
  omega

theorem value_fractionText (value : Dec) :
    Decimal.value value.fractionText = value.raw.natAbs % 10 ^ 18 :=
  Decimal.value_replicate_append_print _ _

theorem length_string {value : Dec} (nonneg : 0 ≤ value.raw) : 20 ≤ value.string.length := by
  have whole := List.length_pos_of_ne_nil (Decimal.print_ne_nil (value.raw.natAbs / 10 ^ 18))
  rw [string_of_nonneg nonneg, List.length_append, List.length_cons, length_fractionText]
  omega

theorem colon_not_mem_string {value : Dec} (nonneg : 0 ≤ value.raw) : colon ∉ value.string := by
  rw [string_of_nonneg nonneg, fractionText, List.mem_append, List.mem_cons, List.mem_append,
    List.mem_replicate]
  rintro (inWhole | isPoint | ⟨-, isZero⟩ | inFraction)
  · exact colon_not_mem_print _ inWhole
  · exact absurd isPoint (by decide)
  · exact absurd isZero (by decide)
  · exact colon_not_mem_print _ inFraction

theorem point_not_mem_print (number : ℕ) : point ∉ Decimal.print number := by
  intro listed
  exact absurd (Decimal.isDigit_of_mem_print listed) (by decide)

theorem string_inj {first second : Dec} (nonneg : 0 ≤ first.raw) (nonneg' : 0 ≤ second.raw)
    (same : first.string = second.string) : first = second := by
  rw [string_of_nonneg nonneg, string_of_nonneg nonneg'] at same
  rcases Separator.first_unique (point_not_mem_print _) (point_not_mem_print _) same with
    ⟨wholeEq, fractionEq⟩
  have quotient := Decimal.print_injective wholeEq
  have remainder := congrArg Decimal.value fractionEq
  rw [value_fractionText, value_fractionText] at remainder
  apply Dec.ext
  omega

end Dec

/-- What is relied on of the printed form of addresses. -/
structure Printed (print : Address → Bytes) : Prop where
  nil : print [] = []
  injective : Set.InjOn print {address | address.length = addrLen}
  length : ∀ {first second : Address}, first.length = addrLen → second.length = addrLen →
    (print first).length = (print second).length
  noColon : ∀ {address : Address}, address.length = addrLen → colon ∉ print address

/-- A printed address starts with another one only if they are the same. -/
theorem Printed.prefix_iff {print : Address → Bytes} (printed : Printed print)
    {first second : Address} (addressed : first.length = addrLen)
    (addressed' : second.length = addrLen) :
    print first <+: print second ↔ first = second := by
  constructor
  · intro starts
    exact printed.injective addressed addressed'
      (starts.eq_of_length (printed.length addressed addressed'))
  · rintro rfl
    exact List.prefix_rfl

/-- `String` of an address: its bech32 form, or nothing for the empty address. -/
def printBech32 (hrp : Bytes) (address : Address) : Bytes :=
  if address = [] then [] else Bech32.encode hrp address

example : printBech32 (ascii "terravaloper") (List.replicate 20 1) =
    ascii "terravaloper1qyqszqgpqyqszqgpqyqszqgpqyqszqgp5chrl0" := by
  decide +kernel

theorem printBech32_of_length (hrp : Bytes) {address : Address}
    (addressed : address.length = addrLen) : printBech32 hrp address = Bech32.encode hrp address :=
  if_neg (by rintro rfl; cases addressed)

theorem printBech32_injective (hrp : Bytes) : Function.Injective (printBech32 hrp) := by
  have encodes : ∀ address, Bech32.encode hrp address ≠ [] := by
    intro address
    simp [Bech32.encode]
  intro first second same
  unfold printBech32 at same
  split at same
  · next firstNil =>
      split at same
      · next secondNil => rw [firstNil, secondNil]
      · exact absurd same.symm (encodes second)
  · split at same
    · exact absurd same (encodes first)
    · exact Bech32.encode_injective hrp same

theorem colon_not_mem_printBech32 {hrp : Bytes} (noColon : colon ∉ hrp) (address : Address) :
    colon ∉ printBech32 hrp address := by
  unfold printBech32
  split
  · simp
  · intro listed
    rcases Bech32.mem_encode listed with inHrp | isSeparator | inCharset
    · exact noColon inHrp
    · exact absurd isSeparator (by decide)
    · exact absurd inCharset (by decide)

theorem printed_bech32 {hrp : Bytes} (noColon : colon ∉ hrp) : Printed (printBech32 hrp) where
  nil := rfl
  injective := (printBech32_injective hrp).injOn
  length := by
    intro first second addressed addressed'
    rw [printBech32_of_length hrp addressed, printBech32_of_length hrp addressed',
      Bech32.length_encode, Bech32.length_encode, addressed, addressed']
  noColon := fun _ => colon_not_mem_printBech32 noColon _

/-- `FromBech32`: the address of a text; nothing is the empty address. -/
def parseBech32 (hrp text : Bytes) : Option Address :=
  if text = [] then some []
  else (Bech32.decode hrp text).filter fun address => address.length = addrLen

/-- How addresses are written in texts and read from them. -/
structure AddressCodec where
  print : Address → Bytes
  parse : Bytes → Option Address
  printed : Printed print
  parse_print : ∀ {address : Address}, address.length = addrLen →
    parse (print address) = some address

/-- A printed address is read back exactly when it is empty or has `addrLen` bytes. -/
theorem parseBech32_printBech32 (hrp : Bytes) (address : Address) :
    parseBech32 hrp (printBech32 hrp address) = accAddressFromBech32 address := by
  unfold printBech32 parseBech32 accAddressFromBech32 Readable
  split
  · next isEmpty => simp [isEmpty]
  · next nonempty =>
      have notEmpty : Bech32.encode hrp address ≠ [] := by simp [Bech32.encode]
      rw [if_neg notEmpty, Bech32.decode_encode]
      simp [nonempty, Option.filter]

/-- The codec of account addresses. -/
def AddressCodec.account : AddressCodec where
  print := printBech32 (ascii "terra")
  parse := parseBech32 (ascii "terra")
  printed := printed_bech32 (by decide)
  parse_print := by
    intro address addressed
    rw [parseBech32_printBech32, accAddressFromBech32_of_length addressed]

/-- The codec of the operator addresses of validators. -/
def AddressCodec.validator : AddressCodec where
  print := printBech32 (ascii "terravaloper")
  parse := parseBech32 (ascii "terravaloper")
  printed := printed_bech32 (by decide)
  parse_print := by
    intro address addressed
    rw [parseBech32_printBech32, accAddressFromBech32_of_length addressed]

/-- A ledger of balances that prints the operator addresses of all validators in bech32. -/
def PrintedBook : Type := Book

namespace PrintedBook

def empty : PrintedBook := Book.empty

instance : Sdk PrintedBook :=
  { (inferInstance : Sdk Book) with printValAddress := printBech32 (ascii "terravaloper") }

theorem printed : Printed (Sdk.printValAddress PrintedBook) :=
  printed_bech32 (by decide)

end PrintedBook

end TerraCore
