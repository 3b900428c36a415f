import TerraCore.Library.Rounding
import TerraCore.Library.Store

/-!
# SDK value types

The chain is built on the Cosmos SDK. This file fixes the value types its
modules compute with: byte strings for denominations and addresses, decimals
with eighteen fractional digits, coins, and the ways in which a call can fail.

An `sdk.Int` is an unbounded integer here. An `sdk.Dec` is the integer number
of `10^-18` units; `Mul` and `Quo` round half to even, while `QuoInt` and
`TruncateInt` round towards zero. Integer overflow panics are not modelled.
-/

namespace TerraCore

/-- A Go string or byte slice. -/
abbrev Bytes := List UInt8

/-- The denomination of a coin. -/
abbrev Denom := Bytes

/-- An account address, `sdk.AccAddress`, or the same bytes as an `sdk.ValAddress`. -/
abbrev Address := Bytes

-- The pairs that key the stores, compared part by part.
instance : Std.TransOrd (Denom × Address) := inferInstance

instance : Std.TransOrd (Denom × ℤ) := inferInstance

instance : Std.TransOrd (ℕ × Address) := inferInstance

/-- The bytes of an ASCII literal. -/
def ascii (text : String) : Bytes :=
  text.toList.map fun character => character.toNat.toUInt8

def microLunaDenom : Denom := ascii "uluna"

def microSDRDenom : Denom := ascii "usdr"

def microKRWDenom : Denom := ascii "ukrw"

def microUnit : ℤ := 1000000

/-- The length of every address that is derived from a public key. -/
def addrLen : ℕ := 20

/-- An address whose printed form is read back: it is empty or has `addrLen` bytes. -/
def Readable (address : Address) : Prop := address = [] ∨ address.length = addrLen

instance (address : Address) : Decidable (Readable address) :=
  inferInstanceAs (Decidable (_ ∨ _))

theorem readable_of_length {address : Address} (length : address.length = addrLen) :
    Readable address := Or.inr length

/-- `sdk.AccAddressFromBech32` applied to the bech32 form of an address. -/
def accAddressFromBech32 (address : Address) : Option Address :=
  if Readable address then some address else none

@[simp]
theorem accAddressFromBech32_of_length {address : Address} (length : address.length = addrLen) :
    accAddressFromBech32 address = some address := if_pos (readable_of_length length)

/-- `sdk.Dec`, as its number of `10^-18` units. -/
@[ext]
structure Dec where
  raw : ℤ
deriving DecidableEq

/-- The `sdk.Error` values returned by the modelled handlers and keepers. -/
inductive SdkError where
  | invalidAddress (printed : Address)
  | invalidHashLength (length : ℕ)
  | invalidSaltLength (length : ℕ)
  | invalidPrice (price : Dec)
  | noValidatorFound
  | noDelegatorForAddress
  | invalidCoins
  | insufficientCoins
  | sendDisabled
  | issuanceBelowZero
  | noVotingPermission (feeder operator : Address)
  | noPrevote (voter : Address) (denom : Denom)
  | notRevealPeriod
  | verificationFailed (hash retrievedHash : Bytes)
  | unknownDenomination (denom : Denom)
  | noEffectivePrice (denom : Denom)
  | insufficientSwapCoins (amount : ℤ)
  | recursiveSwap (denom : Denom)
  | exceedsDailySwapLimit
  | programNotFound (programID : ℕ)
  | invalidSubmitter (submitter : Address)
  | refundFailed (submitter : Address) (programID : ℕ)
deriving DecidableEq

/-- The Go panics that the modelled code can raise. -/
inductive Panic where
  | divisionByZero
  | negativeCoinAmount
  | invalidDenom
  | invalidCoins
  | nilDec
  | delegationAttempt
  | invalidPreseedAccount (address : Address)
  | invalidSeedAccount (address : Address)
  | notValidSchedule (address : Address)
  | unexpectedError (error : SdkError)
deriving DecidableEq

/-- Why a call did not complete. -/
inductive Failure where
  | error (error : SdkError)
  | panic (panic : Panic)
deriving DecidableEq

/-- The result of a call that may fail. -/
abbrev Outcome (α : Type) := Except Failure α

theorem Outcome.bind_eq_ok {α β : Type} {first : Outcome α} {rest : α → Outcome β} {result : β} :
    (first >>= rest) = .ok result ↔ ∃ value, first = .ok value ∧ rest value = .ok result := by
  cases first <;> simp [bind, Except.bind]

theorem Outcome.ok_bind {α β : Type} (value : α) (rest : α → Outcome β) :
    (Except.ok value >>= rest) = rest value := rfl

/-- A check that refuses lets through what does not meet its condition. -/
theorem refusal_eq_ok {ε : Type} {refused : Prop} [Decidable refused] {error : ε}
    {rest : Except ε Unit} :
    (if refused then .error error else rest) = .ok () ↔ ¬refused ∧ rest = .ok () := by
  by_cases holds : refused <;> simp [holds]

/-- The call does not even return an error. -/
def Outcome.Panics {α : Type} (outcome : Outcome α) : Prop :=
  ∃ panic, outcome = .error (.panic panic)

theorem Outcome.bind_panics {α β : Type} {first : Outcome α} {rest : α → Outcome β} :
    Outcome.Panics (first >>= rest) ↔
      Outcome.Panics first ∨ ∃ value, first = .ok value ∧ Outcome.Panics (rest value) := by
  cases first <;> simp [Outcome.Panics, bind, Except.bind]

/-- An error that the caller does not expect is turned into a panic. -/
def mustSucceed {α : Type} : Outcome α → Outcome α
  | .error (.error error) => .error (.panic (.unexpectedError error))
  | outcome => outcome

theorem mustSucceed_eq_ok {α : Type} {outcome : Outcome α} {value : α} :
    mustSucceed outcome = .ok value ↔ outcome = .ok value := by
  cases outcome with
  | ok found => simp [mustSucceed]
  | error failure => cases failure <;> simp [mustSucceed]

namespace Dec

/-- The number of units in one. -/
def precision : ℤ := 10 ^ 18

theorem precision_pos : 0 < precision := by
  decide

def zero : Dec := ⟨0⟩

def one : Dec := ⟨precision⟩

/-- `sdk.NewDecFromInt` -/
def ofInt (value : ℤ) : Dec := ⟨value * precision⟩

instance : LE Dec := ⟨fun left right => left.raw ≤ right.raw⟩

instance : LT Dec := ⟨fun left right => left.raw < right.raw⟩

instance (left right : Dec) : Decidable (left ≤ right) :=
  inferInstanceAs (Decidable (left.raw ≤ right.raw))

instance (left right : Dec) : Decidable (left < right) :=
  inferInstanceAs (Decidable (left.raw < right.raw))

theorem le_def {left right : Dec} : left ≤ right ↔ left.raw ≤ right.raw := Iff.rfl

theorem lt_def {left right : Dec} : left < right ↔ left.raw < right.raw := Iff.rfl

theorem not_le {left right : Dec} : ¬left ≤ right ↔ right < left := Int.not_le

theorem not_lt {left right : Dec} : ¬left < right ↔ right ≤ left := Int.not_lt

def add (left right : Dec) : Dec := ⟨left.raw + right.raw⟩

def sub (left right : Dec) : Dec := ⟨left.raw - right.raw⟩

def abs (value : Dec) : Dec := ⟨|value.raw|⟩

def chopPrecisionAndRound (value : ℤ) : ℤ := Rounding.roundHalfEven value precision

def mul (left right : Dec) : Dec := ⟨chopPrecisionAndRound (left.raw * right.raw)⟩

/-- `Dec.Quo`: the numerator is scaled twice, divided towards zero, then rounded. -/
def quo (left right : Dec) : Outcome Dec :=
  if right.raw = 0 then .error (.panic .divisionByZero)
  else .ok ⟨chopPrecisionAndRound ((left.raw * precision * precision).tdiv right.raw)⟩

/-- `sdk.NewDecWithPrec` -/
def withPrec (value : ℤ) (prec : ℕ) : Dec := ⟨value * 10 ^ (18 - prec)⟩

def mulInt (value : Dec) (factor : ℤ) : Dec := ⟨value.raw * factor⟩

/-- `Dec.QuoInt64` by a divisor that is not zero. -/
def quoInt64 (value : Dec) (divisor : ℤ) : Dec := ⟨value.raw.tdiv divisor⟩

def quoInt (value : Dec) (divisor : ℤ) : Outcome Dec :=
  if divisor = 0 then .error (.panic .divisionByZero) else .ok (value.quoInt64 divisor)

def truncateInt (value : Dec) : ℤ := value.raw.tdiv precision

def roundInt (value : Dec) : ℤ := chopPrecisionAndRound value.raw

/-- `Dec.String`: all eighteen fractional digits are printed. -/
def string (value : Dec) : Bytes :=
  let sign := if value.raw < 0 then ascii "-" else []
  let whole := Nat.toDigits 10 (value.raw.natAbs / 10 ^ 18)
  let fraction := Nat.toDigits 10 (value.raw.natAbs % 10 ^ 18)
  let padded := List.replicate (18 - fraction.length) '0' ++ fraction
  sign ++ (whole ++ '.' :: padded).map fun character => character.toNat.toUInt8

example : (⟨1500000000000000000⟩ : Dec).string = ascii "1.500000000000000000" := by
  decide +kernel

theorem roundInt_nonneg {value : Dec} (nonneg : 0 ≤ value.raw) : 0 ≤ value.roundInt :=
  Rounding.roundHalfEven_nonneg precision_pos nonneg

end Dec

structure Coin where
  denom : Denom
  amount : ℤ
deriving DecidableEq

/-- Denominations have three to sixteen lower-case letters or digits and start with a letter. -/
def validateDenom : Denom → Bool
  | [] => false
  | first :: rest =>
      let isLower := fun byte : UInt8 => 97 ≤ byte && byte ≤ 122
      let isDigit := fun byte : UInt8 => 48 ≤ byte && byte ≤ 57
      isLower first && 2 ≤ rest.length && rest.length ≤ 15 &&
        rest.all fun byte => isLower byte || isDigit byte

def newCoin (denom : Denom) (amount : ℤ) : Outcome Coin :=
  if validateDenom denom then
    if amount < 0 then .error (.panic .negativeCoinAmount) else .ok ⟨denom, amount⟩
  else .error (.panic .invalidDenom)

theorem newCoin_eq_ok {denom : Denom} {amount : ℤ} {coin : Coin} :
    newCoin denom amount = .ok coin ↔
      validateDenom denom = true ∧ 0 ≤ amount ∧ coin = ⟨denom, amount⟩ := by
  simp only [newCoin]
  split
  · next valid =>
      split
      · next negative => simp [negative]
      · next nonneg => simp [valid, not_lt.mp nonneg, eq_comm]
  · next invalid => simp [invalid]

/-- `Coin.Sub` of a coin of the same denomination, which panics on a negative result. -/
def Coin.sub (left right : Coin) : Outcome Coin :=
  if left.amount - right.amount < 0 then .error (.panic .negativeCoinAmount)
  else .ok ⟨left.denom, left.amount - right.amount⟩

/-- The amount of one denomination in a list of coins. -/
def amountOf (coins : List Coin) (denom : Denom) : ℤ :=
  ((coins.filter fun coin => coin.denom = denom).map Coin.amount).sum

@[simp]
theorem amountOf_nil (denom : Denom) : amountOf [] denom = 0 := rfl

theorem amountOf_cons (coin : Coin) (coins : List Coin) (denom : Denom) :
    amountOf (coin :: coins) denom =
      (if coin.denom = denom then coin.amount else 0) + amountOf coins denom := by
  simp only [amountOf]
  by_cases here : coin.denom = denom <;> simp [here]

theorem amountOf_eq_zero_of_absent {coins : List Coin} {denom : Denom}
    (absent : ∀ coin ∈ coins, coin.denom ≠ denom) : amountOf coins denom = 0 := by
  simp only [amountOf]
  rw [List.filter_eq_nil_iff.mpr]
  · rfl
  · intro coin coinMem
    simpa using absent coin coinMem

theorem amountOf_append (left right : List Coin) (denom : Denom) :
    amountOf (left ++ right) denom = amountOf left denom + amountOf right denom := by
  simp [amountOf]

/-- Sorted by denomination without repetition, with well-formed denominations and no zero amount. -/
structure Proper (coins : List Coin) : Prop where
  sorted : coins.Pairwise fun left right => compare left.denom right.denom = .lt
  denoms : ∀ coin ∈ coins, validateDenom coin.denom = true
  nonzero : ∀ coin ∈ coins, coin.amount ≠ 0

def isValid (coins : List Coin) : Bool :=
  decide (coins.Pairwise fun left right => compare left.denom right.denom = .lt) &&
    coins.all fun coin => validateDenom coin.denom && decide (0 < coin.amount)

theorem isValid_iff (coins : List Coin) :
    isValid coins = true ↔ Proper coins ∧ ∀ coin ∈ coins, 0 < coin.amount := by
  simp only [isValid]
  simp only [Bool.and_eq_true, decide_eq_true_eq, List.all_eq_true]
  constructor
  · rintro ⟨sorted, each⟩
    refine ⟨⟨sorted, fun coin coinMem => (each coin coinMem).1, ?_⟩,
      fun coin coinMem => (each coin coinMem).2⟩
    intro coin coinMem
    have positive := (each coin coinMem).2
    omega
  · rintro ⟨proper, positive⟩
    exact ⟨proper.sorted, fun coin coinMem => ⟨proper.denoms coin coinMem, positive coin coinMem⟩⟩

/-- Add one coin to a sorted list of coins, dropping an amount that becomes zero. -/
def insertCoin (coin : Coin) : List Coin → List Coin
  | [] => if coin.amount = 0 then [] else [coin]
  | head :: tail =>
      match compare coin.denom head.denom with
      | .lt => if coin.amount = 0 then head :: tail else coin :: head :: tail
      | .eq =>
          if head.amount + coin.amount = 0 then tail
          else ⟨head.denom, head.amount + coin.amount⟩ :: tail
      | .gt => head :: insertCoin coin tail

theorem amountOf_insertCoin (coin : Coin) (coins : List Coin) (denom : Denom) :
    amountOf (insertCoin coin coins) denom =
      amountOf coins denom + if coin.denom = denom then coin.amount else 0 := by
  induction coins with
  | nil =>
      simp only [insertCoin]
      split
      · next isZero => simp [isZero]
      · simp [amountOf_cons]
  | cons head tail ih =>
      simp only [insertCoin]
      split
      · split
        · next isZero => simp [isZero]
        · rw [amountOf_cons coin, add_comm]
      · next same =>
          have denomEq : coin.denom = head.denom := Std.LawfulEqOrd.eq_of_compare same
          rw [amountOf_cons, denomEq]
          split
          · next isZero => split <;> omega
          · rw [amountOf_cons]
            by_cases here : head.denom = denom
            · simp only [here, if_true]
              omega
            · simp only [here, if_false]
              omega
      · rw [amountOf_cons, amountOf_cons, ih, add_assoc]

theorem mem_insertCoin {coin other : Coin} {coins : List Coin}
    (present : other ∈ insertCoin coin coins) :
    other.denom = coin.denom ∨ other ∈ coins := by
  induction coins with
  | nil =>
      simp only [insertCoin] at present
      split at present
      · cases present
      · simp only [List.mem_singleton] at present
        exact Or.inl (by rw [present])
  | cons head tail ih =>
      simp only [insertCoin] at present
      split at present
      · split at present
        · exact Or.inr present
        · rcases List.mem_cons.mp present with rfl | old
          · exact Or.inl rfl
          · exact Or.inr old
      · next same =>
          have denomEq : coin.denom = head.denom := Std.LawfulEqOrd.eq_of_compare same
          split at present
          · exact Or.inr (List.mem_cons_of_mem _ present)
          · rcases List.mem_cons.mp present with rfl | old
            · exact Or.inl denomEq.symm
            · exact Or.inr (List.mem_cons_of_mem _ old)
      · rcases List.mem_cons.mp present with rfl | old
        · exact Or.inr List.mem_cons_self
        · exact (ih old).imp_right (List.mem_cons_of_mem _)

theorem Proper.tail {head : Coin} {tail : List Coin} (proper : Proper (head :: tail)) :
    Proper tail :=
  ⟨proper.sorted.of_cons, fun coin coinMem => proper.denoms coin (List.mem_cons_of_mem _ coinMem),
    fun coin coinMem => proper.nonzero coin (List.mem_cons_of_mem _ coinMem)⟩

theorem Proper.cons {head : Coin} {tail : List Coin} (proper : Proper tail)
    (valid : validateDenom head.denom = true) (nonzero : head.amount ≠ 0)
    (first : ∀ coin ∈ tail, compare head.denom coin.denom = .lt) : Proper (head :: tail) := by
  refine ⟨List.pairwise_cons.mpr ⟨first, proper.sorted⟩, ?_, ?_⟩
  · intro coin coinMem
    rcases List.mem_cons.mp coinMem with rfl | old
    · exact valid
    · exact proper.denoms coin old
  · intro coin coinMem
    rcases List.mem_cons.mp coinMem with rfl | old
    · exact nonzero
    · exact proper.nonzero coin old

theorem Proper.insertCoin {coin : Coin} {coins : List Coin} (proper : Proper coins)
    (valid : validateDenom coin.denom = true) : Proper (insertCoin coin coins) := by
  induction coins with
  | nil =>
      simp only [TerraCore.insertCoin]
      split
      · exact proper
      · next nonzero => exact proper.cons valid nonzero (by simp)
  | cons head tail ih =>
      have headFirst := (List.pairwise_cons.mp proper.sorted).1
      have headValid := proper.denoms head List.mem_cons_self
      simp only [TerraCore.insertCoin]
      split
      · next before =>
          split
          · exact proper
          · next nonzero =>
              refine proper.cons valid nonzero ?_
              intro other otherMem
              rcases List.mem_cons.mp otherMem with rfl | old
              · exact before
              · exact Std.TransCmp.lt_trans before (headFirst other old)
      · split
        · exact proper.tail
        · next nonzero => exact proper.tail.cons headValid nonzero headFirst
      · next after =>
          refine (ih proper.tail).cons headValid (proper.nonzero head List.mem_cons_self) ?_
          intro other otherMem
          rcases mem_insertCoin otherMem with sameDenom | old
          · rw [sameDenom]
            exact Std.OrientedCmp.lt_of_gt after
          · exact headFirst other old

/-- In a sorted list the denomination of the first coin does not occur again. -/
theorem Proper.denom_ne {head : Coin} {tail : List Coin} (proper : Proper (head :: tail))
    {other : Coin} (otherMem : other ∈ tail) : other.denom ≠ head.denom := by
  have before := (List.pairwise_cons.mp proper.sorted).1 other otherMem
  intro same
  rw [same] at before
  simp at before

theorem Proper.amountOf_tail {head : Coin} {tail : List Coin} (proper : Proper (head :: tail)) :
    amountOf tail head.denom = 0 :=
  amountOf_eq_zero_of_absent fun _ otherMem => proper.denom_ne otherMem

/-- A valid coin set: sorted, with positive amounts of well-formed denominations. -/
structure Coins where
  toList : List Coin
  valid : isValid toList = true

namespace Coins

theorem ext_toList {left right : Coins} (same : left.toList = right.toList) : left = right := by
  cases left
  cases right
  congr

instance : DecidableEq Coins := fun left right =>
  decidable_of_iff (left.toList = right.toList)
    ⟨ext_toList, fun same => by rw [same]⟩

def empty : Coins := ⟨[], rfl⟩

def amountOf (coins : Coins) (denom : Denom) : ℤ := TerraCore.amountOf coins.toList denom

@[simp]
theorem amountOf_empty (denom : Denom) : empty.amountOf denom = 0 := rfl

theorem proper (coins : Coins) : Proper coins.toList :=
  ((isValid_iff coins.toList).mp coins.valid).1

/-- Valid coins are sorted already. -/
theorem insertionSort_eq (coins : Coins) :
    coins.toList.insertionSort (fun left right => (compare left.denom right.denom).isLE = true) =
      coins.toList := by
  apply List.Pairwise.insertionSort_eq
  refine coins.proper.sorted.imp ?_
  intro left right before
  rw [before]
  rfl

/-- `Coins.Sort` -/
def sort (coins : Coins) : Coins where
  toList := coins.toList.insertionSort fun left right =>
    (compare left.denom right.denom).isLE = true
  valid := by
    rw [insertionSort_eq]
    exact coins.valid

theorem sort_eq (coins : Coins) : coins.sort = coins := ext_toList coins.insertionSort_eq

theorem amount_pos (coins : Coins) {coin : Coin} (coinMem : coin ∈ coins.toList) :
    0 < coin.amount :=
  ((isValid_iff coins.toList).mp coins.valid).2 coin coinMem

theorem amountOf_nonneg (coins : Coins) (denom : Denom) : 0 ≤ coins.amountOf denom := by
  apply List.sum_nonneg
  simp only [List.mem_map, List.mem_filter]
  rintro amount ⟨coin, ⟨coinMem, _⟩, rfl⟩
  exact (coins.amount_pos coinMem).le

/-- `sdk.NewCoins` of one coin: a zero coin is dropped and an invalid one panics. -/
def ofCoin (coin : Coin) : Outcome Coins :=
  if coin.amount = 0 then .ok empty
  else if valid : isValid [coin] = true then .ok ⟨[coin], valid⟩
  else .error (.panic .invalidCoins)

theorem amountOf_ofCoin {coin : Coin} {coins : Coins} (made : ofCoin coin = .ok coins)
    (denom : Denom) :
    coins.amountOf denom = if coin.denom = denom then coin.amount else 0 := by
  simp only [ofCoin] at made
  split at made
  · next isZero =>
      cases made
      simp [isZero]
  · split at made
    · cases made
      simp [amountOf, amountOf_cons]
    · cases made

theorem ofCoin_isOk {denom : Denom} {amount : ℤ} (valid : validateDenom denom = true)
    (nonneg : 0 ≤ amount) : ∃ coins, ofCoin ⟨denom, amount⟩ = .ok coins := by
  simp only [ofCoin]
  split
  · exact ⟨_, rfl⟩
  · next nonzero =>
      have isValidCoin : isValid [⟨denom, amount⟩] = true := by
        rw [isValid_iff]
        refine ⟨⟨by simp, by simpa using valid, by simpa using nonzero⟩, ?_⟩
        simp only [List.mem_singleton, forall_eq]
        exact lt_of_le_of_ne nonneg (Ne.symm nonzero)
      rw [dif_pos isValidCoin]
      exact ⟨_, rfl⟩

/-- The coins of `right` added one by one to the list `left`. -/
def addList (left right : List Coin) : List Coin :=
  right.foldl (fun sum coin => insertCoin coin sum) left

theorem amountOf_addList (left right : List Coin) (denom : Denom) :
    TerraCore.amountOf (addList left right) denom =
      TerraCore.amountOf left denom + TerraCore.amountOf right denom := by
  simp only [addList]
  induction right generalizing left with
  | nil => simp
  | cons coin right ih =>
      rw [List.foldl_cons, ih, amountOf_insertCoin, amountOf_cons, add_assoc]

theorem proper_addList {left right : List Coin} (leftProper : Proper left)
    (rightDenoms : ∀ coin ∈ right, validateDenom coin.denom = true) :
    Proper (addList left right) := by
  simp only [addList]
  induction right generalizing left with
  | nil => exact leftProper
  | cons coin right ih =>
      rw [List.foldl_cons]
      apply ih (leftProper.insertCoin (rightDenoms coin List.mem_cons_self))
      intro other otherMem
      exact rightDenoms other (List.mem_cons_of_mem _ otherMem)

/-- In a sorted list the amount of a denomination is the amount of its only coin. -/
theorem amountOf_of_mem {coins : List Coin} (proper : Proper coins) {coin : Coin}
    (coinMem : coin ∈ coins) : TerraCore.amountOf coins coin.denom = coin.amount := by
  induction coins with
  | nil => cases coinMem
  | cons head tail ih =>
      rw [amountOf_cons]
      rcases List.mem_cons.mp coinMem with rfl | inTail
      · simp [proper.amountOf_tail]
      · have different : head.denom ≠ coin.denom := (proper.denom_ne inTail).symm
        rw [if_neg different, zero_add]
        exact ih proper.tail inTail

theorem mem_of_amountOf_ne_zero {coins : Coins} {denom : Denom}
    (held : coins.amountOf denom ≠ 0) : ∃ coin ∈ coins.toList, coin.denom = denom := by
  by_contra absent
  apply held
  apply amountOf_eq_zero_of_absent
  intro coin coinMem sameDenom
  exact absent ⟨coin, coinMem, sameDenom⟩

/-- Coins are bounded in every denomination when each of them is. -/
theorem amountOf_le_of_forall (coins : Coins) {bound : Denom → ℤ} {denom : Denom}
    (nonneg : 0 ≤ bound denom) (each : ∀ coin ∈ coins.toList, coin.amount ≤ bound coin.denom) :
    coins.amountOf denom ≤ bound denom := by
  by_cases held : coins.amountOf denom = 0
  · rw [held]
    exact nonneg
  · rcases mem_of_amountOf_ne_zero held with ⟨coin, coinMem, rfl⟩
    rw [amountOf, amountOf_of_mem coins.proper coinMem]
    exact each coin coinMem

theorem valid_of_amounts {coins : List Coin} (proper : Proper coins)
    (nonneg : ∀ denom, 0 ≤ TerraCore.amountOf coins denom) : isValid coins = true := by
  refine (isValid_iff coins).mpr ⟨proper, ?_⟩
  intro coin coinMem
  have amount := nonneg coin.denom
  rw [amountOf_of_mem proper coinMem] at amount
  exact lt_of_le_of_ne amount (Ne.symm (proper.nonzero coin coinMem))

def add (left right : Coins) : Coins where
  toList := addList left.toList right.toList
  valid := by
    apply valid_of_amounts (proper_addList left.proper right.proper.denoms)
    intro denom
    rw [amountOf_addList]
    exact add_nonneg (left.amountOf_nonneg denom) (right.amountOf_nonneg denom)

@[simp]
theorem amountOf_add (left right : Coins) (denom : Denom) :
    (left.add right).amountOf denom = left.amountOf denom + right.amountOf denom :=
  amountOf_addList left.toList right.toList denom

/-- The list that `Coins.Sub` computes before it checks for negative amounts. -/
def subList (left right : Coins) : List Coin :=
  addList left.toList (right.toList.map fun coin => ⟨coin.denom, -coin.amount⟩)

theorem proper_subList (left right : Coins) : Proper (subList left right) := by
  apply proper_addList left.proper
  intro coin coinMem
  rcases List.mem_map.mp coinMem with ⟨original, originalMem, rfl⟩
  exact right.proper.denoms original originalMem

theorem amountOf_negated (coins : List Coin) (denom : Denom) :
    TerraCore.amountOf (coins.map fun coin => ⟨coin.denom, -coin.amount⟩) denom =
      -TerraCore.amountOf coins denom := by
  induction coins with
  | nil => rfl
  | cons coin coins ih =>
      rw [List.map_cons, amountOf_cons, amountOf_cons, ih, neg_add]
      split <;> simp

theorem amountOf_subList (left right : Coins) (denom : Denom) :
    TerraCore.amountOf (subList left right) denom =
      left.amountOf denom - right.amountOf denom := by
  simp only [subList]
  rw [amountOf_addList, amountOf_negated]
  rfl

/-- `Coins.Sub`, which panics when an amount would become negative. -/
def sub (left right : Coins) : Outcome Coins :=
  if nonneg : ∀ coin ∈ subList left right, 0 ≤ coin.amount then
    .ok ⟨subList left right, by
      refine (isValid_iff _).mpr ⟨proper_subList left right, ?_⟩
      intro coin coinMem
      exact lt_of_le_of_ne (nonneg coin coinMem)
        (Ne.symm ((proper_subList left right).nonzero coin coinMem))⟩
  else .error (.panic .negativeCoinAmount)

theorem amountOf_of_sub {left right difference : Coins} (done : left.sub right = .ok difference)
    (denom : Denom) :
    difference.amountOf denom = left.amountOf denom - right.amountOf denom := by
  simp only [sub] at done
  split at done
  · cases done
    exact amountOf_subList left right denom
  · cases done

theorem sub_isOk {left right : Coins}
    (covers : ∀ denom, right.amountOf denom ≤ left.amountOf denom) :
    ∃ difference, left.sub right = .ok difference := by
  have nonneg : ∀ coin ∈ subList left right, 0 ≤ coin.amount := by
    intro coin coinMem
    rw [← amountOf_of_mem (proper_subList left right) coinMem, amountOf_subList]
    exact sub_nonneg.mpr (covers coin.denom)
  simp only [sub]
  rw [dif_pos nonneg]
  exact ⟨_, rfl⟩

theorem amountOf_eq_zero_of_isEmpty {coins : Coins} (isEmpty : coins.toList = [])
    (denom : Denom) : coins.amountOf denom = 0 := by
  simp only [amountOf]
  rw [isEmpty, amountOf_nil]

end Coins

/-- The values of the `action` tag. -/
inductive Action where
  | priceUpdate
  | tallyDropped
  | programRejected
  | programPassed
  | programLegacied
  | programGranted
  | policyUpdate
deriving DecidableEq

/-- A tag: the constructor is the key, the argument is the value before it is printed. -/
inductive Tag where
  | action (action : Action)
  | denom (denom : Denom)
  | price (price : Dec)
  | voter (voter : Address)
  | operator (operator : Address)
  | feedDelegate (delegate : Address)
  | offer (denom : Denom)
  | trader (trader : Address)
  | programID (programID : ℕ)
  | weight (weight : ℤ)
  | option (option : Bool)
  | tax (rate : Dec)
  | minerReward (weight : Dec)
deriving DecidableEq

abbrev Tags := List Tag

/-- The entries of a handler's result log, before they are printed as JSON. -/
inductive LogEntry where
  | price (price : Dec)
  | swapCoin (coin : Coin)
  | swapFee (fee : Option Coin)
  | tax (taxes : Coins)
deriving DecidableEq

/-- The parts of an `sdk.Result` that a successful handler fills in. -/
structure Result where
  tags : Tags
  log : List LogEntry
deriving DecidableEq

/-- `types.Claim`; the weight is an `sdk.Int`, which each module keeps in the
range that its own rules guarantee. -/
structure Claim (W : Type) where
  weight : W
  recipient : Address
deriving DecidableEq

/-- `addClaimPool` on the claims of a store: the weight of each claim is added
to what its recipient already has. -/
def addClaims {W : Type} [Add W] (claims : Store Address W) (pool : List (Claim W)) :
    Store Address W :=
  Store.accumulateAll claims (pool.map fun claim => (claim.recipient, claim.weight))

end TerraCore
