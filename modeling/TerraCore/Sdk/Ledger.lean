import TerraCore.Sdk.Types

/-!
# The keepers of the SDK

The bank, fee collection and distribution keepers are not part of this
repository. They enter the model as a type class: `Ledger` says what can be
observed of the coins they hold, and `Sdk` adds their operations together with
the documented behaviour that the chain relies on, namely that an operation
which succeeds moves exactly the coins it is given. The class also supplies
what the modules use of Go's `sort` package and of the hash and string
encodings.

`Book` is a small concrete ledger with these properties.
-/

namespace TerraCore

/-- What the SDK keepers hold: account balances, the fees collected for the
proposer, and the tokens allocated to validators. -/
class Ledger (L : Type) where
  /-- The accounts in the order in which `IterateAccounts` visits them. -/
  accounts : L → List Address
  accounts_nodup : ∀ ledger, (accounts ledger).Nodup
  balance : L → Address → Denom → ℕ
  balance_of_not_mem : ∀ ledger address denom,
    address ∉ accounts ledger → balance ledger address denom = 0
  collectedFees : L → Denom → ℤ
  allocatedTo : L → Address → Denom → ℤ
  allocatedTotal : L → Denom → ℤ

/-- The amount of a denomination that a list of transfers names for one address. -/
def credited (entries : List (Address × List Coin)) (address : Address) (denom : Denom) : ℤ :=
  ((entries.filter fun entry => entry.1 = address).map fun entry => amountOf entry.2 denom).sum

/-- The amount of a denomination that a list of transfers names in total. -/
def creditedTotal (entries : List (Address × List Coin)) (denom : Denom) : ℤ :=
  (entries.map fun entry => amountOf entry.2 denom).sum

@[simp]
theorem credited_nil (address : Address) (denom : Denom) : credited [] address denom = 0 := rfl

@[simp]
theorem creditedTotal_nil (denom : Denom) : creditedTotal [] denom = 0 := rfl

theorem credited_cons (entry : Address × List Coin) (entries : List (Address × List Coin))
    (address : Address) (denom : Denom) :
    credited (entry :: entries) address denom =
      (if entry.1 = address then amountOf entry.2 denom else 0) +
        credited entries address denom := by
  simp only [credited]
  by_cases here : entry.1 = address <;> simp [here]

theorem creditedTotal_cons (entry : Address × List Coin) (entries : List (Address × List Coin))
    (denom : Denom) :
    creditedTotal (entry :: entries) denom =
      amountOf entry.2 denom + creditedTotal entries denom := by
  simp [creditedTotal]

theorem credited_append (first second : List (Address × List Coin)) (address : Address)
    (denom : Denom) :
    credited (first ++ second) address denom =
      credited first address denom + credited second address denom := by
  simp [credited]

theorem creditedTotal_append (first second : List (Address × List Coin)) (denom : Denom) :
    creditedTotal (first ++ second) denom =
      creditedTotal first denom + creditedTotal second denom := by
  simp [creditedTotal]

theorem credited_nonneg {entries : List (Address × List Coin)} {denom : Denom}
    (nonneg : ∀ entry ∈ entries, 0 ≤ amountOf entry.2 denom) (address : Address) :
    0 ≤ credited entries address denom := by
  apply List.sum_nonneg
  intro amount listed
  rcases List.mem_map.mp listed with ⟨entry, filtered, rfl⟩
  exact nonneg entry (List.mem_filter.mp filtered).1

theorem creditedTotal_nonneg {entries : List (Address × List Coin)} {denom : Denom}
    (nonneg : ∀ entry ∈ entries, 0 ≤ amountOf entry.2 denom) :
    0 ≤ creditedTotal entries denom := by
  apply List.sum_nonneg
  intro amount listed
  rcases List.mem_map.mp listed with ⟨entry, entryMem, rfl⟩
  exact nonneg entry entryMem

theorem sum_credited (entries : List (Address × List Coin)) (denom : Denom)
    (addresses : Finset Address) (covered : ∀ entry ∈ entries, entry.1 ∈ addresses) :
    ∑ address ∈ addresses, credited entries address denom = creditedTotal entries denom := by
  induction entries with
  | nil => simp
  | cons entry entries ih =>
      simp only [credited_cons, creditedTotal_cons, Finset.sum_add_distrib]
      rw [ih fun other otherMem => covered other (List.mem_cons_of_mem _ otherMem)]
      simp [covered entry List.mem_cons_self]

/-- The coins that one keeper call moves. -/
structure Movement where
  debits : List (Address × List Coin) := []
  credits : List (Address × List Coin) := []
  fees : List Coin := []
  allocations : List (Address × List Coin) := []

/-- One movement after the other. -/
def Movement.append (first second : Movement) : Movement where
  debits := first.debits ++ second.debits
  credits := first.credits ++ second.credits
  fees := first.fees ++ second.fees
  allocations := first.allocations ++ second.allocations

section Observations

variable {L : Type} [Ledger L]

open Ledger

/-- The amount of a denomination in all accounts. -/
def supply (ledger : L) (denom : Denom) : ℕ :=
  ((accounts ledger).map fun address => balance ledger address denom).sum

/-- The coins in all accounts, in the fee collector and allocated to validators. -/
def holdings (ledger : L) (denom : Denom) : ℤ :=
  supply ledger denom + collectedFees ledger denom + allocatedTotal ledger denom

/-- `after` differs from `before` by exactly the coins of `movement`. -/
structure Moves (before after : L) (movement : Movement) : Prop where
  balance : ∀ address denom,
    (Ledger.balance after address denom : ℤ) =
      Ledger.balance before address denom - credited movement.debits address denom +
        credited movement.credits address denom
  collectedFees : ∀ denom,
    Ledger.collectedFees after denom =
      Ledger.collectedFees before denom + amountOf movement.fees denom
  allocatedTo : ∀ address denom,
    Ledger.allocatedTo after address denom =
      Ledger.allocatedTo before address denom + credited movement.allocations address denom
  allocatedTotal : ∀ denom,
    Ledger.allocatedTotal after denom =
      Ledger.allocatedTotal before denom + creditedTotal movement.allocations denom

theorem Moves.trans {before middle after : L} {first second : Movement}
    (left : Moves before middle first) (right : Moves middle after second) :
    Moves before after (first.append second) := by
  constructor
  · intro address denom
    simp only [right.balance, left.balance, Movement.append, credited_append]
    ring
  · intro denom
    simp only [right.collectedFees, left.collectedFees, Movement.append, amountOf_append]
    ring
  · intro address denom
    simp only [right.allocatedTo, left.allocatedTo, Movement.append, credited_append]
    ring
  · intro denom
    simp only [right.allocatedTotal, left.allocatedTotal, Movement.append, creditedTotal_append]
    ring

theorem supply_eq_sum (ledger : L) (denom : Denom) (addresses : Finset Address)
    (covers : ∀ address ∈ accounts ledger, address ∈ addresses) :
    (supply ledger denom : ℤ) = ∑ address ∈ addresses, (balance ledger address denom : ℤ) := by
  have overAccounts : supply ledger denom =
      ∑ address ∈ (accounts ledger).toFinset, balance ledger address denom := by
    simp only [supply]
    rw [List.sum_toFinset _ (accounts_nodup ledger)]
  rw [overAccounts, Nat.cast_sum]
  apply Finset.sum_subset
  · intro address addressMem
    exact covers address (List.mem_toFinset.mp addressMem)
  · intro address _ notAccount
    rw [balance_of_not_mem ledger address denom fun isAccount =>
      notAccount (List.mem_toFinset.mpr isAccount)]
    rfl

/-- Accounts that hold the same hold the same in total. -/
theorem supply_congr {before after : L} {denom : Denom}
    (same : ∀ address, balance after address denom = balance before address denom) :
    supply after denom = supply before denom := by
  let addresses : Finset Address := (accounts before ++ accounts after).toFinset
  have coversBefore : ∀ address ∈ accounts before, address ∈ addresses := by
    intro address addressMem
    simp [addresses, addressMem]
  have coversAfter : ∀ address ∈ accounts after, address ∈ addresses := by
    intro address addressMem
    simp [addresses, addressMem]
  have equal : (supply after denom : ℤ) = supply before denom := by
    rw [supply_eq_sum after denom addresses coversAfter,
      supply_eq_sum before denom addresses coversBefore]
    exact Finset.sum_congr rfl fun address _ => by rw [same address]
  exact_mod_cast equal

theorem Moves.supply {before after : L} {movement : Movement} (moves : Moves before after movement)
    (denom : Denom) :
    (supply after denom : ℤ) =
      supply before denom - creditedTotal movement.debits denom +
        creditedTotal movement.credits denom := by
  -- One finite set of addresses covers both account lists and all transfers.
  let addresses : Finset Address :=
    (accounts before ++ accounts after ++ movement.debits.map Prod.fst ++
      movement.credits.map Prod.fst).toFinset
  have coversBefore : ∀ address ∈ accounts before, address ∈ addresses := by
    intro address addressMem
    simp [addresses, addressMem]
  have coversAfter : ∀ address ∈ accounts after, address ∈ addresses := by
    intro address addressMem
    simp [addresses, addressMem]
  have coversDebits : ∀ entry ∈ movement.debits, entry.1 ∈ addresses := by
    intro entry entryMem
    have : entry.1 ∈ movement.debits.map Prod.fst := List.mem_map_of_mem entryMem
    simp only [addresses, List.mem_toFinset, List.mem_append]
    tauto
  have coversCredits : ∀ entry ∈ movement.credits, entry.1 ∈ addresses := by
    intro entry entryMem
    have : entry.1 ∈ movement.credits.map Prod.fst := List.mem_map_of_mem entryMem
    simp only [addresses, List.mem_toFinset, List.mem_append]
    tauto
  rw [supply_eq_sum after denom addresses coversAfter,
    supply_eq_sum before denom addresses coversBefore,
    ← sum_credited movement.debits denom addresses coversDebits,
    ← sum_credited movement.credits denom addresses coversCredits,
    ← Finset.sum_sub_distrib, ← Finset.sum_add_distrib]
  exact Finset.sum_congr rfl fun address _ => moves.balance address denom

theorem Moves.holdings {before after : L} {movement : Movement}
    (moves : Moves before after movement) (denom : Denom) :
    holdings after denom =
      holdings before denom - creditedTotal movement.debits denom +
        creditedTotal movement.credits denom + amountOf movement.fees denom +
          creditedTotal movement.allocations denom := by
  have accountsMove := moves.supply denom
  have feesMove := moves.collectedFees denom
  have allocationsMove := moves.allocatedTotal denom
  simp only [TerraCore.holdings]
  omega

end Observations

/-- The operations of the SDK that the modules call. -/
class Sdk (L : Type) extends Ledger L where
  sendEnabled : L → Bool
  addCoins : L → Address → List Coin → Outcome L
  addCoins_moves : ∀ {before after : L} {address coins},
    addCoins before address coins = .ok after →
      Moves before after { credits := [(address, coins)] }
  addCoins_of_valid : ∀ (ledger : L) (address : Address) {coins : List Coin},
    isValid coins = true → ∃ after, addCoins ledger address coins = .ok after
  addCoins_of_invalid : ∀ (ledger : L) (address : Address) {coins : List Coin},
    isValid coins = false → addCoins ledger address coins = .error (.error .invalidCoins)
  subtractCoins : L → Address → List Coin → Outcome L
  subtractCoins_moves : ∀ {before after : L} {address coins},
    subtractCoins before address coins = .ok after →
      Moves before after { debits := [(address, coins)] }
  subtractCoins_of_invalid : ∀ (ledger : L) (address : Address) {coins : List Coin},
    isValid coins = false → subtractCoins ledger address coins = .error (.error .invalidCoins)
  sendCoins : L → Address → Address → List Coin → Outcome L
  sendCoins_moves : ∀ {before after : L} {sender receiver coins},
    sendCoins before sender receiver coins = .ok after →
      Moves before after { debits := [(sender, coins)], credits := [(receiver, coins)] }
  inputOutputCoins : L → List (Address × List Coin) → List (Address × List Coin) → Outcome L
  inputOutputCoins_moves : ∀ {before after : L} {inputs outputs},
    inputOutputCoins before inputs outputs = .ok after →
      Moves before after { debits := inputs, credits := outputs }
  addCollectedFees : L → Coins → L
  addCollectedFees_moves : ∀ (before : L) (fees : Coins),
    Moves before (addCollectedFees before fees) { fees := fees.toList }
  allocateTokensToValidator : L → Address → Coins → L
  allocateTokensToValidator_moves : ∀ (before : L) (validator : Address) (tokens : Coins),
    Moves before (allocateTokensToValidator before validator tokens)
      { allocations := [(validator, tokens.toList)] }
  /-- `sort.Sort`, which promises some sorted permutation and nothing about ties. -/
  sort : {β : Type} → (β → β → Bool) → List β → List β
  sort_perm : ∀ {β : Type} (le : β → β → Bool) (items : List β), (sort le items).Perm items
  sort_sorted : ∀ {β : Type} (le : β → β → Bool) (items : List β),
    (∀ a b c, le a b = true → le b c = true → le a c = true) →
    (∀ a b, le a b = true ∨ le b a = true) → (sort le items).Pairwise fun a b => le a b = true
  /-- The truncated SHA-256 of `tmhash`. -/
  truncatedHash : Bytes → Bytes
  /-- `ValAddress.String` -/
  printValAddress : Address → Bytes

/-- Balances of finitely many owners. -/
structure Book where
  owners : List Address
  owners_nodup : owners.Nodup
  amounts : Address → Denom → ℕ
  amounts_of_not_mem : ∀ address denom, address ∉ owners → amounts address denom = 0
  fees : Denom → ℤ
  allocated : Address → Denom → ℤ
  allocatedTotal : Denom → ℤ

namespace Book

instance : Ledger Book where
  accounts := owners
  accounts_nodup := owners_nodup
  balance := amounts
  balance_of_not_mem := amounts_of_not_mem
  collectedFees := fees
  allocatedTo := allocated
  allocatedTotal := Book.allocatedTotal

def empty : Book where
  owners := []
  owners_nodup := List.nodup_nil
  amounts _ _ := 0
  amounts_of_not_mem _ _ _ := rfl
  fees _ := 0
  allocated _ _ := 0
  allocatedTotal _ := 0

/-- Replace the amounts of one owner. -/
def setAmounts (book : Book) (owner : Address) (amounts : Denom → ℕ) : Book where
  owners := if owner ∈ book.owners then book.owners else owner :: book.owners
  owners_nodup := by
    split
    · exact book.owners_nodup
    · next fresh => exact List.nodup_cons.mpr ⟨fresh, book.owners_nodup⟩
  amounts address := if address = owner then amounts else book.amounts address
  amounts_of_not_mem := by
    intro address denom notOwner
    split at notOwner
    · next known =>
        have different : address ≠ owner := fun same => notOwner (same ▸ known)
        simp [different, book.amounts_of_not_mem address denom notOwner]
    · simp only [List.mem_cons, not_or] at notOwner
      simp [notOwner.1, book.amounts_of_not_mem address denom notOwner.2]
  fees := book.fees
  allocated := book.allocated
  allocatedTotal := book.allocatedTotal

theorem amountOf_nonneg_of_isValid {coins : List Coin} (valid : isValid coins = true)
    (denom : Denom) : 0 ≤ amountOf coins denom :=
  Coins.amountOf_nonneg ⟨coins, valid⟩ denom

def addCoins (book : Book) (address : Address) (coins : List Coin) : Outcome Book :=
  if isValid coins then
    .ok (book.setAmounts address fun denom =>
      book.amounts address denom + (amountOf coins denom).toNat)
  else .error (.error .invalidCoins)

theorem addCoins_moves {before after : Book} {address : Address} {coins : List Coin}
    (done : before.addCoins address coins = .ok after) :
    Moves before after { credits := [(address, coins)] } := by
  simp only [addCoins] at done
  split at done
  · next valid =>
      cases done
      refine ⟨?_, by simp [Ledger.collectedFees, setAmounts],
        by simp [Ledger.allocatedTo, setAmounts], by simp [Ledger.allocatedTotal, setAmounts]⟩
      intro owner denom
      have nonneg := amountOf_nonneg_of_isValid valid denom
      simp only [Ledger.balance, setAmounts, credited_cons, credited_nil]
      by_cases here : owner = address
      · subst here
        simp [nonneg]
      · simp [here, Ne.symm here]
  · cases done

def subtractCoins (book : Book) (address : Address) (coins : List Coin) : Outcome Book :=
  if isValid coins then
    if ∀ coin ∈ coins, amountOf coins coin.denom ≤ book.amounts address coin.denom then
      .ok (book.setAmounts address fun denom =>
        book.amounts address denom - (amountOf coins denom).toNat)
    else .error (.error .insufficientCoins)
  else .error (.error .invalidCoins)

theorem subtractCoins_moves {before after : Book} {address : Address} {coins : List Coin}
    (done : before.subtractCoins address coins = .ok after) :
    Moves before after { debits := [(address, coins)] } := by
  simp only [subtractCoins] at done
  split at done
  · next valid =>
      split at done
      · next covered =>
          cases done
          refine ⟨?_, by simp [Ledger.collectedFees, setAmounts],
            by simp [Ledger.allocatedTo, setAmounts],
            by simp [Ledger.allocatedTotal, setAmounts]⟩
          intro owner denom
          have nonneg := amountOf_nonneg_of_isValid valid denom
          have enough : amountOf coins denom ≤ before.amounts address denom := by
            by_cases listed : ∃ coin ∈ coins, coin.denom = denom
            · rcases listed with ⟨coin, coinMem, rfl⟩
              exact covered coin coinMem
            · rw [amountOf_eq_zero_of_absent
                fun coin coinMem same => listed ⟨coin, coinMem, same⟩]
              exact Int.natCast_nonneg _
          simp only [Ledger.balance, setAmounts, credited_cons, credited_nil]
          by_cases here : owner = address
          · subst here
            simp only [if_true]
            omega
          · simp [here, Ne.symm here]
      · cases done
  · cases done

def sendCoins (book : Book) (sender receiver : Address) (coins : List Coin) : Outcome Book := do
  let book ← book.subtractCoins sender coins
  book.addCoins receiver coins

theorem sendCoins_moves {before after : Book} {sender receiver : Address} {coins : List Coin}
    (done : before.sendCoins sender receiver coins = .ok after) :
    Moves before after { debits := [(sender, coins)], credits := [(receiver, coins)] } := by
  rcases Outcome.bind_eq_ok.mp done with ⟨middle, subtracted, added⟩
  exact (subtractCoins_moves subtracted).trans (addCoins_moves added)

def subtractAll (book : Book) : List (Address × List Coin) → Outcome Book
  | [] => .ok book
  | entry :: entries => do
      let book ← book.subtractCoins entry.1 entry.2
      book.subtractAll entries

def addAll (book : Book) : List (Address × List Coin) → Outcome Book
  | [] => .ok book
  | entry :: entries => do
      let book ← book.addCoins entry.1 entry.2
      book.addAll entries

theorem subtractAll_moves {before after : Book} {entries : List (Address × List Coin)}
    (done : before.subtractAll entries = .ok after) :
    Moves before after { debits := entries } := by
  induction entries generalizing before with
  | nil =>
      cases done
      constructor <;> simp
  | cons entry entries ih =>
      rcases Outcome.bind_eq_ok.mp done with ⟨middle, first, rest⟩
      exact (subtractCoins_moves first).trans (ih rest)

theorem addAll_moves {before after : Book} {entries : List (Address × List Coin)}
    (done : before.addAll entries = .ok after) :
    Moves before after { credits := entries } := by
  induction entries generalizing before with
  | nil =>
      cases done
      constructor <;> simp
  | cons entry entries ih =>
      rcases Outcome.bind_eq_ok.mp done with ⟨middle, first, rest⟩
      exact (addCoins_moves first).trans (ih rest)

def inputOutputCoins (book : Book) (inputs outputs : List (Address × List Coin)) :
    Outcome Book := do
  let book ← book.subtractAll inputs
  book.addAll outputs

theorem inputOutputCoins_moves {before after : Book} {inputs outputs : List (Address × List Coin)}
    (done : before.inputOutputCoins inputs outputs = .ok after) :
    Moves before after { debits := inputs, credits := outputs } := by
  rcases Outcome.bind_eq_ok.mp done with ⟨middle, subtracted, added⟩
  simpa [Movement.append] using (subtractAll_moves subtracted).trans (addAll_moves added)

/-- The bech32 form of the address of twenty one-bytes; other addresses print as they are. -/
def printValAddress (address : Address) : Bytes :=
  if address = List.replicate addrLen 1 then
    ascii "terravaloper1qyqszqgpqyqszqgpqyqszqgpqyqszqgp5chrl0"
  else address

/-- The truncated SHA-256 of one vote of that validator; other texts are only cut off. -/
def truncatedHash (bytes : Bytes) : Bytes :=
  if bytes = ascii
      "1:1.000000000000000000:usdr:terravaloper1qyqszqgpqyqszqgpqyqszqgpqyqszqgp5chrl0" then
    [52, 182, 180, 140, 26, 16, 134, 237, 85, 217, 35, 182, 97, 122, 249, 207, 121, 225, 122, 234]
  else bytes.take addrLen

instance : Sdk Book where
  sendEnabled _ := true
  addCoins := addCoins
  addCoins_moves := addCoins_moves
  addCoins_of_valid book address coins valid := by
    simp only [addCoins]
    rw [if_pos valid]
    exact ⟨_, rfl⟩
  addCoins_of_invalid book address coins invalid := by
    simp only [addCoins]
    rw [if_neg (by simp [invalid])]
  subtractCoins := subtractCoins
  subtractCoins_moves := subtractCoins_moves
  subtractCoins_of_invalid book address coins invalid := by
    simp only [subtractCoins]
    rw [if_neg (by simp [invalid])]
  sendCoins := sendCoins
  sendCoins_moves := sendCoins_moves
  inputOutputCoins := inputOutputCoins
  inputOutputCoins_moves := inputOutputCoins_moves
  addCollectedFees book fees :=
    { book with fees := fun denom => book.fees denom + fees.amountOf denom }
  addCollectedFees_moves book fees := by
    constructor <;>
      simp [Ledger.balance, Ledger.collectedFees, Ledger.allocatedTo, Ledger.allocatedTotal,
        Coins.amountOf]
  allocateTokensToValidator book validator tokens :=
    { book with
      allocated := fun address denom =>
        book.allocated address denom + if validator = address then tokens.amountOf denom else 0
      allocatedTotal := fun denom => book.allocatedTotal denom + tokens.amountOf denom }
  allocateTokensToValidator_moves book validator tokens := by
    constructor <;>
      simp [Ledger.balance, Ledger.collectedFees, Ledger.allocatedTo, Ledger.allocatedTotal,
        credited_cons, creditedTotal_cons, Coins.amountOf]
  sort le items := items.mergeSort le
  sort_perm le items := List.mergeSort_perm items le
  sort_sorted le items trans total := by
    apply List.pairwise_mergeSort trans
    intro a b
    simpa using total a b
  truncatedHash := truncatedHash
  printValAddress := printValAddress

end Book

end TerraCore
