import TerraCore.Update.Plan

/-!
# Accounts in the genesis file

An export flattens every account into one record, and an import tells the five
kinds apart again by the fields that are set: a start and an end time, an end
time, graded schedules, lazy schedules. The public key is not kept.

The methods of the SDK's own vesting accounts are parameters. What is relied on
is that a delayed account has no start time and that what vests and what can be
spent does not depend on the public key.
-/

namespace TerraCore.App

open Update Vesting

/-- A missing list of schedules is `nil`, which an empty one is not. -/
structure GenesisAccount where
  address : Address
  coins : Coins
  sequence : UInt64
  accountNumber : UInt64
  originalVesting : Coins
  delegatedFree : Coins
  delegatedVesting : Coins
  startTime : Int64
  endTime : Int64
  vestingSchedules : Option (List VestingSchedule)
  lazyVestingSchedules : Option (List LazyVestingSchedule)
deriving DecidableEq

/-- The methods of the SDK's vesting accounts: a continuous account is given
with its start time, and the last argument is the block time. -/
structure SdkAccounts where
  delayedStartTime : BaseVestingAccount → Int64
  continuousVesting : BaseVestingAccount → Int64 → Int64 → Outcome (List Coin)
  continuousSpendable : BaseVestingAccount → Int64 → Int64 → Outcome Coins
  delayedVesting : BaseVestingAccount → Int64 → Outcome (List Coin)
  delayedSpendable : BaseVestingAccount → Int64 → Outcome Coins

def withPubKey (account : BaseVestingAccount) (pubKey : Option Bytes) : BaseVestingAccount :=
  { account with pubKey := pubKey }

structure SdkAccounts.Documented (sdk : SdkAccounts) : Prop where
  delayedStartTime : ∀ account, sdk.delayedStartTime account = 0
  continuousVesting : ∀ account pubKey startTime blockTime,
    sdk.continuousVesting (withPubKey account pubKey) startTime blockTime =
      sdk.continuousVesting account startTime blockTime
  continuousSpendable : ∀ account pubKey startTime blockTime,
    sdk.continuousSpendable (withPubKey account pubKey) startTime blockTime =
      sdk.continuousSpendable account startTime blockTime
  delayedVesting : ∀ account pubKey blockTime,
    sdk.delayedVesting (withPubKey account pubKey) blockTime =
      sdk.delayedVesting account blockTime
  delayedSpendable : ∀ account pubKey blockTime,
    sdk.delayedSpendable (withPubKey account pubKey) blockTime =
      sdk.delayedSpendable account blockTime

/-- `Coins.IsZero` -/
def isZero (coins : Coins) : Bool := coins.toList.all fun coin => coin.amount = 0

/-- The fields every account has. -/
def newGenesisAccount (acc : BaseAccount) : GenesisAccount where
  address := acc.address
  coins := acc.coins
  sequence := acc.sequence
  accountNumber := acc.accountNumber
  originalVesting := .empty
  delegatedFree := .empty
  delegatedVesting := .empty
  startTime := 0
  endTime := 0
  vestingSchedules := none
  lazyVestingSchedules := none

/-- The fields every vesting account has, at the times its kind reports. -/
def newGenesisVesting (vacc : BaseVestingAccount) (startTime endTime : Int64) : GenesisAccount :=
  { newGenesisAccount vacc.toBaseAccount with
    originalVesting := vacc.originalVesting
    delegatedFree := vacc.delegatedFree
    delegatedVesting := vacc.delegatedVesting
    startTime := startTime
    endTime := endTime }

/-- An account without schedules holds no list of them. -/
def nilIfEmpty {α : Type} (schedules : List α) : Option (List α) :=
  if schedules.isEmpty then none else some schedules

/-- Graded and lazy accounts report zero for both times. -/
def newGenesisAccountI (sdk : SdkAccounts) : Account → GenesisAccount
  | .base acc => newGenesisAccount acc
  | .continuous vacc startTime => newGenesisVesting vacc startTime vacc.endTime
  | .delayed vacc => newGenesisVesting vacc (sdk.delayedStartTime vacc) vacc.endTime
  | .graded gvacc =>
      { newGenesisVesting gvacc.toBaseVestingAccount 0 0 with
        vestingSchedules := nilIfEmpty gvacc.vestingSchedules }
  | .lazyGraded lgvacc =>
      { newGenesisVesting lgvacc.toBaseVestingAccount 0 0 with
        lazyVestingSchedules := nilIfEmpty lgvacc.lazyVestingSchedules }

namespace GenesisAccount

def baseAccount (ga : GenesisAccount) : BaseAccount where
  address := ga.address
  pubKey := none
  coins := ga.coins.sort
  accountNumber := ga.accountNumber
  sequence := ga.sequence

def baseVestingAccount (ga : GenesisAccount) : BaseVestingAccount where
  toBaseAccount := ga.baseAccount
  originalVesting := ga.originalVesting
  delegatedFree := ga.delegatedFree
  delegatedVesting := ga.delegatedVesting
  endTime := ga.endTime

def toAccount (ga : GenesisAccount) : Account :=
  if isZero ga.originalVesting then .base ga.baseAccount
  else if ga.startTime ≠ 0 ∧ ga.endTime ≠ 0 then
    .continuous ga.baseVestingAccount ga.startTime
  else if ga.endTime ≠ 0 then .delayed ga.baseVestingAccount
  else
    match ga.vestingSchedules, ga.lazyVestingSchedules with
    | some vestingSchedules, _ => .graded ⟨ga.baseVestingAccount, vestingSchedules⟩
    | none, some lazyVestingSchedules => .lazyGraded ⟨ga.baseVestingAccount, lazyVestingSchedules⟩
    | none, none => .base ga.baseAccount

end GenesisAccount

/-- The kind of an account and when its coins are released. -/
inductive Terms where
  | free
  | continuous (startTime endTime : Int64)
  | delayed (endTime : Int64)
  | graded (vestingSchedules : List VestingSchedule)
  | lazyGraded (lazyVestingSchedules : List LazyVestingSchedule)
deriving DecidableEq

def terms : Account → Terms
  | .base _ => .free
  | .continuous account startTime => .continuous startTime account.endTime
  | .delayed account => .delayed account.endTime
  | .graded account => .graded account.vestingSchedules
  | .lazyGraded account => .lazyGraded account.lazyVestingSchedules

/-- The coins and delegations of an account; nothing of a base account vests. -/
def balances : Account → BaseVestingAccount
  | .base account => ⟨account, .empty, .empty, .empty, 0⟩
  | .continuous account _ => account
  | .delayed account => account
  | .graded account => account.toBaseVestingAccount
  | .lazyGraded account => account.toBaseVestingAccount

def vestingCoins (sdk : SdkAccounts) (account : Account) (blockTime : Int64) :
    Outcome (List Coin) :=
  match account with
  | .base _ => .ok []
  | .continuous account startTime => sdk.continuousVesting account startTime blockTime
  | .delayed account => sdk.delayedVesting account blockTime
  | .graded account => account.getVestingCoins blockTime
  | .lazyGraded account => account.getVestingCoins blockTime

def spendableCoins (sdk : SdkAccounts) (account : Account) (blockTime : Int64) : Outcome Coins :=
  match account with
  | .base account => .ok account.coins
  | .continuous account startTime => sdk.continuousSpendable account startTime blockTime
  | .delayed account => sdk.delayedSpendable account blockTime
  | .graded account => account.spendableCoins blockTime
  | .lazyGraded account => account.spendableCoins blockTime

/-- The accounts an import can tell apart. -/
def Exportable (account : Account) : Prop :=
  match account with
  | .base _ => True
  | .continuous account startTime =>
      isZero account.originalVesting = false ∧ startTime ≠ 0 ∧ account.endTime ≠ 0
  | .delayed account => isZero account.originalVesting = false ∧ account.endTime ≠ 0
  | .graded account => isZero account.originalVesting = false ∧ account.vestingSchedules ≠ []
  | .lazyGraded account =>
      isZero account.originalVesting = false ∧ account.lazyVestingSchedules ≠ []

/-- The account after an export and an import. It has lost its public key, and
the end time that a graded or a lazy account does not report. -/
def withoutKey : Account → Account
  | .base account => .base { account with pubKey := none }
  | .continuous account startTime => .continuous (withPubKey account none) startTime
  | .delayed account => .delayed (withPubKey account none)
  | .graded account =>
      .graded ⟨{ withPubKey account.toBaseVestingAccount none with endTime := 0 },
        account.vestingSchedules⟩
  | .lazyGraded account =>
      .lazyGraded ⟨{ withPubKey account.toBaseVestingAccount none with endTime := 0 },
        account.lazyVestingSchedules⟩

theorem nilIfEmpty_of_ne_nil {α : Type} {schedules : List α} (nonempty : schedules ≠ []) :
    nilIfEmpty schedules = some schedules := by
  simp [nilIfEmpty, nonempty]

theorem toAccount_newGenesisAccountI {sdk : SdkAccounts} (documented : sdk.Documented)
    {account : Account} (exportable : Exportable account) :
    (newGenesisAccountI sdk account).toAccount = withoutKey account := by
  cases account with
  | base account =>
      simp [newGenesisAccountI, newGenesisAccount, GenesisAccount.toAccount,
        GenesisAccount.baseAccount, isZero, Coins.empty, Coins.sort_eq, withoutKey]
  | continuous account startTime =>
      rcases exportable with ⟨nonzero, started, ended⟩
      simp [newGenesisAccountI, newGenesisVesting, newGenesisAccount, GenesisAccount.toAccount,
        GenesisAccount.baseVestingAccount, GenesisAccount.baseAccount, nonzero, started, ended,
        Coins.sort_eq, withoutKey, withPubKey]
  | delayed account =>
      rcases exportable with ⟨nonzero, ended⟩
      simp [newGenesisAccountI, newGenesisVesting, newGenesisAccount, GenesisAccount.toAccount,
        GenesisAccount.baseVestingAccount, GenesisAccount.baseAccount, nonzero, ended,
        documented.delayedStartTime, Coins.sort_eq, withoutKey, withPubKey]
  | graded account =>
      rcases exportable with ⟨nonzero, nonempty⟩
      simp [newGenesisAccountI, newGenesisVesting, newGenesisAccount, GenesisAccount.toAccount,
        GenesisAccount.baseVestingAccount, GenesisAccount.baseAccount, nonzero,
        nilIfEmpty_of_ne_nil nonempty, Coins.sort_eq, withoutKey, withPubKey]
  | lazyGraded account =>
      rcases exportable with ⟨nonzero, nonempty⟩
      simp [newGenesisAccountI, newGenesisVesting, newGenesisAccount, GenesisAccount.toAccount,
        GenesisAccount.baseVestingAccount, GenesisAccount.baseAccount, nonzero,
        nilIfEmpty_of_ne_nil nonempty, Coins.sort_eq, withoutKey, withPubKey]

/-- An account that is the same but for its public key. -/
structure Restores (sdk : SdkAccounts) (account restored : Account) : Prop where
  terms : terms restored = terms account
  address : restored.address = account.address
  accountNumber : (balances restored).accountNumber = (balances account).accountNumber
  sequence : (balances restored).sequence = (balances account).sequence
  coins : (balances restored).coins = (balances account).coins
  originalVesting : (balances restored).originalVesting = (balances account).originalVesting
  delegatedFree : (balances restored).delegatedFree = (balances account).delegatedFree
  delegatedVesting : (balances restored).delegatedVesting = (balances account).delegatedVesting
  vestingCoins : ∀ blockTime, vestingCoins sdk restored blockTime = vestingCoins sdk account blockTime
  spendableCoins : ∀ blockTime,
    spendableCoins sdk restored blockTime = spendableCoins sdk account blockTime

theorem withoutKey_restores {sdk : SdkAccounts} (documented : sdk.Documented)
    (account : Account) : Restores sdk account (withoutKey account) := by
  cases account with
  | base account => exact ⟨rfl, rfl, rfl, rfl, rfl, rfl, rfl, rfl, fun _ => rfl, fun _ => rfl⟩
  | continuous account startTime =>
      exact ⟨rfl, rfl, rfl, rfl, rfl, rfl, rfl, rfl,
        documented.continuousVesting account none startTime,
        documented.continuousSpendable account none startTime⟩
  | delayed account =>
      exact ⟨rfl, rfl, rfl, rfl, rfl, rfl, rfl, rfl, documented.delayedVesting account none,
        documented.delayedSpendable account none⟩
  | graded account => exact ⟨rfl, rfl, rfl, rfl, rfl, rfl, rfl, rfl, fun _ => rfl, fun _ => rfl⟩
  | lazyGraded account =>
      exact ⟨rfl, rfl, rfl, rfl, rfl, rfl, rfl, rfl, fun _ => rfl, fun _ => rfl⟩

/-- Importing an exported account restores it, with the same vesting and
spendable coins at every time. -/
theorem import_restores_account {sdk : SdkAccounts} (documented : sdk.Documented)
    {account : Account} (exportable : Exportable account) :
    Restores sdk account (newGenesisAccountI sdk account).toAccount := by
  rw [toAccount_newGenesisAccountI documented exportable]
  exact withoutKey_restores documented account

/-- The vested ratio between the start and the end of a continuous account. -/
def linearRatio (startTime endTime blockTime : Int64) : Outcome Dec :=
  if blockTime ≤ startTime then .ok Dec.zero
  else if endTime ≤ blockTime then .ok Dec.one
  else (Dec.ofInt (blockTime - startTime).toInt).quo (Dec.ofInt (endTime - startTime).toInt)

def linearVesting (account : BaseVestingAccount) (startTime blockTime : Int64) :
    Outcome (List Coin) := do
  let ratio ← linearRatio startTime account.endTime blockTime
  Vesting.vestingCoins (fun _ => some ratio) account.originalVesting

def delayedVesting (account : BaseVestingAccount) (blockTime : Int64) : Outcome (List Coin) :=
  if blockTime < account.endTime then .ok account.originalVesting.toList else .ok []

/-- The methods as the SDK specifies them. -/
def specifiedAccounts : SdkAccounts where
  delayedStartTime _ := 0
  continuousVesting := linearVesting
  continuousSpendable account startTime blockTime := do
    account.spendableCoins (← linearVesting account startTime blockTime)
  delayedVesting := delayedVesting
  delayedSpendable account blockTime := do
    account.spendableCoins (← delayedVesting account blockTime)

theorem specifiedAccounts_documented : specifiedAccounts.Documented where
  delayedStartTime _ := rfl
  continuousVesting _ _ _ _ := rfl
  continuousSpendable _ _ _ _ := rfl
  delayedVesting _ _ _ := rfl
  delayedSpendable _ _ _ := rfl

/-- A hundred million `uluna` that vest linearly, of an account that has signed. -/
def continuousAccount : BaseVestingAccount where
  address := List.replicate 20 1
  pubKey := some [2]
  coins := ⟨[⟨microLunaDenom, 100000000⟩], Vesting.hundredLuna_isValid⟩
  accountNumber := 7
  sequence := 3
  originalVesting := ⟨[⟨microLunaDenom, 100000000⟩], Vesting.hundredLuna_isValid⟩
  delegatedFree := .empty
  delegatedVesting := .empty
  endTime := 20

theorem import_restores_account_continuous :
    Restores specifiedAccounts (.continuous continuousAccount 10)
      (newGenesisAccountI specifiedAccounts (.continuous continuousAccount 10)).toAccount :=
  import_restores_account specifiedAccounts_documented ⟨rfl, by decide, by decide⟩

end TerraCore.App
