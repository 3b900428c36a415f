import TerraCore.Context
import TerraCore.Vesting.Account

/-!
# The update at height 230000

Once, at the end of block 230000, every graded vesting account is replaced by a
lazy one. Two lists of accounts get schedules of their own, after a strict
check of the schedule they had; all others have each cliff spread over thirty
days. The update also sets the reward band of the oracle and the daily cap of
the market.

The printed form of an address, `AccAddress.String`, is a parameter.
-/

namespace TerraCore

namespace Update

open Vesting

/-- The accounts of the chain: plain ones, the vesting accounts of the SDK and
those of this repository. -/
inductive Account where
  | base (account : BaseAccount)
  | continuous (account : BaseVestingAccount) (startTime : Int64)
  | delayed (account : BaseVestingAccount)
  | graded (account : BaseGradedVestingAccount)
  | lazyGraded (account : BaseLazyGradedVestingAccount)
deriving DecidableEq

def Account.address : Account → Address
  | base account => account.address
  | continuous account _ => account.address
  | delayed account => account.address
  | graded account => account.address
  | lazyGraded account => account.address

/-- The account store: every account is kept under its own address. -/
structure Accounts where
  entries : Store Address Account
  keyed : ∀ (address : Address) account, entries[address]? = some account →
    account.address = address

def noAccounts : Accounts where
  entries := ∅
  keyed := by
    intro address account present
    rw [Store.get_empty] at present
    cases present

/-- `AccountKeeper.SetAccount` -/
def Accounts.setAccount (accounts : Accounts) (account : Account) : Accounts where
  entries := accounts.entries.insert account.address account
  keyed := Store.forall_get_insert accounts.keyed rfl

/-- The days from 1970-01-01 to a date of the Gregorian calendar. -/
def daysFromCivil (year month day : ℕ) : ℕ :=
  let years := if month ≤ 2 then year - 1 else year
  365 * years + years / 4 - years / 100 + years / 400 + (153 * ((month + 9) % 12) + 2) / 5 +
    day - 1 - 719468

/-- `genesisTime.AddDate(0, months, 0).Unix()`, where the genesis time is
2019-04-24 06:00 UTC. -/
def genesisTimeAddMonths (months : ℕ) : Int64 :=
  Int64.ofNat (daysFromCivil (2019 + (3 + months) / 12) ((3 + months) % 12 + 1) 24 * 86400 + 21600)

/-- Seconds in thirty days. -/
def secondsPerMonth : Int64 := 30 * 24 * 60 * 60

def genesisUnixTime : Int64 := 1556085600

example : genesisTimeAddMonths 0 = genesisUnixTime ∧ genesisTimeAddMonths 1 = 1558677600 ∧
    genesisTimeAddMonths 2 = 1561356000 ∧ genesisTimeAddMonths 10 = 1582524000 ∧
    genesisTimeAddMonths 12 = 1587708000 ∧ genesisTimeAddMonths 18 = 1603519200 := by
  decide

def preseedAddresses : List String :=
  ["terra1p54hc4yy2ajg67j645dn73w3378j6k05v52cnk",
    "terra1weyggr6rnggy7vdnp79pxr7vskndegcnswh8gl",
    "terra1jd2yth3zl2vez34q4m0wxngaazwy0e8csxuucd",
    "terra1upg95nlwkfkrq4hhjrn3k9s6ud0aqx36gwnlsn",
    "terra1f2z4q5kdelhfk7xq3xmxzlhp6ntrtzu659pl0s"]

def seedAddresses : List String :=
  ["terra1m8lvnh4zju4zcjh34rjhyyuyjk4m79536jf2tm",
    "terra1y9n2ywyu5dahtxar6k4z4jz97ynt8km4catuk6",
    "terra13cvpljjkm2huadv38dfx8jyucfda0cs6jp3sku",
    "terra1kgj2zc0qxltr5vsgycmxp7x337q5s9lvxlh694",
    "terra1zjkr4t3dglt8mzykhtvrq5wltapstlmpdly87u",
    "terra1y4umfuqfg76t8mfcff6zzx7elvy93jtp4xcdvw"]

/-- The strict check of a schedule: it has the expected number of parts, and
each of them is one of the expected ones. -/
def strictCheck (account : BaseGradedVestingAccount) (count : ℕ) (expected : List Schedule) :
    Bool :=
  match account.vestingSchedules with
  | [vestingSchedule] =>
      decide (vestingSchedule.denom = microLunaDenom) &&
        decide (vestingSchedule.schedules.length = count) &&
        vestingSchedule.schedules.all fun schedule => expected.contains schedule
  | _ => false

def updatePreseedSchedules (account : BaseGradedVestingAccount) :
    Outcome (List LazyVestingSchedule) :=
  let expected : List Schedule :=
    [⟨1558677600, .withPrec 10 2⟩, ⟨1561356000, .withPrec 10 2⟩, ⟨1563948000, .withPrec 10 2⟩,
      ⟨1587708000, .withPrec 70 2⟩]
  if strictCheck account 4 expected then
    .ok [⟨microLunaDenom,
      [⟨genesisTimeAddMonths 1, genesisTimeAddMonths 2, .withPrec 10 2⟩,
        ⟨genesisTimeAddMonths 2, genesisTimeAddMonths 12, .withPrec 27 2⟩,
        ⟨genesisTimeAddMonths 12, genesisTimeAddMonths 17, .withPrec 48 2⟩,
        ⟨genesisTimeAddMonths 17, genesisTimeAddMonths 18, .withPrec 15 2⟩]⟩]
  else .error (.panic (.invalidPreseedAccount account.address))

/-- One seed account has a fifth part, which is not rescheduled with the others. -/
def updateSeedSchedules (string : Address → String) (account : BaseGradedVestingAccount) :
    Outcome (List LazyVestingSchedule) :=
  let apart : Bool := string account.address = "terra1y9n2ywyu5dahtxar6k4z4jz97ynt8km4catuk6"
  let ratio : Dec := if apart then .withPrec 467 3 else .one
  let checked :=
    if apart then strictCheck account 5
      [⟨1558677600, .withPrec 47 3⟩, ⟨1561356000, .withPrec 47 3⟩, ⟨1563948000, .withPrec 47 3⟩,
        ⟨1582524000, .withPrec 326 3⟩, ⟨1603519200, .withPrec 533 3⟩]
    else strictCheck account 4
      [⟨1558677600, .withPrec 10 2⟩, ⟨1561356000, .withPrec 10 2⟩, ⟨1563948000, .withPrec 10 2⟩,
        ⟨1582524000, .withPrec 70 2⟩, ⟨1579845600, .withPrec 70 2⟩]
  if checked then
    .ok [⟨microLunaDenom,
      [⟨genesisTimeAddMonths 1, genesisTimeAddMonths 2, ratio.mul (.withPrec 10 2)⟩,
        ⟨genesisTimeAddMonths 2, genesisTimeAddMonths 10, ratio.mul (.withPrec 30 2)⟩,
        ⟨genesisTimeAddMonths 10, genesisTimeAddMonths 13, ratio.mul (.withPrec 60 2)⟩] ++
      (if ratio ≠ .one then
        [⟨genesisTimeAddMonths 18, genesisTimeAddMonths 19, Dec.one.sub ratio⟩]
      else [])⟩]
  else .error (.panic (.invalidSeedAccount account.address))

/-- A cliff spread over thirty days; the addition wraps around. -/
def spreadSchedule (schedule : Schedule) : LazySchedule :=
  ⟨schedule.cliff, schedule.cliff + secondsPerMonth, schedule.ratio⟩

def spreadVestingSchedule (vestingSchedule : VestingSchedule) : LazyVestingSchedule :=
  ⟨vestingSchedule.denom, vestingSchedule.schedules.map spreadSchedule⟩

/-- The schedules of an account that is on the preseed list. -/
def preseedSchedules (string : Address → String) (account : BaseGradedVestingAccount) :
    Outcome (Option (List LazyVestingSchedule)) :=
  if preseedAddresses.contains (string account.address) then
    (updatePreseedSchedules account).map some
  else .ok none

/-- The schedules of an account that is on the seed list. -/
def seedSchedules (string : Address → String) (account : BaseGradedVestingAccount) :
    Outcome (Option (List LazyVestingSchedule)) :=
  if seedAddresses.contains (string account.address) then
    (updateSeedSchedules string account).map some
  else .ok none

/-- The lazy schedules of an account. The seed list is checked last. -/
def lazySchedules (string : Address → String) (account : BaseGradedVestingAccount) :
    Outcome (List LazyVestingSchedule) := do
  let preseed ← preseedSchedules string account
  let seed ← seedSchedules string account
  match seed, preseed with
  | some schedules, _ => .ok schedules
  | none, some schedules => .ok schedules
  | none, none => .ok (account.vestingSchedules.map spreadVestingSchedule)

/-- The lazy account that replaces a graded one, whose `GetEndTime` is zero. -/
def updateAccount (string : Address → String) (account : BaseGradedVestingAccount) :
    Outcome BaseLazyGradedVestingAccount := do
  let lazyVestingSchedules ← lazySchedules string account
  if lazyVestingSchedules.all LazyVestingSchedule.isValid then
    .ok
      { address := account.address
        pubKey := account.pubKey
        coins := account.coins.sort
        accountNumber := account.accountNumber
        sequence := account.sequence
        originalVesting := account.originalVesting
        delegatedFree := account.delegatedFree
        delegatedVesting := account.delegatedVesting
        endTime := 0
        lazyVestingSchedules := lazyVestingSchedules }
  else .error (.panic (.notValidSchedule account.address))

/-- The body of the iteration over all accounts. -/
def visitAccount (string : Address → String) (accounts : Accounts) (account : Account) :
    Outcome Accounts :=
  match account with
  | .graded account => do .ok (accounts.setAccount (.lazyGraded (← updateAccount string account)))
  | _ => .ok accounts

def updateHeight : ℕ := 230000

/-- Whether the update was done, and the state after it. -/
def update230000 {L : Type} (string : Address → String) (ctx : Context L) (accounts : Accounts) :
    Outcome (Bool × Context L × Accounts) :=
  if ctx.height ≠ updateHeight then .ok (false, ctx, accounts)
  else do
    let updated ← (accounts.entries.toList.map Prod.snd).foldlM (visitAccount string) accounts
    .ok (true, { ctx with
      oracle := { ctx.oracle with
        params := { ctx.oracle.params with oracleRewardBand := .withPrec 2 2 } }
      market := { ctx.market with dailyLunaDeltaCap := .withPrec 1 3 } }, updated)

/-- The accounts when a block ends, and how addresses are printed. -/
structure AccountKeeper where
  string : Address → String
  accounts : Accounts

def AccountKeeper.empty : AccountKeeper := ⟨fun _ => "", noAccounts⟩

/-- The end blocker does the update. The tag that it appends is discarded. -/
def endBlocker {L : Type} (accountKeeper : AccountKeeper) (ctx : Context L) :
    Outcome (Tags × Context L × Accounts) := do
  let (_, ctx, accounts) ← update230000 accountKeeper.string ctx accountKeeper.accounts
  pure ([], ctx, accounts)

/-- The state with other values of the two parameters that the update sets. -/
def withParams {L : Type} (ctx : Context L) (oracleRewardBand dailyLunaDeltaCap : Dec) :
    Context L :=
  { ctx with
    oracle := { ctx.oracle with params := { ctx.oracle.params with oracleRewardBand } }
    market := { ctx.market with dailyLunaDeltaCap } }

/-- Of the modules, the update reaches no more than these. -/
theorem endBlocker_frame {L : Type} {accountKeeper : AccountKeeper} {ctx after : Context L}
    {tags : Tags} {accounts : Accounts}
    (done : endBlocker accountKeeper ctx = .ok (tags, after, accounts)) :
    ∃ oracleRewardBand dailyLunaDeltaCap,
      after = withParams ctx oracleRewardBand dailyLunaDeltaCap := by
  rcases Outcome.bind_eq_ok.mp done with ⟨⟨_, updatedCtx, _⟩, updated, done⟩
  cases done
  simp only [update230000] at updated
  split at updated
  · cases updated
    exact ⟨_, _, rfl⟩
  · rcases Outcome.bind_eq_ok.mp updated with ⟨_, -, updated⟩
    cases updated
    exact ⟨_, _, rfl⟩

end Update

end TerraCore
