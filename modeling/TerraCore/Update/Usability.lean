import TerraCore.Update.Migration
import TerraCore.Vesting.Run

/-!
# Accounts after the update

The schedules that the update writes vest more slowly than the cliffs they
replace. An account that has already spent what had vested may then hold less
than what is locked again, and its spendable coins cannot be computed: the
amount would be negative, which panics.

An account stays usable exactly when, in each denomination it holds, its coins
and its delegated vesting coins cover what the new tranches still lock at the
time of the update. These tranches are read off the account as it was.
-/

namespace TerraCore

namespace Update

open Vesting Ramp Transition

/-- The tranches of a preseed account. -/
def preseedRamps : List Tranche :=
  [⟨100000000000000000, 1558677600, 1561356000⟩, ⟨270000000000000000, 1561356000, 1587708000⟩,
    ⟨480000000000000000, 1587708000, 1600927200⟩, ⟨150000000000000000, 1600927200, 1603519200⟩]

/-- The tranches of a seed account. -/
def seedRamps : List Tranche :=
  [⟨100000000000000000, 1558677600, 1561356000⟩, ⟨300000000000000000, 1561356000, 1582524000⟩,
    ⟨600000000000000000, 1582524000, 1590300000⟩]

/-- The tranches of the one seed account that has a fifth part. -/
def apartRamps : List Tranche :=
  [⟨46700000000000000, 1558677600, 1561356000⟩, ⟨140100000000000000, 1561356000, 1582524000⟩,
    ⟨280200000000000000, 1582524000, 1590300000⟩, ⟨533000000000000000, 1603519200, 1606197600⟩]

/-- The tranches of a denomination after the update: fixed ones for the Luna of
a listed account, and cliffs spread over thirty days for all others. -/
def ramps (string : Address → String) (account : BaseGradedVestingAccount) (denom : Denom) :
    Option (List Tranche) :=
  if string account.address ∈ seedAddresses then
    if denom = microLunaDenom then
      if string account.address = "terra1y9n2ywyu5dahtxar6k4z4jz97ynt8km4catuk6" then
        some apartRamps
      else some seedRamps
    else none
  else if string account.address ∈ preseedAddresses then
    if denom = microLunaDenom then some preseedRamps else none
  else
    (account.getVestingSchedule denom).map fun vestingSchedule =>
      vestingSchedule.schedules.map fun schedule =>
        .spread schedule.ratio.raw schedule.cliff.toInt 2592000

/-- What these tranches still lock of the original vesting. -/
def stillLocked (string : Address → String) (account : BaseGradedVestingAccount)
    (blockTime : Int64) (denom : Denom) : ℤ :=
  account.originalVesting.amountOf denom -
    Rounding.roundHalfEven (account.originalVesting.amountOf denom *
      releasedUnits (ramps string account denom) blockTime) Dec.precision

section Account

variable {string : Address → String} {account : BaseGradedVestingAccount}
  {updated : BaseLazyGradedVestingAccount}

/-- A spread schedule is only valid when the cliff leaves room for thirty days. -/
theorem hasRoom_of_spread {schedule : Schedule}
    (valid : (spreadSchedule schedule).isValid = true) :
    schedule.isValid = true ∧ HasRoom schedule := by
  rcases LazySchedule.isValid_iff.mp valid with ⟨started, ordered, positive⟩
  simp only [spreadSchedule] at started ordered positive
  refine ⟨Schedule.isValid_iff.mpr ⟨started, positive⟩, ?_⟩
  have below := schedule.cliff.toInt_lt
  rw [Int64.toInt_add, toInt_secondsPerMonth] at ordered
  simp only [HasRoom, toInt_secondsPerMonth]
  by_contra noRoom
  have wrapped : (schedule.cliff.toInt + 2592000).bmod (2 ^ 64) =
      schedule.cliff.toInt + 2592000 - 2 ^ 64 := by
    rw [← Int.sub_bmod_right]
    apply Int.bmod_eq_of_le <;> omega
  omega

theorem ordinary_of_updateAccount (done : updateAccount string account = .ok updated)
    (notPreseed : string account.address ∉ preseedAddresses)
    (notSeed : string account.address ∉ seedAddresses) : Ordinary string account := by
  rcases updateAccount_eq_ok done with ⟨_, found, updatedValid⟩
  rw [lazySchedules_unlisted notPreseed notSeed] at found
  have spreadValid : ∀ vestingSchedule ∈ account.vestingSchedules,
      (spreadVestingSchedule vestingSchedule).isValid = true := by
    intro vestingSchedule scheduleMem
    apply updatedValid
    rw [← Except.ok.inj found]
    exact List.mem_map_of_mem scheduleMem
  have each : ∀ vestingSchedule ∈ account.vestingSchedules,
      ∀ schedule ∈ vestingSchedule.schedules, schedule.isValid = true ∧ HasRoom schedule := by
    intro vestingSchedule vestingMem schedule scheduleMem
    exact hasRoom_of_spread ((ratiosAddUp_iff.mp (spreadValid vestingSchedule vestingMem)).1 _
      (List.mem_map_of_mem scheduleMem))
  refine ⟨notPreseed, notSeed, ?_, ?_⟩
  · intro vestingSchedule vestingMem
    apply ratiosAddUp_iff.mpr
    refine ⟨fun schedule scheduleMem => (each vestingSchedule vestingMem schedule scheduleMem).1, ?_⟩
    have addUp := (ratiosAddUp_iff.mp (spreadValid vestingSchedule vestingMem)).2
    simp only [spreadVestingSchedule, List.map_map] at addUp
    exact addUp
  · intro vestingSchedule vestingMem schedule scheduleMem
    exact (each vestingSchedule vestingMem schedule scheduleMem).2

theorem Ordinary.tranches_eq (ordinary : Ordinary string account)
    (done : updateAccount string account = .ok updated) (denom : Denom) :
    updated.tranches denom = (account.getVestingSchedule denom).map fun vestingSchedule =>
      vestingSchedule.schedules.map fun schedule =>
        .spread schedule.ratio.raw schedule.cliff.toInt 2592000 := by
  simp only [BaseLazyGradedVestingAccount.tranches]
  rw [ordinary.getLazyVestingSchedule_eq done]
  cases found : account.getVestingSchedule denom with
  | none => rfl
  | some vestingSchedule =>
      have vestingMem := List.mem_of_find?_eq_some found
      have valid := ordinary.valid vestingSchedule vestingMem
      simp only [Option.map_some, spreadVestingSchedule, List.map_map]
      apply congrArg
      apply List.map_congr_left
      intro schedule scheduleMem
      rw [← toInt_secondsPerMonth]
      exact tranche_spreadSchedule ((ratiosAddUp_iff.mp valid).1 schedule scheduleMem)
        (ordinary.hasRoom vestingSchedule vestingMem schedule scheduleMem)

/-- The tranches of an account with one schedule. -/
theorem tranches_of_single {schedule : LazyVestingSchedule}
    (single : updated.lazyVestingSchedules = [schedule]) (denom : Denom) :
    updated.tranches denom =
      if denom = schedule.denom then some (schedule.lazySchedules.map LazySchedule.tranche)
      else none := by
  simp only [BaseLazyGradedVestingAccount.tranches,
    BaseLazyGradedVestingAccount.getLazyVestingSchedule, single, List.find?_singleton]
  by_cases same : schedule.denom = denom
  · simp [same]
  · simp [same, Ne.symm same]

theorem updateSeedSchedules_eq_ok {schedules : List LazyVestingSchedule}
    (checked : updateSeedSchedules string account = .ok schedules) :
    ∃ schedule, schedules = [schedule] ∧ schedule.denom = microLunaDenom ∧
      schedule.lazySchedules.map LazySchedule.tranche =
        if string account.address = "terra1y9n2ywyu5dahtxar6k4z4jz97ynt8km4catuk6" then apartRamps
        else seedRamps := by
  simp only [updateSeedSchedules] at checked
  by_cases apart : string account.address = "terra1y9n2ywyu5dahtxar6k4z4jz97ynt8km4catuk6"
  · simp only [apart, decide_true, if_true] at checked
    split at checked
    · cases checked
      refine ⟨_, rfl, rfl, ?_⟩
      rw [if_pos apart]
      decide +kernel
    · cases checked
  · simp only [apart, decide_false, Bool.false_eq_true, if_false] at checked
    split at checked
    · cases checked
      refine ⟨_, rfl, rfl, ?_⟩
      rw [if_neg apart]
      decide +kernel
    · cases checked

theorem updatePreseedSchedules_eq_ok {schedules : List LazyVestingSchedule}
    (checked : updatePreseedSchedules account = .ok schedules) :
    ∃ schedule, schedules = [schedule] ∧ schedule.denom = microLunaDenom ∧
      schedule.lazySchedules.map LazySchedule.tranche = preseedRamps := by
  simp only [updatePreseedSchedules] at checked
  split at checked
  · cases checked
    refine ⟨_, rfl, rfl, ?_⟩
    decide +kernel
  · cases checked

/-- The schedules of a listed account come from the list it is on. -/
theorem lazySchedules_listed {schedules : List LazyVestingSchedule}
    (found : lazySchedules string account = .ok schedules) :
    (string account.address ∈ seedAddresses → updateSeedSchedules string account = .ok schedules) ∧
      (string account.address ∉ seedAddresses → string account.address ∈ preseedAddresses →
        updatePreseedSchedules account = .ok schedules) := by
  rcases Outcome.bind_eq_ok.mp found with ⟨preseed, preseedOk, rest⟩
  rcases Outcome.bind_eq_ok.mp rest with ⟨seed, seedOk, chosen⟩
  constructor
  · intro isSeed
    simp only [seedSchedules] at seedOk
    rw [if_pos (by simpa using isSeed)] at seedOk
    cases computed : updateSeedSchedules string account with
    | error failure =>
        rw [computed] at seedOk
        cases seedOk
    | ok computedSchedules =>
        rw [computed] at seedOk
        cases seedOk
        exact chosen
  · intro notSeed isPreseed
    simp only [seedSchedules] at seedOk
    simp only [preseedSchedules] at preseedOk
    rw [if_neg (by simpa using notSeed)] at seedOk
    rw [if_pos (by simpa using isPreseed)] at preseedOk
    cases seedOk
    cases computed : updatePreseedSchedules account with
    | error failure =>
        rw [computed] at preseedOk
        cases preseedOk
    | ok computedSchedules =>
        rw [computed] at preseedOk
        cases preseedOk
        exact chosen

theorem tranches_updateAccount (done : updateAccount string account = .ok updated)
    (denom : Denom) : updated.tranches denom = ramps string account denom := by
  have found := (updateAccount_eq_ok done).2.1
  simp only [ramps]
  split
  · next isSeed =>
      rcases updateSeedSchedules_eq_ok ((lazySchedules_listed found).1 isSeed) with
        ⟨schedule, single, denomEq, tranchesEq⟩
      rw [tranches_of_single single, denomEq, tranchesEq]
      split
      · split <;> rfl
      · rfl
  · next notSeed =>
      split
      · next isPreseed =>
          rcases updatePreseedSchedules_eq_ok ((lazySchedules_listed found).2 notSeed isPreseed)
            with ⟨schedule, single, denomEq, tranchesEq⟩
          rw [tranches_of_single single, denomEq, tranchesEq]
      · next notPreseed =>
          exact (ordinary_of_updateAccount done notPreseed notSeed).tranches_eq done denom

end Account

/-- A written account can compute its spendable coins from the update on. -/
def Usable (account : BaseLazyGradedVestingAccount) (upgradeTime : Int64) : Prop :=
  ∀ blockTime, upgradeTime ≤ blockTime → ∃ spendable, account.spendableCoins blockTime = .ok spendable

theorem usable_iff {string : Address → String} {account : BaseGradedVestingAccount}
    {updated : BaseLazyGradedVestingAccount}
    (done : updateAccount string account = .ok updated) (upgradeTime : Int64) :
    Usable updated upgradeTime ↔
      ∀ coin ∈ account.coins.toList, stillLocked string account upgradeTime coin.denom ≤
        coin.amount + account.delegatedVesting.amountOf coin.denom := by
  rcases updateAccount_eq_ok done with ⟨kept, _, updatedValid⟩
  have coinsEq : updated.coins = account.coins := by rw [kept]
  have valid : (VestingAccount.lazyGraded updated).SchedulesValid := updatedValid
  have lockedEq : ∀ blockTime denom, (VestingAccount.lazyGraded updated).locked blockTime denom =
      stillLocked string account blockTime denom := by
    intro blockTime denom
    simp only [VestingAccount.locked, VestingAccount.tranches, stillLocked,
      tranches_updateAccount done, VestingAccount.base, kept]
  have coveredIff : ∀ coin ∈ account.coins.toList, ∀ amount : ℤ,
      (updated.balances coin.denom).Covered amount ↔
        amount ≤ coin.amount + account.delegatedVesting.amountOf coin.denom := by
    intro coin coinMem amount
    have held : account.coins.amountOf coin.denom = coin.amount :=
      Coins.amountOf_of_mem account.coins.proper coinMem
    simp only [Lockup.Balances.Covered, BaseVestingAccount.balances, kept, held]
  have isOkIff : ∀ blockTime, (∃ spendable, updated.spendableCoins blockTime = .ok spendable) ↔
      ∀ coin ∈ account.coins.toList, stillLocked string account blockTime coin.denom ≤
        coin.amount + account.delegatedVesting.amountOf coin.denom := by
    intro blockTime
    refine (@VestingAccount.SchedulesValid.spendableCoins_isOk_iff _ blockTime valid).trans ?_
    simp only [VestingAccount.base, lockedEq]
    rw [coinsEq]
    exact forall₂_congr fun coin coinMem => coveredIff coin coinMem _
  constructor
  · intro usable
    exact (isOkIff upgradeTime).mp (usable upgradeTime (Int64.le_refl upgradeTime))
  · intro covered blockTime later
    refine (isOkIff blockTime).mpr fun coin coinMem => le_trans ?_ (covered coin coinMem)
    rw [← lockedEq, ← lockedEq]
    exact valid.locked_antitone later coin.denom

/-- The account that the update writes for a graded account is usable from then
on exactly when the account, as it was, covers what the new tranches lock. -/
theorem written_account_usable_iff {L : Type} {string : Address → String} {ctx after : Context L}
    (atHeight : ctx.height = updateHeight) {accounts updated : Accounts} {flag : Bool}
    (done : update230000 string ctx accounts = .ok (flag, after, updated)) {address : Address}
    {account : BaseGradedVestingAccount}
    (present : accounts.entries[address]? = some (.graded account)) (upgradeTime : Int64) :
    ∃ written, updated.entries[address]? = some (.lazyGraded written) ∧
      (Usable written upgradeTime ↔
        ∀ coin ∈ account.coins.toList, stillLocked string account upgradeTime coin.denom ≤
          coin.amount + account.delegatedVesting.amountOf coin.denom) := by
  rcases (update230000_eq_ok atHeight done).1 address _ present with ⟨replaced, replacedOk, stored⟩
  rcases Outcome.bind_eq_ok.mp replacedOk with ⟨written, updateOk, rest⟩
  cases rest
  exact ⟨written, stored, usable_iff updateOk upgradeTime⟩

/-- An account of a hundred million `uluna` with a single cliff. -/
def sampleCliff : BaseGradedVestingAccount :=
  newBaseGradedVestingAccount
    ⟨List.replicate 20 1, none, ⟨[⟨microLunaDenom, 100000000⟩], Vesting.hundredLuna_isValid⟩, 7, 0⟩
    [⟨microLunaDenom, [⟨1569000000, .one⟩]⟩]

/-- The same account after it has spent most of what vested at the cliff. -/
def sampleSpender : BaseGradedVestingAccount :=
  { sampleCliff with coins := ⟨[⟨microLunaDenom, 1000000⟩], by decide⟩ }

/-- The update of a chain with a single graded account. -/
theorem update230000_single {string : Address → String} {account : BaseGradedVestingAccount}
    {written : BaseLazyGradedVestingAccount}
    (updateOk : updateAccount string account = .ok written) :
    ∃ after updated,
      update230000 string sampleChain (noAccounts.setAccount (.graded account)) =
        .ok (true, after, updated) ∧
      (noAccounts.setAccount (.graded account)).entries[account.address]? =
        some (.graded account) ∧
      updated.entries[account.address]? = some (.lazyGraded written) := by
  have replacedOk : replacement string (.graded account) = .ok (.lazyGraded written) := by
    simp only [replacement, updateOk, bind, Except.bind]
  have present : (noAccounts.setAccount (.graded account)).entries[account.address]? =
      some (.graded account) := by
    simp [Accounts.setAccount, Account.address]
  have replaceable : ∀ (address : Address) found,
      (noAccounts.setAccount (.graded account)).entries[address]? = some found →
        ∃ replaced, replacement string found = .ok replaced := by
    intro address found isFound
    rw [eq_of_single isFound]
    exact ⟨_, replacedOk⟩
  have atHeight : sampleChain.height = updateHeight := rfl
  rcases update230000_isOk atHeight replaceable with ⟨after, updated, done⟩
  rcases (update230000_eq_ok atHeight done).1 _ _ present with ⟨replaced, found, stored⟩
  have replacedEq := Except.ok.inj (found.symm.trans replacedOk)
  exact ⟨after, updated, done, present, replacedEq ▸ stored⟩

/-- What the update makes of the account that has spent. -/
def sampleWritten : BaseLazyGradedVestingAccount :=
  ⟨sampleSpender.toBaseVestingAccount,
    [⟨microLunaDenom, [⟨1569000000, 1571592000, .one⟩]⟩]⟩

theorem updateAccount_sampleSpender :
    updateAccount sampleString sampleSpender = .ok sampleWritten := by
  decide +kernel

theorem written_account_usable_iff_sample :
    ∃ after updated written,
      update230000 sampleString sampleChain (noAccounts.setAccount (.graded sampleSpender)) =
        .ok (true, after, updated) ∧
      updated.entries[sampleSpender.address]? = some (.lazyGraded written) ∧
      ¬ Usable written 1569000000 ∧ Usable written 1571592000 := by
  rcases update230000_single updateAccount_sampleSpender with
    ⟨after, updated, done, present, stored⟩
  have atHeight : sampleChain.height = updateHeight := rfl
  rcases written_account_usable_iff atHeight done present 1569000000 with
    ⟨written, writtenStored, early⟩
  rcases written_account_usable_iff atHeight done present 1571592000 with
    ⟨other, otherStored, late⟩
  have writtenEq : written = sampleWritten := by
    simpa using writtenStored.symm.trans stored
  have otherEq : other = sampleWritten := by
    simpa using otherStored.symm.trans stored
  subst writtenEq otherEq
  refine ⟨after, updated, sampleWritten, done, stored, ?_, ?_⟩
  · intro usable
    exact absurd (early.mp usable) (by decide +kernel)
  · exact late.mpr (by decide +kernel)

/-- The account was covered by the schedule it had, yet what the update makes of
it cannot compute its spendable coins. -/
theorem spender_is_not_usable :
    ∃ after updated written,
      Reaches (step trackUndelegation) ⟨0, .graded sampleCliff⟩
        [(1569000000, .spend ⟨[⟨microLunaDenom, 99000000⟩], by decide⟩)]
        ⟨1569000000, .graded sampleSpender⟩ ∧
      (∃ vesting, sampleSpender.getVestingCoins 1569000000 = .ok vesting ∧
        ∀ denom, amountOf vesting denom ≤ sampleSpender.coins.amountOf denom +
          sampleSpender.delegatedVesting.amountOf denom) ∧
      update230000 sampleString sampleChain (noAccounts.setAccount (.graded sampleSpender)) =
        .ok (true, after, updated) ∧
      updated.entries[sampleSpender.address]? = some (.lazyGraded written) ∧
      written.spendableCoins 1569000000 = .error (.panic .negativeCoinAmount) := by
  rcases update230000_single updateAccount_sampleSpender with
    ⟨after, updated, done, _, stored⟩
  have nothingVesting : sampleSpender.getVestingCoins 1569000000 = .ok [] := by decide +kernel
  refine ⟨after, updated, sampleWritten, .single (by decide +kernel), ⟨[], nothingVesting, ?_⟩, done,
    stored, by decide +kernel⟩
  intro denom
  rw [amountOf_nil]
  exact add_nonneg (sampleSpender.coins.amountOf_nonneg denom)
    (sampleSpender.delegatedVesting.amountOf_nonneg denom)

end Update

end TerraCore
