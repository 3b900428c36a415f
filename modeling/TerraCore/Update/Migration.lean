import TerraCore.Genesis
import TerraCore.Update.Plan

/-!
# What the update does to the accounts

The update replaces every graded account by a lazy one under the same address
and leaves all other accounts alone. An account outside the preseed and seed
lists keeps everything but its schedules, and each cliff is spread over thirty
days: at any time no more has vested than before, and at least what had vested
thirty days earlier.
-/

namespace TerraCore

namespace Update

open Vesting Ramp

theorem toInt_secondsPerMonth : secondsPerMonth.toInt = 2592000 := by
  decide

/-- The cliff leaves room for thirty days. -/
def HasRoom (schedule : Schedule) : Prop :=
  schedule.cliff.toInt ≤ 2 ^ 63 - 1 - secondsPerMonth.toInt

theorem toInt_endTime {schedule : Schedule} (valid : schedule.isValid = true)
    (hasRoom : HasRoom schedule) :
    (schedule.cliff + secondsPerMonth).toInt = schedule.cliff.toInt + secondsPerMonth.toInt := by
  have started := (Schedule.isValid_iff.mp valid).1
  simp only [HasRoom, toInt_secondsPerMonth] at hasRoom
  rw [Int64.toInt_add, toInt_secondsPerMonth]
  apply Int.bmod_eq_of_le <;> omega

theorem spreadSchedule_isValid {schedule : Schedule} (valid : schedule.isValid = true)
    (hasRoom : HasRoom schedule) : (spreadSchedule schedule).isValid = true := by
  rcases Schedule.isValid_iff.mp valid with ⟨started, positive⟩
  rw [LazySchedule.isValid_iff]
  refine ⟨started, ?_, positive⟩
  simp only [spreadSchedule]
  rw [toInt_endTime valid hasRoom, toInt_secondsPerMonth]
  omega

theorem spreadVestingSchedule_isValid {vestingSchedule : VestingSchedule}
    (valid : vestingSchedule.isValid = true)
    (hasRoom : ∀ schedule ∈ vestingSchedule.schedules, HasRoom schedule) :
    (spreadVestingSchedule vestingSchedule).isValid = true := by
  rcases ratiosAddUp_iff.mp valid with ⟨each, addUp⟩
  apply ratiosAddUp_iff.mpr
  refine ⟨?_, ?_⟩
  · intro schedule scheduleMem
    rcases List.mem_map.mp scheduleMem with ⟨original, originalMem, rfl⟩
    exact spreadSchedule_isValid (each original originalMem) (hasRoom original originalMem)
  · simp only [spreadVestingSchedule, List.map_map]
    exact addUp

theorem tranche_spreadSchedule {schedule : Schedule} (valid : schedule.isValid = true)
    (hasRoom : HasRoom schedule) :
    (spreadSchedule schedule).tranche =
      .spread schedule.ratio.raw schedule.cliff.toInt secondsPerMonth.toInt := by
  simp only [LazySchedule.tranche, spreadSchedule, Tranche.spread]
  rw [toInt_endTime valid hasRoom]

theorem getVestedRatio_spread_raw {vestingSchedule : VestingSchedule}
    (valid : vestingSchedule.isValid = true)
    (hasRoom : ∀ schedule ∈ vestingSchedule.schedules, HasRoom schedule) (blockTime : Int64) :
    ((spreadVestingSchedule vestingSchedule).getVestedRatio blockTime).raw =
      (vestingSchedule.schedules.map fun schedule => (Tranche.spread schedule.ratio.raw
        schedule.cliff.toInt secondsPerMonth.toInt).released blockTime.toInt).sum := by
  have each := (ratiosAddUp_iff.mp valid).1
  rw [LazyVestingSchedule.getVestedRatio_raw (spreadVestingSchedule_isValid valid hasRoom)]
  simp only [Ramp.released, spreadVestingSchedule, List.map_map]
  apply congrArg
  apply List.map_congr_left
  intro schedule scheduleMem
  simp only [Function.comp_apply]
  rw [tranche_spreadSchedule (each schedule scheduleMem) (hasRoom schedule scheduleMem)]

theorem secondsPerMonth_nonneg : 0 ≤ secondsPerMonth.toInt := by
  decide

theorem getVestedRatio_spread_le {vestingSchedule : VestingSchedule}
    (valid : vestingSchedule.isValid = true)
    (hasRoom : ∀ schedule ∈ vestingSchedule.schedules, HasRoom schedule) (blockTime : Int64) :
    ((spreadVestingSchedule vestingSchedule).getVestedRatio blockTime).raw ≤
      (vestingSchedule.getVestedRatio blockTime).raw := by
  rw [getVestedRatio_spread_raw valid hasRoom, vestingSchedule.getVestedRatio_raw]
  simp only [Ramp.released, List.map_map]
  apply List.sum_le_sum
  intro schedule scheduleMem
  exact Tranche.released_spread_le (VestingSchedule.ratio_nonneg valid scheduleMem)
    secondsPerMonth_nonneg blockTime.toInt

theorem le_getVestedRatio_spread {vestingSchedule : VestingSchedule}
    (valid : vestingSchedule.isValid = true)
    (hasRoom : ∀ schedule ∈ vestingSchedule.schedules, HasRoom schedule)
    {earlier blockTime : Int64}
    (delayed : earlier.toInt + secondsPerMonth.toInt ≤ blockTime.toInt) :
    (vestingSchedule.getVestedRatio earlier).raw ≤
      ((spreadVestingSchedule vestingSchedule).getVestedRatio blockTime).raw := by
  rw [getVestedRatio_spread_raw valid hasRoom, vestingSchedule.getVestedRatio_raw]
  simp only [Ramp.released, List.map_map]
  apply List.sum_le_sum
  intro schedule scheduleMem
  exact Tranche.le_released_spread (VestingSchedule.ratio_nonneg valid scheduleMem)
    secondsPerMonth_nonneg delayed

/-- A graded account outside the two lists, with valid schedules whose cliffs
leave room for thirty days. -/
structure Ordinary (string : Address → String) (account : BaseGradedVestingAccount) : Prop where
  notPreseed : string account.address ∉ preseedAddresses
  notSeed : string account.address ∉ seedAddresses
  valid : account.SchedulesValid
  hasRoom : ∀ vestingSchedule ∈ account.vestingSchedules,
    ∀ schedule ∈ vestingSchedule.schedules, HasRoom schedule

/-- `after` keeps everything of `before` but its schedules and only spreads
what vests. -/
structure Spreads (before : BaseGradedVestingAccount) (after : BaseLazyGradedVestingAccount) :
    Prop where
  address : after.address = before.address
  pubKey : after.pubKey = before.pubKey
  coins : after.coins = before.coins
  accountNumber : after.accountNumber = before.accountNumber
  sequence : after.sequence = before.sequence
  originalVesting : after.originalVesting = before.originalVesting
  delegatedFree : after.delegatedFree = before.delegatedFree
  delegatedVesting : after.delegatedVesting = before.delegatedVesting
  valid : ∀ schedule ∈ after.lazyVestingSchedules, schedule.isValid = true
  vested : ∀ blockTime : Int64, ∃ vestedBefore vestedAfter,
    before.getVestedCoins blockTime = .ok vestedBefore ∧
      after.getVestedCoins blockTime = .ok vestedAfter ∧
      (∀ denom, amountOf vestedAfter denom ≤ amountOf vestedBefore denom) ∧
      ∀ earlier : Int64, earlier.toInt = blockTime.toInt - secondsPerMonth.toInt →
        ∃ vestedEarlier, before.getVestedCoins earlier = .ok vestedEarlier ∧
          ∀ denom, amountOf vestedEarlier denom ≤ amountOf vestedAfter denom

section Account

variable {string : Address → String} {account : BaseGradedVestingAccount}
  {updated : BaseLazyGradedVestingAccount}

theorem updateAccount_eq_ok (done : updateAccount string account = .ok updated) :
    updated.toBaseVestingAccount = { account.toBaseVestingAccount with endTime := 0 } ∧
      lazySchedules string account = .ok updated.lazyVestingSchedules ∧
      updated.SchedulesValid := by
  rcases Outcome.bind_eq_ok.mp done with ⟨schedules, found, rest⟩
  split at rest
  · next allValid =>
      cases rest
      refine ⟨by rw [Coins.sort_eq], found, ?_⟩
      intro schedule scheduleMem
      exact List.all_eq_true.mp allValid schedule scheduleMem
  · cases rest

theorem lazySchedules_unlisted (notPreseed : string account.address ∉ preseedAddresses)
    (notSeed : string account.address ∉ seedAddresses) :
    lazySchedules string account = .ok (account.vestingSchedules.map spreadVestingSchedule) := by
  have preseedFalse : preseedAddresses.contains (string account.address) = false := by
    simpa using notPreseed
  have seedFalse : seedAddresses.contains (string account.address) = false := by
    simpa using notSeed
  simp only [lazySchedules, preseedSchedules, seedSchedules, preseedFalse, seedFalse]
  rfl

theorem Ordinary.lazySchedules_eq (ordinary : Ordinary string account) :
    lazySchedules string account = .ok (account.vestingSchedules.map spreadVestingSchedule) :=
  lazySchedules_unlisted ordinary.notPreseed ordinary.notSeed

theorem Ordinary.updateAccount_isOk (ordinary : Ordinary string account) :
    ∃ updated, updateAccount string account = .ok updated := by
  have allValid : (account.vestingSchedules.map spreadVestingSchedule).all
      LazyVestingSchedule.isValid = true := by
    rw [List.all_eq_true]
    intro schedule scheduleMem
    rcases List.mem_map.mp scheduleMem with ⟨original, originalMem, rfl⟩
    exact spreadVestingSchedule_isValid (ordinary.valid original originalMem)
      (ordinary.hasRoom original originalMem)
  simp only [updateAccount, ordinary.lazySchedules_eq, bind, Except.bind]
  rw [if_pos allValid]
  exact ⟨_, rfl⟩

/-- The schedule of a denomination is the spread schedule it had. -/
theorem Ordinary.getLazyVestingSchedule_eq (ordinary : Ordinary string account)
    (done : updateAccount string account = .ok updated) (denom : Denom) :
    updated.getLazyVestingSchedule denom =
      (account.getVestingSchedule denom).map spreadVestingSchedule := by
  have found := (updateAccount_eq_ok done).2.1
  rw [ordinary.lazySchedules_eq] at found
  have schedulesEq := Except.ok.inj found
  simp only [BaseLazyGradedVestingAccount.getLazyVestingSchedule, ← schedulesEq]
  rw [List.find?_map]
  rfl

theorem Ordinary.vestedUnits_le (ordinary : Ordinary string account)
    (done : updateAccount string account = .ok updated) (blockTime : Int64) (denom : Denom) :
    vestedUnits (updated.vestedRatio blockTime denom) ≤
      vestedUnits (account.vestedRatio blockTime denom) := by
  simp only [BaseLazyGradedVestingAccount.vestedRatio, BaseGradedVestingAccount.vestedRatio]
  rw [ordinary.getLazyVestingSchedule_eq done]
  cases found : account.getVestingSchedule denom with
  | none => exact le_rfl
  | some vestingSchedule =>
      have scheduleMem := List.mem_of_find?_eq_some found
      exact getVestedRatio_spread_le (ordinary.valid vestingSchedule scheduleMem)
        (ordinary.hasRoom vestingSchedule scheduleMem) blockTime

theorem Ordinary.le_vestedUnits (ordinary : Ordinary string account)
    (done : updateAccount string account = .ok updated) {earlier blockTime : Int64}
    (delayed : earlier.toInt + secondsPerMonth.toInt ≤ blockTime.toInt) (denom : Denom) :
    vestedUnits (account.vestedRatio earlier denom) ≤
      vestedUnits (updated.vestedRatio blockTime denom) := by
  simp only [BaseLazyGradedVestingAccount.vestedRatio, BaseGradedVestingAccount.vestedRatio]
  rw [ordinary.getLazyVestingSchedule_eq done]
  cases found : account.getVestingSchedule denom with
  | none => exact le_rfl
  | some vestingSchedule =>
      have scheduleMem := List.mem_of_find?_eq_some found
      exact le_getVestedRatio_spread (ordinary.valid vestingSchedule scheduleMem)
        (ordinary.hasRoom vestingSchedule scheduleMem) delayed

theorem Ordinary.spreads (ordinary : Ordinary string account)
    (done : updateAccount string account = .ok updated) : Spreads account updated := by
  rcases updateAccount_eq_ok done with ⟨kept, _, updatedValid⟩
  have sameTerms : updated.originalVesting = account.originalVesting := by rw [kept]
  have termsNonneg := account.originalVesting.amountOf_nonneg
  refine ⟨by rw [kept], by rw [kept], by rw [kept], by rw [kept], by rw [kept], sameTerms,
    by rw [kept], by rw [kept], updatedValid, ?_⟩
  intro blockTime
  rcases ordinary.valid.getVestedCoins_spec blockTime with ⟨vestedBefore, beforeOk, beforeAmounts⟩
  rcases updatedValid.getVestedCoins_spec blockTime with ⟨vestedAfter, afterOk, afterAmounts⟩
  refine ⟨vestedBefore, vestedAfter, beforeOk, afterOk, ?_, ?_⟩
  · intro denom
    rw [beforeAmounts, afterAmounts, sameTerms]
    exact vestedAmount_mono (termsNonneg denom) (ordinary.vestedUnits_le done blockTime denom)
  · intro earlier earlierEq
    rcases ordinary.valid.getVestedCoins_spec earlier with
      ⟨vestedEarlier, earlierOk, earlierAmounts⟩
    refine ⟨vestedEarlier, earlierOk, ?_⟩
    intro denom
    rw [earlierAmounts, afterAmounts, sameTerms]
    exact vestedAmount_mono (termsNonneg denom)
      (ordinary.le_vestedUnits done (by omega) denom)

end Account

/-- The account that the update leaves in the place of another one. -/
def replacement (string : Address → String) : Account → Outcome Account
  | .graded account => do .ok (.lazyGraded (← updateAccount string account))
  | account => .ok account

section Iteration

variable {string : Address → String}

theorem replacement_address {account replaced : Account}
    (done : replacement string account = .ok replaced) : replaced.address = account.address := by
  cases account with
  | graded account =>
      rcases Outcome.bind_eq_ok.mp done with ⟨updated, updateOk, rest⟩
      cases rest
      simp only [Account.address]
      rw [(updateAccount_eq_ok updateOk).1]
  | base _ => cases done; rfl
  | continuous _ _ => cases done; rfl
  | delayed _ => cases done; rfl
  | lazyGraded _ => cases done; rfl

/-- A visit puts the replacement of the account in its place. -/
theorem visitAccount_spec {accounts : Accounts} {account replaced : Account}
    (present : accounts.entries[account.address]? = some account)
    (done : replacement string account = .ok replaced) :
    ∃ after, visitAccount string accounts account = .ok after ∧
      ∀ address : Address, after.entries[address]? =
        if account.address = address then some replaced else accounts.entries[address]? := by
  have sameAddress := replacement_address done
  have unchanged : replaced = account → ∀ address : Address, accounts.entries[address]? =
      if account.address = address then some replaced else accounts.entries[address]? := by
    rintro rfl address
    split
    · next here => rw [← here, present]
    · rfl
  cases account with
  | graded account =>
      rcases Outcome.bind_eq_ok.mp done with ⟨updated, updateOk, rest⟩
      cases rest
      refine ⟨accounts.setAccount (.lazyGraded updated), ?_, ?_⟩
      · simp only [visitAccount, updateOk, bind, Except.bind]
      · intro address
        simp only [Accounts.setAccount]
        rw [Store.get_insert, sameAddress]
  | base _ => cases done; exact ⟨accounts, rfl, unchanged rfl⟩
  | continuous _ _ => cases done; exact ⟨accounts, rfl, unchanged rfl⟩
  | delayed _ => cases done; exact ⟨accounts, rfl, unchanged rfl⟩
  | lazyGraded _ => cases done; exact ⟨accounts, rfl, unchanged rfl⟩

theorem replacement_of_visitAccount {accounts after : Accounts} {account : Account}
    (visited : visitAccount string accounts account = .ok after) :
    ∃ replaced, replacement string account = .ok replaced := by
  cases account with
  | graded account =>
      rcases Outcome.bind_eq_ok.mp visited with ⟨updated, updateOk, _⟩
      exact ⟨.lazyGraded updated, by simp only [replacement, updateOk, bind, Except.bind]⟩
  | base _ => exact ⟨_, rfl⟩
  | continuous _ _ => exact ⟨_, rfl⟩
  | delayed _ => exact ⟨_, rfl⟩
  | lazyGraded _ => exact ⟨_, rfl⟩

/-- The iteration finishes when every account has a replacement. Each account
that is visited is then replaced, and no other address is touched. -/
theorem visitAccount_foldlM {visited : List Account}
    (distinct : (visited.map Account.address).Nodup) {accounts : Accounts}
    (present : ∀ account ∈ visited, accounts.entries[account.address]? = some account)
    (replaceable : ∀ account ∈ visited, ∃ replaced, replacement string account = .ok replaced) :
    ∃ after, visited.foldlM (visitAccount string) accounts = .ok after ∧
      (∀ account ∈ visited, ∀ replaced, replacement string account = .ok replaced →
        after.entries[account.address]? = some replaced) ∧
      ∀ address, address ∉ visited.map Account.address →
        after.entries[address]? = accounts.entries[address]? := by
  induction visited generalizing accounts with
  | nil => exact ⟨accounts, rfl, by simp, fun _ _ => rfl⟩
  | cons head tail ih =>
      rw [List.map_cons, List.nodup_cons] at distinct
      rcases replaceable head List.mem_cons_self with ⟨headReplaced, headDone⟩
      rcases visitAccount_spec (present head List.mem_cons_self) headDone with
        ⟨next, nextOk, nextEntries⟩
      have tailPresent : ∀ account ∈ tail, next.entries[account.address]? = some account := by
        intro account accountMem
        have different : head.address ≠ account.address := by
          intro same
          exact distinct.1 (same ▸ List.mem_map_of_mem accountMem)
        rw [nextEntries, if_neg different]
        exact present account (List.mem_cons_of_mem _ accountMem)
      rcases ih distinct.2 tailPresent
        (fun account accountMem => replaceable account (List.mem_cons_of_mem _ accountMem)) with
        ⟨after, afterOk, replacedAll, untouched⟩
      refine ⟨after, ?_, ?_, ?_⟩
      · simp only [List.foldlM_cons, nextOk, bind, Except.bind]
        exact afterOk
      · intro account accountMem replaced done
        rcases List.mem_cons.mp accountMem with rfl | inTail
        · rw [untouched _ distinct.1, nextEntries, if_pos rfl]
          exact congrArg some (Except.ok.inj (headDone.symm.trans done))
        · exact replacedAll account inTail replaced done
      · intro address notVisited
        rw [List.map_cons, List.mem_cons, not_or] at notVisited
        rw [untouched address notVisited.2, nextEntries, if_neg (Ne.symm notVisited.1)]

theorem replaceable_of_foldlM {visited : List Account} {accounts after : Accounts}
    (folded : visited.foldlM (visitAccount string) accounts = .ok after) :
    ∀ account ∈ visited, ∃ replaced, replacement string account = .ok replaced := by
  induction visited generalizing accounts with
  | nil => simp
  | cons head tail ih =>
      rw [List.foldlM_cons] at folded
      rcases Outcome.bind_eq_ok.mp folded with ⟨next, nextOk, rest⟩
      intro account accountMem
      rcases List.mem_cons.mp accountMem with rfl | inTail
      · exact replacement_of_visitAccount nextOk
      · exact ih rest account inTail

theorem Accounts.addresses_nodup (accounts : Accounts) :
    ((accounts.entries.toList.map Prod.snd).map Account.address).Nodup := by
  have addressesEq : (accounts.entries.toList.map Prod.snd).map Account.address =
      accounts.entries.toList.map Prod.fst := by
    rw [List.map_map]
    apply List.map_congr_left
    intro entry entryMem
    exact accounts.keyed entry.1 entry.2 ((Store.mem_toList_iff _ _).mp entryMem)
  rw [addressesEq, Std.ExtTreeMap.map_fst_toList_eq_keys]
  exact Store.nodup_keys accounts.entries

theorem Accounts.mem_iff (accounts : Accounts) (account : Account) :
    account ∈ accounts.entries.toList.map Prod.snd ↔
      accounts.entries[account.address]? = some account := by
  rw [List.mem_map]
  constructor
  · rintro ⟨entry, entryMem, rfl⟩
    have present := (Store.mem_toList_iff _ _).mp entryMem
    rw [accounts.keyed entry.1 entry.2 present]
    exact present
  · intro present
    exact ⟨(account.address, account), (Store.mem_toList_iff _ _).mpr present, rfl⟩

theorem update230000_isOk {L : Type} {ctx : Context L} (atHeight : ctx.height = updateHeight)
    {accounts : Accounts}
    (replaceable : ∀ (address : Address) account, accounts.entries[address]? = some account →
      ∃ replaced, replacement string account = .ok replaced) :
    ∃ after updated, update230000 string ctx accounts = .ok (true, after, updated) := by
  rcases visitAccount_foldlM accounts.addresses_nodup
    (fun account accountMem => (accounts.mem_iff account).mp accountMem)
    (fun account accountMem => replaceable account.address account
      ((accounts.mem_iff account).mp accountMem)) with ⟨updated, folded, _⟩
  simp only [update230000, folded, bind, Except.bind]
  rw [if_neg (not_not.mpr atHeight)]
  exact ⟨_, _, rfl⟩

/-- Under each address, the update leaves the replacement of the account that was there. -/
theorem update230000_eq_ok {L : Type} {ctx after : Context L}
    (atHeight : ctx.height = updateHeight) {accounts updated : Accounts} {flag : Bool}
    (done : update230000 string ctx accounts = .ok (flag, after, updated)) :
    (∀ (address : Address) account, accounts.entries[address]? = some account →
      ∃ replaced, replacement string account = .ok replaced ∧
        updated.entries[address]? = some replaced) ∧
    ∀ address : Address, accounts.entries[address]? = none → updated.entries[address]? = none := by
  simp only [update230000] at done
  rw [if_neg (not_not.mpr atHeight)] at done
  rcases Outcome.bind_eq_ok.mp done with ⟨visited, folded, rest⟩
  cases rest
  have replaceable := replaceable_of_foldlM folded
  rcases visitAccount_foldlM accounts.addresses_nodup
    (fun account accountMem => (accounts.mem_iff account).mp accountMem) replaceable with
    ⟨result, resultOk, replacedAll, untouched⟩
  have resultEq : result = updated := Except.ok.inj (resultOk.symm.trans folded)
  subst resultEq
  constructor
  · intro address account present
    have addressEq := accounts.keyed address account present
    subst addressEq
    have accountMem := (accounts.mem_iff account).mpr present
    rcases replaceable account accountMem with ⟨replaced, replacedOk⟩
    exact ⟨replaced, replacedOk, replacedAll account accountMem replaced replacedOk⟩
  · intro address absent
    rw [untouched, absent]
    intro addressMem
    rcases List.mem_map.mp addressMem with ⟨account, accountMem, rfl⟩
    rw [(accounts.mem_iff account).mp accountMem] at absent
    cases absent

/-- The update leaves every account that is not graded alone. An account
outside the two lists whose schedules are valid keeps all but its schedules,
gets valid ones, and vests no more than before and at most thirty days later. -/
theorem update_only_spreads {L : Type} (string : Address → String) {ctx : Context L}
    (atHeight : ctx.height = updateHeight) (accounts : Accounts) :
    ((∀ (address : Address) account, accounts.entries[address]? = some (.graded account) →
        Ordinary string account ∨ ∃ updated, updateAccount string account = .ok updated) →
      ∃ after updated, update230000 string ctx accounts = .ok (true, after, updated)) ∧
    ∀ flag after updated, update230000 string ctx accounts = .ok (flag, after, updated) →
      (∀ address : Address,
        (∀ account, accounts.entries[address]? ≠ some (.graded account)) →
          updated.entries[address]? = accounts.entries[address]?) ∧
      ∀ (address : Address) account, accounts.entries[address]? = some (.graded account) →
        Ordinary string account →
          ∃ lazyAccount, updated.entries[address]? = some (.lazyGraded lazyAccount) ∧
            Spreads account lazyAccount := by
  refine ⟨?_, ?_⟩
  · intro each
    apply update230000_isOk atHeight
    intro address account present
    cases account with
    | graded account =>
        have updatable : ∃ updated, updateAccount string account = .ok updated :=
          (each address account present).elim Ordinary.updateAccount_isOk id
        rcases updatable with ⟨updated, updateOk⟩
        exact ⟨.lazyGraded updated, by simp only [replacement, updateOk, bind, Except.bind]⟩
    | base _ => exact ⟨_, rfl⟩
    | continuous _ _ => exact ⟨_, rfl⟩
    | delayed _ => exact ⟨_, rfl⟩
    | lazyGraded _ => exact ⟨_, rfl⟩
  · intro flag after updated done
    rcases update230000_eq_ok atHeight done with ⟨replacedAll, absentStays⟩
    refine ⟨?_, ?_⟩
    · intro address notGraded
      cases present : accounts.entries[address]? with
      | none => exact absentStays address present
      | some account =>
          rcases replacedAll address account present with ⟨replaced, replacedOk, stored⟩
          rw [stored]
          cases account with
          | graded account => exact absurd present (notGraded account)
          | base _ => cases replacedOk; rfl
          | continuous _ _ => cases replacedOk; rfl
          | delayed _ => cases replacedOk; rfl
          | lazyGraded _ => cases replacedOk; rfl
    · intro address account present ordinary
      rcases replacedAll address _ present with ⟨replaced, replacedOk, stored⟩
      rcases Outcome.bind_eq_ok.mp replacedOk with ⟨lazyAccount, updateOk, rest⟩
      cases rest
      exact ⟨lazyAccount, stored, ordinary.spreads updateOk⟩

end Iteration

/-- The printed form of the address of the sample account. -/
def sampleString (address : Address) : String :=
  if address = List.replicate 20 1 then "terra1qyqszqgpqyqszqgpqyqszqgpqyqszqgp5hm70u" else ""

/-- A graded account whose coins vest in two halves. -/
def sampleGraded : BaseGradedVestingAccount :=
  newBaseGradedVestingAccount
    ⟨List.replicate 20 1, none, ⟨[⟨microLunaDenom, 100000000⟩], Vesting.hundredLuna_isValid⟩, 7, 0⟩
    [⟨microLunaDenom, [⟨1558677600, .withPrec 50 2⟩, ⟨1587708000, .withPrec 50 2⟩]⟩]

theorem eq_of_single {account found : Account} {address : Address}
    (present : (noAccounts.setAccount account).entries[address]? = some found) :
    found = account := by
  rcases Store.cases_get_insert present with ⟨-, same⟩ | ⟨-, stored⟩
  · exact same
  · exact absurd (stored.symm.trans (Store.get_empty address)) (by simp)

/-- The chain at the height of the update. -/
def sampleChain : Context Unit :=
  { Context.genesis () (Staking.single (List.replicate 20 2) 1 rfl) with height := updateHeight }

theorem update_only_spreads_sample :
    ∃ after updated lazyAccount,
      update230000 sampleString sampleChain (noAccounts.setAccount (.graded sampleGraded)) =
        .ok (true, after, updated) ∧
      updated.entries[sampleGraded.address]? = some (.lazyGraded lazyAccount) ∧
      Spreads sampleGraded lazyAccount := by
  have ordinary : Ordinary sampleString sampleGraded :=
    ⟨by decide +kernel, by decide +kernel, by
      simp only [BaseGradedVestingAccount.SchedulesValid]
      decide +kernel, by
      simp only [HasRoom]
      decide +kernel⟩
  have present : (noAccounts.setAccount (.graded sampleGraded)).entries[sampleGraded.address]? =
      some (.graded sampleGraded) := by
    simp [Accounts.setAccount, Account.address]
  have onlyOne : ∀ (address : Address) account,
      (noAccounts.setAccount (.graded sampleGraded)).entries[address]? = some (.graded account) →
        account = sampleGraded := by
    intro address account found
    exact Account.graded.inj (eq_of_single found)
  have atHeight : sampleChain.height = updateHeight := rfl
  rcases update_only_spreads sampleString atHeight
    (noAccounts.setAccount (.graded sampleGraded)) with ⟨succeeds, spreads⟩
  rcases succeeds fun address account found =>
    Or.inl (onlyOne address account found ▸ ordinary) with ⟨after, updated, done⟩
  rcases (spreads true after updated done).2 sampleGraded.address sampleGraded present ordinary with
    ⟨lazyAccount, stored, spread⟩
  exact ⟨after, updated, lazyAccount, done, stored, spread⟩

end Update

end TerraCore
