import TerraCore.Vesting.Run

/-!
# Vesting curves

What has vested of an account is a function of the block time: with valid
schedules it starts at nothing, never shrinks and ends at the original vesting.
A denomination without a schedule has vested from the beginning. The vested
coins are proper coins, so that taking them off the original vesting is what it
says for every denomination, and never goes below zero.
-/

namespace TerraCore

namespace Vesting

/-- What has vested of one coin is nothing or a positive amount of the same denomination. -/
theorem vestedCoin_mem {vestedRatio : Denom → Option Dec} {ovc : Coin} {vested : Option Coin}
    (positive : 0 < ovc.amount) (computed : vestedCoin vestedRatio ovc = .ok vested) :
    ∀ coin ∈ vested.toList,
      coin.denom = ovc.denom ∧ validateDenom coin.denom = true ∧ coin.amount ≠ 0 := by
  have made : ∀ {amount : ℤ}, amount ≠ 0 →
      (do .ok (some (← newCoin ovc.denom amount)) : Outcome (Option Coin)) = .ok vested →
        ∀ coin ∈ vested.toList,
          coin.denom = ovc.denom ∧ validateDenom coin.denom = true ∧ coin.amount ≠ 0 := by
    intro amount nonzero coinOk
    rcases Outcome.bind_eq_ok.mp coinOk with ⟨single, singleOk, same⟩
    cases same
    rcases newCoin_eq_ok.mp singleOk with ⟨valid, _, rfl⟩
    simp [valid, nonzero]
  simp only [vestedCoin] at computed
  split at computed
  · split at computed
    · cases computed
      simp
    · next nonzero => exact made nonzero computed
  · exact made positive.ne' computed

/-- The vested coins are in the order of the original vesting. -/
theorem vestedCoins_proper {vestedRatio : Denom → Option Dec} {coins vested : List Coin}
    (proper : Proper coins) (positive : ∀ coin ∈ coins, 0 < coin.amount)
    (computed : vestedCoins vestedRatio coins = .ok vested) :
    Proper vested ∧ ∀ coin ∈ vested, ∃ ovc ∈ coins, coin.denom = ovc.denom := by
  induction coins generalizing vested with
  | nil =>
      cases computed
      exact ⟨proper, by simp⟩
  | cons ovc coins ih =>
      simp only [vestedCoins] at computed
      rcases Outcome.bind_eq_ok.mp computed with ⟨head, headOk, rest⟩
      rcases Outcome.bind_eq_ok.mp rest with ⟨others, othersOk, same⟩
      cases same
      have headMem := vestedCoin_mem (positive ovc List.mem_cons_self) headOk
      rcases ih proper.tail (fun coin coinMem => positive coin (List.mem_cons_of_mem _ coinMem))
        othersOk with ⟨othersProper, othersDenoms⟩
      refine ⟨⟨?_, ?_, ?_⟩, ?_⟩
      · apply List.pairwise_append.mpr
        refine ⟨?_, othersProper.sorted, ?_⟩
        · cases head <;> simp
        · intro first firstMem later laterMem
          rcases othersDenoms later laterMem with ⟨original, originalMem, sameDenom⟩
          rw [(headMem first firstMem).1, sameDenom]
          exact (List.pairwise_cons.mp proper.sorted).1 original originalMem
      · intro coin coinMem
        rcases List.mem_append.mp coinMem with first | later
        · exact (headMem coin first).2.1
        · exact othersProper.denoms coin later
      · intro coin coinMem
        rcases List.mem_append.mp coinMem with first | later
        · exact (headMem coin first).2.2
        · exact othersProper.nonzero coin later
      · intro coin coinMem
        rcases List.mem_append.mp coinMem with first | later
        · exact ⟨ovc, List.mem_cons_self, (headMem coin first).1⟩
        · rcases othersDenoms coin later with ⟨original, originalMem, sameDenom⟩
          exact ⟨original, List.mem_cons_of_mem _ originalMem, sameDenom⟩

namespace VestingAccount

variable {account : VestingAccount} {blockTime : Int64} {denom : Denom}

def getVestedCoins (account : VestingAccount) (blockTime : Int64) : Outcome (List Coin) :=
  match account with
  | graded account => account.getVestedCoins blockTime
  | lazyGraded account => account.getVestedCoins blockTime

/-- The denomination has a schedule, and the block is before its first cliff or start time. -/
def NotStarted (account : VestingAccount) (blockTime : Int64) (denom : Denom) : Prop :=
  match account with
  | graded account => ∃ found, account.getVestingSchedule denom = some found ∧
      ∀ schedule ∈ found.schedules, blockTime < schedule.cliff
  | lazyGraded account => ∃ found, account.getLazyVestingSchedule denom = some found ∧
      ∀ schedule ∈ found.lazySchedules, blockTime < schedule.startTime

/-- The denomination has a schedule, and the block is not before its last cliff or end time. -/
def Finished (account : VestingAccount) (blockTime : Int64) (denom : Denom) : Prop :=
  match account with
  | graded account => ∃ found, account.getVestingSchedule denom = some found ∧
      ∀ schedule ∈ found.schedules, schedule.cliff ≤ blockTime
  | lazyGraded account => ∃ found, account.getLazyVestingSchedule denom = some found ∧
      ∀ schedule ∈ found.lazySchedules, schedule.endTime ≤ blockTime

def Unscheduled (account : VestingAccount) (denom : Denom) : Prop :=
  match account with
  | graded account => account.getVestingSchedule denom = none
  | lazyGraded account => account.getLazyVestingSchedule denom = none

theorem NotStarted.releasedUnits (notStarted : account.NotStarted blockTime denom) :
    releasedUnits (account.tranches denom) blockTime = 0 := by
  cases account with
  | graded account =>
      rcases notStarted with ⟨found, lookup, before⟩
      simp only [tranches, BaseGradedVestingAccount.tranches, lookup, Option.map_some]
      apply Ramp.released_of_before_all
      intro tranche trancheMem
      rcases List.mem_map.mp trancheMem with ⟨schedule, scheduleMem, rfl⟩
      exact Int64.lt_iff_toInt_lt.mp (before schedule scheduleMem)
  | lazyGraded account =>
      rcases notStarted with ⟨found, lookup, before⟩
      simp only [tranches, BaseLazyGradedVestingAccount.tranches, lookup, Option.map_some]
      apply Ramp.released_of_before_all
      intro tranche trancheMem
      rcases List.mem_map.mp trancheMem with ⟨schedule, scheduleMem, rfl⟩
      exact Int64.lt_iff_toInt_lt.mp (before schedule scheduleMem)

theorem Finished.releasedUnits (finished : account.Finished blockTime denom)
    (valid : account.SchedulesValid) :
    releasedUnits (account.tranches denom) blockTime = Dec.precision := by
  have whole := valid.whole denom
  cases account with
  | graded account =>
      rcases finished with ⟨found, lookup, after⟩
      have tranchesEq : account.tranches denom = some (found.schedules.map Schedule.tranche) := by
        simp [BaseGradedVestingAccount.tranches, lookup]
      simp only [tranches] at whole ⊢
      rw [tranchesEq, ← (whole _ tranchesEq).total]
      apply Ramp.released_of_after_all (whole _ tranchesEq).sound
      intro tranche trancheMem
      rcases List.mem_map.mp trancheMem with ⟨schedule, scheduleMem, rfl⟩
      exact Int64.le_iff_toInt_le.mp (after schedule scheduleMem)
  | lazyGraded account =>
      rcases finished with ⟨found, lookup, after⟩
      have tranchesEq : account.tranches denom =
          some (found.lazySchedules.map LazySchedule.tranche) := by
        simp [BaseLazyGradedVestingAccount.tranches, lookup]
      simp only [tranches] at whole ⊢
      rw [tranchesEq, ← (whole _ tranchesEq).total]
      apply Ramp.released_of_after_all (whole _ tranchesEq).sound
      intro tranche trancheMem
      rcases List.mem_map.mp trancheMem with ⟨schedule, scheduleMem, rfl⟩
      exact Int64.le_iff_toInt_le.mp (after schedule scheduleMem)

theorem Unscheduled.releasedUnits (unscheduled : account.Unscheduled denom) :
    releasedUnits (account.tranches denom) blockTime = Dec.precision := by
  cases account with
  | graded account =>
      simp only [Unscheduled] at unscheduled
      simp only [tranches, BaseGradedVestingAccount.tranches, unscheduled]
      rfl
  | lazyGraded account =>
      simp only [Unscheduled] at unscheduled
      simp only [tranches, BaseLazyGradedVestingAccount.tranches, unscheduled]
      rfl

/-- What has vested of one denomination. -/
def vested (account : VestingAccount) (blockTime : Int64) (denom : Denom) : ℤ :=
  account.base.originalVesting.amountOf denom - account.locked blockTime denom

theorem vested_of_released_zero
    (released : releasedUnits (account.tranches denom) blockTime = 0) :
    account.vested blockTime denom = 0 := by
  have none := Rounding.roundHalfEven_mul_self Dec.precision_pos 0
  rw [zero_mul] at none
  simp only [vested, locked, released, mul_zero, none]
  simp

theorem vested_of_released_all
    (released : releasedUnits (account.tranches denom) blockTime = Dec.precision) :
    account.vested blockTime denom = account.base.originalVesting.amountOf denom := by
  simp only [vested, locked, released]
  rw [Rounding.roundHalfEven_mul_self Dec.precision_pos]
  simp

theorem SchedulesValid.locked_nonneg (valid : account.SchedulesValid) (blockTime : Int64)
    (denom : Denom) : 0 ≤ account.locked blockTime denom := by
  have rounded := Rounding.roundHalfEven_mono Dec.precision_pos (mul_le_mul_of_nonneg_left
    (valid.isPart blockTime denom).2 (account.base.originalVesting.amountOf_nonneg denom))
  rw [Rounding.roundHalfEven_mul_self Dec.precision_pos] at rounded
  simp only [locked]
  omega

theorem SchedulesValid.getVestedCoins_spec (valid : account.SchedulesValid)
    (blockTime : Int64) :
    ∃ vested, account.getVestedCoins blockTime = .ok vested ∧ Proper vested ∧
      ∀ denom, amountOf vested denom = account.vested blockTime denom := by
  have positive : ∀ coin ∈ account.base.originalVesting.toList, 0 < coin.amount :=
    fun coin coinMem => account.base.originalVesting.amount_pos coinMem
  have proper := account.base.originalVesting.proper
  cases account with
  | graded account =>
      rcases BaseGradedVestingAccount.SchedulesValid.getVestedCoins_spec valid blockTime with
        ⟨vested, computed, amounts⟩
      refine ⟨vested, computed, (vestedCoins_proper proper positive computed).1, ?_⟩
      intro denom
      rw [amounts]
      simp only [vestedAmount, BaseGradedVestingAccount.vestedUnits_vestedRatio, VestingAccount.vested,
        locked, sub_sub_cancel]
      rfl
  | lazyGraded account =>
      rcases BaseLazyGradedVestingAccount.SchedulesValid.getVestedCoins_spec valid blockTime with
        ⟨vested, computed, amounts⟩
      have units := BaseLazyGradedVestingAccount.SchedulesValid.vestedUnits_vestedRatio valid
        blockTime
      refine ⟨vested, computed, (vestedCoins_proper proper positive computed).1, ?_⟩
      intro denom
      rw [amounts]
      simp only [vestedAmount, units, VestingAccount.vested, locked, sub_sub_cancel]
      rfl

/-- The vested coins of an account as a function of the block time: per
denomination they never shrink between nothing and the original vesting. -/
structure IsVestingCurve (account : VestingAccount) (vested : Int64 → List Coin) : Prop where
  computed : ∀ blockTime, account.getVestedCoins blockTime = .ok (vested blockTime)
  proper : ∀ blockTime, Proper (vested blockTime)
  nonneg : ∀ blockTime denom, 0 ≤ amountOf (vested blockTime) denom
  monotone : ∀ earlier later, earlier ≤ later →
    ∀ denom, amountOf (vested earlier) denom ≤ amountOf (vested later) denom
  bounded : ∀ blockTime denom,
    amountOf (vested blockTime) denom ≤ account.base.originalVesting.amountOf denom
  notStarted : ∀ blockTime denom, account.NotStarted blockTime denom →
    amountOf (vested blockTime) denom = 0
  finished : ∀ blockTime denom, account.Finished blockTime denom →
    amountOf (vested blockTime) denom = account.base.originalVesting.amountOf denom
  unscheduled : ∀ blockTime denom, account.Unscheduled denom →
    amountOf (vested blockTime) denom = account.base.originalVesting.amountOf denom
  vesting : ∀ blockTime, ∃ vesting, account.getVestingCoins blockTime = .ok vesting ∧
    ∀ denom, 0 ≤ amountOf vesting denom ∧
      amountOf vesting denom + amountOf (vested blockTime) denom =
        account.base.originalVesting.amountOf denom

/-- With valid schedules the vested coins of a graded or a lazy account follow a
vesting curve, and the vesting coins can be computed at every time. -/
theorem vestedCoins_isVestingCurve (account : VestingAccount) (valid : account.SchedulesValid) :
    ∃ vested, account.IsVestingCurve vested := by
  choose vested computed proper amounts using valid.getVestedCoins_spec
  refine ⟨vested, computed, proper, ?_, ?_, ?_, ?_, ?_, ?_, ?_⟩
  · intro blockTime denom
    have bounded := @SchedulesValid.locked_le account blockTime valid denom
    rw [amounts]
    exact sub_nonneg.mpr bounded
  · intro earlier later ordered denom
    rw [amounts, amounts]
    exact sub_le_sub_left (valid.locked_antitone ordered denom) _
  · intro blockTime denom
    rw [amounts]
    exact sub_le_self _ (valid.locked_nonneg blockTime denom)
  · intro blockTime denom notStarted
    rw [amounts]
    exact vested_of_released_zero notStarted.releasedUnits
  · intro blockTime denom finished
    rw [amounts]
    exact vested_of_released_all (finished.releasedUnits valid)
  · intro blockTime denom unscheduled
    rw [amounts]
    exact vested_of_released_all unscheduled.releasedUnits
  · intro blockTime
    rcases valid.getVestingCoins_spec blockTime with ⟨vesting, vestingOk, vestingAmounts⟩
    refine ⟨vesting, vestingOk, ?_⟩
    intro denom
    rw [vestingAmounts, amounts]
    exact ⟨valid.locked_nonneg blockTime denom, add_sub_cancel _ _⟩

theorem vestedCoins_isVestingCurve_sample :
    ∃ vested, sampleAccount.IsVestingCurve vested :=
  vestedCoins_isVestingCurve sampleAccount sampleAccount_schedulesValid

end VestingAccount

end Vesting

end TerraCore
