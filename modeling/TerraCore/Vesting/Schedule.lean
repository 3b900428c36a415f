import TerraCore.Library.Ramp
import TerraCore.Sdk.Types

/-!
# Vesting schedules

A vesting schedule says which part of the coins of one denomination has vested
at a block time, in Unix seconds. A graded schedule vests each of its parts at
a cliff, a lazy one vests it linearly between two times. Both are lists of
tranches of the ratio one, and `getVestedRatio` is what these have released.
-/

namespace TerraCore

namespace Vesting

open Ramp

/-- `IsValid` of a vesting schedule: every part is valid and the ratios add up to one. -/
def ratiosAddUp {α : Type} (isValid : α → Bool) (ratio : α → Dec) (schedules : List α) : Bool :=
  schedules.all isValid &&
    decide (schedules.foldl (fun sumRatio schedule => sumRatio.add (ratio schedule)) Dec.zero =
      Dec.one)

structure Schedule where
  cliff : Int64
  ratio : Dec
deriving DecidableEq

def Schedule.isValid (schedule : Schedule) : Bool :=
  decide (0 ≤ schedule.cliff) && decide (Dec.zero < schedule.ratio)

structure VestingSchedule where
  denom : Denom
  schedules : List Schedule
deriving DecidableEq

namespace VestingSchedule

def getVestedRatio (vestingSchedule : VestingSchedule) (blockTime : Int64) : Dec :=
  vestingSchedule.schedules.foldl (fun sumRatio schedule =>
    if schedule.cliff ≤ blockTime then sumRatio.add schedule.ratio else sumRatio) Dec.zero

def isValid (vestingSchedule : VestingSchedule) : Bool :=
  ratiosAddUp Schedule.isValid Schedule.ratio vestingSchedule.schedules

end VestingSchedule

structure LazySchedule where
  startTime : Int64
  endTime : Int64
  ratio : Dec
deriving DecidableEq

def LazySchedule.isValid (schedule : LazySchedule) : Bool :=
  decide (0 ≤ schedule.startTime) && decide (schedule.startTime ≤ schedule.endTime) &&
    decide (Dec.zero < schedule.ratio)

structure LazyVestingSchedule where
  denom : Denom
  lazySchedules : List LazySchedule
deriving DecidableEq

namespace LazyVestingSchedule

/-- The divisor of the linear part is not zero, as the block time lies between the two times. -/
def getVestedRatio (vestingSchedule : LazyVestingSchedule) (blockTime : Int64) : Dec :=
  vestingSchedule.lazySchedules.foldl (fun sumRatio schedule =>
    if blockTime < schedule.startTime then sumRatio
    else if blockTime < schedule.endTime then
      sumRatio.add ((schedule.ratio.mulInt (blockTime - schedule.startTime).toInt).quoInt64
        (schedule.endTime - schedule.startTime).toInt)
    else sumRatio.add schedule.ratio) Dec.zero

def isValid (vestingSchedule : LazyVestingSchedule) : Bool :=
  ratiosAddUp LazySchedule.isValid LazySchedule.ratio vestingSchedule.lazySchedules

end LazyVestingSchedule

def Schedule.tranche (schedule : Schedule) : Tranche :=
  .cliff schedule.ratio.raw schedule.cliff.toInt

def LazySchedule.tranche (schedule : LazySchedule) : Tranche :=
  ⟨schedule.ratio.raw, schedule.startTime.toInt, schedule.endTime.toInt⟩

/-- Tranches that release the ratio one. -/
structure Whole (tranches : List Tranche) : Prop where
  sound : ∀ tranche ∈ tranches, tranche.Sound
  total : Ramp.total tranches = Dec.precision

/-- A loop that adds an amount for each item computes the sum of the amounts. -/
theorem raw_foldl {α : Type} {body : Dec → α → Dec} (amount : α → ℤ) {items : List α}
    (adds : ∀ item ∈ items, ∀ sum, (body sum item).raw = sum.raw + amount item) (start : Dec) :
    (items.foldl body start).raw = start.raw + (items.map amount).sum := by
  induction items generalizing start with
  | nil => simp
  | cons item items ih =>
      rw [List.foldl_cons, ih (fun other otherMem => adds other (List.mem_cons_of_mem _ otherMem)),
        adds item List.mem_cons_self, List.map_cons, List.sum_cons, add_assoc]

theorem ratiosAddUp_iff {α : Type} {isValid : α → Bool} {ratio : α → Dec} {schedules : List α} :
    ratiosAddUp isValid ratio schedules = true ↔
      (∀ schedule ∈ schedules, isValid schedule = true) ∧
        (schedules.map fun schedule => (ratio schedule).raw).sum = Dec.precision := by
  have sumEq : (schedules.foldl (fun sum schedule => sum.add (ratio schedule)) Dec.zero).raw =
      Dec.zero.raw + (schedules.map fun schedule => (ratio schedule).raw).sum :=
    raw_foldl (fun schedule => (ratio schedule).raw) (fun _ _ _ => rfl) Dec.zero
  simp only [ratiosAddUp, Bool.and_eq_true, List.all_eq_true, decide_eq_true_eq, Dec.ext_iff]
  rw [sumEq]
  simp [Dec.zero, Dec.one]

theorem Schedule.isValid_iff {schedule : Schedule} :
    schedule.isValid = true ↔ 0 ≤ schedule.cliff.toInt ∧ 0 < schedule.ratio.raw := by
  simp [Schedule.isValid, Int64.le_iff_toInt_le, Dec.lt_def, Dec.zero]

theorem LazySchedule.isValid_iff {schedule : LazySchedule} :
    schedule.isValid = true ↔
      0 ≤ schedule.startTime.toInt ∧ schedule.startTime.toInt ≤ schedule.endTime.toInt ∧
        0 < schedule.ratio.raw := by
  simp [LazySchedule.isValid, Int64.le_iff_toInt_le, Dec.lt_def, Dec.zero, and_assoc]

theorem VestingSchedule.ratio_nonneg {vestingSchedule : VestingSchedule}
    (valid : vestingSchedule.isValid = true) {schedule : Schedule}
    (scheduleMem : schedule ∈ vestingSchedule.schedules) : 0 ≤ schedule.ratio.raw :=
  (Schedule.isValid_iff.mp ((ratiosAddUp_iff.mp valid).1 schedule scheduleMem)).2.le

theorem VestingSchedule.whole_of_isValid {vestingSchedule : VestingSchedule}
    (valid : vestingSchedule.isValid = true) :
    Whole (vestingSchedule.schedules.map Schedule.tranche) := by
  rcases ratiosAddUp_iff.mp valid with ⟨each, addUp⟩
  refine ⟨?_, ?_⟩
  · intro tranche trancheMem
    rcases List.mem_map.mp trancheMem with ⟨schedule, scheduleMem, rfl⟩
    exact Tranche.cliff_sound (Schedule.isValid_iff.mp (each schedule scheduleMem)).2.le
  · simp only [Ramp.total, List.map_map]
    exact addUp

theorem LazyVestingSchedule.whole_of_isValid {vestingSchedule : LazyVestingSchedule}
    (valid : vestingSchedule.isValid = true) :
    Whole (vestingSchedule.lazySchedules.map LazySchedule.tranche) := by
  rcases ratiosAddUp_iff.mp valid with ⟨each, addUp⟩
  refine ⟨?_, ?_⟩
  · intro tranche trancheMem
    rcases List.mem_map.mp trancheMem with ⟨schedule, scheduleMem, rfl⟩
    rcases LazySchedule.isValid_iff.mp (each schedule scheduleMem) with ⟨_, ordered, positive⟩
    exact ⟨positive.le, ordered⟩
  · simp only [Ramp.total, List.map_map]
    exact addUp

theorem VestingSchedule.getVestedRatio_raw (vestingSchedule : VestingSchedule)
    (blockTime : Int64) :
    (vestingSchedule.getVestedRatio blockTime).raw =
      Ramp.released (vestingSchedule.schedules.map Schedule.tranche) blockTime.toInt := by
  simp only [getVestedRatio]
  rw [raw_foldl fun schedule : Schedule => schedule.tranche.released blockTime.toInt]
  · simp only [Ramp.released, List.map_map, Dec.zero, zero_add]
    rfl
  · intro schedule _ sum
    simp only [Schedule.tranche]
    rw [Tranche.released_cliff]
    by_cases reached : schedule.cliff ≤ blockTime
    · rw [if_pos reached, if_pos (Int64.le_iff_toInt_le.mp reached)]
      rfl
    · rw [if_neg reached, if_neg (fun later => reached (Int64.le_iff_toInt_le.mpr later)), add_zero]

/-- No time difference of a valid schedule overflows. -/
theorem LazyVestingSchedule.getVestedRatio_raw {vestingSchedule : LazyVestingSchedule}
    (valid : vestingSchedule.isValid = true) (blockTime : Int64) :
    (vestingSchedule.getVestedRatio blockTime).raw =
      Ramp.released (vestingSchedule.lazySchedules.map LazySchedule.tranche) blockTime.toInt := by
  have each := (ratiosAddUp_iff.mp valid).1
  simp only [getVestedRatio]
  rw [raw_foldl fun schedule : LazySchedule => schedule.tranche.released blockTime.toInt]
  · simp only [Ramp.released, List.map_map, Dec.zero, zero_add]
    rfl
  · intro schedule scheduleMem sum
    rcases LazySchedule.isValid_iff.mp (each schedule scheduleMem) with ⟨started, ordered, positive⟩
    have startNonneg : 0 ≤ schedule.startTime := Int64.le_iff_toInt_le.mpr started
    by_cases before : blockTime < schedule.startTime
    · rw [if_pos before, Tranche.released_of_before (Int64.lt_iff_toInt_lt.mp before), add_zero]
    · have reached : schedule.startTime.toInt ≤ blockTime.toInt :=
        not_lt.mp fun early => before (Int64.lt_iff_toInt_lt.mpr early)
      rw [if_neg before]
      by_cases running : blockTime < schedule.endTime
      · have elapsed := Int64.toInt_sub_of_le blockTime schedule.startTime startNonneg
          (Int64.le_iff_toInt_le.mpr reached)
        have window := Int64.toInt_sub_of_le schedule.endTime schedule.startTime startNonneg
          (Int64.le_iff_toInt_le.mpr ordered)
        rw [if_pos running, Tranche.released_of_during reached (Int64.lt_iff_toInt_lt.mp running),
          elapsed, window]
        rfl
      · have finished : schedule.endTime.toInt ≤ blockTime.toInt :=
          not_lt.mp fun early => running (Int64.lt_iff_toInt_lt.mpr early)
        have sound : schedule.tranche.Sound := ⟨positive.le, ordered⟩
        rw [if_neg running, sound.released_of_after finished]
        rfl

end Vesting

end TerraCore
