import Mathlib

/-!
# Linear release

A tranche releases its total between two times, in proportion to the time that
has passed and rounded towards zero. When both times are the same everything is
released at once. The amount released only grows with time and never exceeds
the total; spreading a tranche that is released at once over a delay gives at
any time no more than before, and at least what it gave the delay earlier.
-/

namespace Ramp

/-- A total that is released between `start` and `finish`. -/
structure Tranche where
  total : ℤ
  start : ℤ
  finish : ℤ
deriving DecidableEq

namespace Tranche

def released (tranche : Tranche) (time : ℤ) : ℤ :=
  if time < tranche.start then 0
  else if time < tranche.finish then
    (tranche.total * (time - tranche.start)).tdiv (tranche.finish - tranche.start)
  else tranche.total

/-- The total is not negative and its release does not end before it starts. -/
structure Sound (tranche : Tranche) : Prop where
  nonneg : 0 ≤ tranche.total
  ordered : tranche.start ≤ tranche.finish

variable {tranche : Tranche}

theorem released_of_before {time : ℤ} (before : time < tranche.start) :
    tranche.released time = 0 :=
  if_pos before

theorem released_of_during {time : ℤ} (started : tranche.start ≤ time)
    (running : time < tranche.finish) :
    tranche.released time =
      (tranche.total * (time - tranche.start)).tdiv (tranche.finish - tranche.start) := by
  simp only [released]
  rw [if_neg (by omega), if_pos running]

theorem Sound.released_of_after (sound : tranche.Sound) {time : ℤ}
    (finished : tranche.finish ≤ time) : tranche.released time = tranche.total := by
  have ordered := sound.ordered
  simp only [released]
  rw [if_neg (by omega), if_neg (by omega)]

theorem Sound.released_nonneg (sound : tranche.Sound) (time : ℤ) :
    0 ≤ tranche.released time := by
  simp only [released]
  split
  · exact le_rfl
  · split
    · apply Int.tdiv_nonneg
      · exact mul_nonneg sound.nonneg (by omega)
      · omega
    · exact sound.nonneg

theorem Sound.released_le_total (sound : tranche.Sound) (time : ℤ) :
    tranche.released time ≤ tranche.total := by
  simp only [released]
  split
  · exact sound.nonneg
  · split
    · have window : 0 < tranche.finish - tranche.start := by omega
      have partOf : tranche.total * (time - tranche.start) ≤
          tranche.total * (tranche.finish - tranche.start) :=
        mul_le_mul_of_nonneg_left (by omega) sound.nonneg
      have bounded := Int.tdiv_le_tdiv window partOf
      rwa [Int.mul_tdiv_cancel _ window.ne'] at bounded
    · exact le_rfl

theorem Sound.released_mono (sound : tranche.Sound) {earlier later : ℤ}
    (ordered : earlier ≤ later) : tranche.released earlier ≤ tranche.released later := by
  rcases lt_or_ge earlier tranche.start with before | started
  · rw [released_of_before before]
    exact sound.released_nonneg later
  · rcases lt_or_ge later tranche.finish with running | finished
    · rw [released_of_during started (by omega), released_of_during (by omega) running]
      apply Int.tdiv_le_tdiv (by omega)
      exact mul_le_mul_of_nonneg_left (by omega) sound.nonneg
    · rw [sound.released_of_after finished]
      exact sound.released_le_total earlier

/-- A total that is released all at once. -/
def cliff (total time : ℤ) : Tranche := ⟨total, time, time⟩

theorem cliff_sound {total time : ℤ} (nonneg : 0 ≤ total) : (cliff total time).Sound :=
  ⟨nonneg, le_rfl⟩

theorem released_cliff (total moment time : ℤ) :
    (cliff total moment).released time = if moment ≤ time then total else 0 := by
  rcases lt_or_ge time moment with before | reached
  · rw [if_neg (by omega)]
    exact released_of_before before
  · rw [if_pos reached]
    simp [released, cliff, not_lt.mpr reached]

/-- A cliff that is spread over a delay. -/
def spread (total moment delay : ℤ) : Tranche := ⟨total, moment, moment + delay⟩

theorem spread_sound {total moment delay : ℤ} (nonneg : 0 ≤ total) (forward : 0 ≤ delay) :
    (spread total moment delay).Sound :=
  ⟨nonneg, by simp [spread, forward]⟩

theorem released_spread_le {total moment delay : ℤ} (nonneg : 0 ≤ total) (forward : 0 ≤ delay)
    (time : ℤ) : (spread total moment delay).released time ≤ (cliff total moment).released time := by
  rw [released_cliff]
  split
  · exact (spread_sound nonneg forward).released_le_total time
  · next early => exact (released_of_before (not_le.mp early)).le

theorem le_released_spread {total moment delay : ℤ} (nonneg : 0 ≤ total) (forward : 0 ≤ delay)
    {earlier time : ℤ} (delayed : earlier + delay ≤ time) :
    (cliff total moment).released earlier ≤ (spread total moment delay).released time := by
  rw [released_cliff]
  split
  · next reached =>
      rw [(spread_sound nonneg forward).released_of_after]
      · exact le_rfl
      · simp only [spread]
        omega
  · exact (spread_sound nonneg forward).released_nonneg time

end Tranche

/-- What a list of tranches has released. -/
def released (tranches : List Tranche) (time : ℤ) : ℤ :=
  (tranches.map fun tranche => tranche.released time).sum

def total (tranches : List Tranche) : ℤ := (tranches.map Tranche.total).sum

variable {tranches : List Tranche}

theorem released_nonneg (sound : ∀ tranche ∈ tranches, tranche.Sound) (time : ℤ) :
    0 ≤ released tranches time := by
  apply List.sum_nonneg
  intro amount amountMem
  rcases List.mem_map.mp amountMem with ⟨tranche, trancheMem, rfl⟩
  exact (sound tranche trancheMem).released_nonneg time

theorem released_le_total (sound : ∀ tranche ∈ tranches, tranche.Sound) (time : ℤ) :
    released tranches time ≤ total tranches :=
  List.sum_le_sum fun tranche trancheMem => (sound tranche trancheMem).released_le_total time

theorem released_mono (sound : ∀ tranche ∈ tranches, tranche.Sound) {earlier later : ℤ}
    (ordered : earlier ≤ later) : released tranches earlier ≤ released tranches later :=
  List.sum_le_sum fun tranche trancheMem => (sound tranche trancheMem).released_mono ordered

theorem released_of_before_all {time : ℤ} (before : ∀ tranche ∈ tranches, time < tranche.start) :
    released tranches time = 0 := by
  apply List.sum_eq_zero
  intro amount amountMem
  rcases List.mem_map.mp amountMem with ⟨tranche, trancheMem, rfl⟩
  exact Tranche.released_of_before (before tranche trancheMem)

theorem released_of_after_all (sound : ∀ tranche ∈ tranches, tranche.Sound) {time : ℤ}
    (finished : ∀ tranche ∈ tranches, tranche.finish ≤ time) :
    released tranches time = total tranches := by
  apply congrArg List.sum
  apply List.map_congr_left
  intro tranche trancheMem
  exact (sound tranche trancheMem).released_of_after (finished tranche trancheMem)

end Ramp
