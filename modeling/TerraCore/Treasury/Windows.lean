import TerraCore.Treasury.Policy

/-!
# Windows of the rolling indicators

A sum or an average over a number of epochs asks the indicator for every epoch
of a window that ends with the current one, latest first, and for no other
epoch. The window is cut off at the start of the chain, and the average divides
by the number of epochs that are left.
-/

namespace TerraCore.Treasury

variable {L : Type}

/-- Ask an indicator for a list of epochs, one after another. -/
def callEpochs (indicatorFunction : Indicator L) :
    List ℤ → Context L → Outcome (List Dec × Context L)
  | [], ctx => .ok ([], ctx)
  | epoch :: rest, ctx => do
      let (val, ctx) ← indicatorFunction ctx epoch
      let (vals, ctx) ← callEpochs indicatorFunction rest ctx
      pure (val :: vals, ctx)

/-- The number of epochs in a window which ends with the current one. -/
def windowLength (curEpoch epochs : ℤ) : ℕ := (min epochs (curEpoch + 1)).toNat

/-- The epochs of the window, latest first. -/
def windowEpochs (curEpoch epochs : ℤ) : List ℤ :=
  (List.range (windowLength curEpoch epochs)).map fun back : ℕ => curEpoch - back

def sumOf (vals : List Dec) : Dec := ⟨(vals.map Dec.raw).sum⟩

/-- The window has every epoch from its first to the current one, once. -/
theorem mem_windowEpochs_iff {curEpoch epochs epoch : ℤ} :
    epoch ∈ windowEpochs curEpoch epochs ↔
      max 0 (curEpoch - epochs + 1) ≤ epoch ∧ epoch ≤ curEpoch := by
  simp only [windowEpochs, windowLength, List.mem_map, List.mem_range]
  constructor
  · rintro ⟨back, inWindow, rfl⟩
    omega
  · rintro ⟨recent, past⟩
    exact ⟨(curEpoch - epoch).toNat, by omega, by omega⟩

theorem nodup_windowEpochs (curEpoch epochs : ℤ) : (windowEpochs curEpoch epochs).Nodup := by
  refine List.nodup_range.map ?_
  intro first second same
  simpa using same

/-- A window that is not empty is its latest epoch and the window before it. -/
theorem windowEpochs_cons {curEpoch epochs : ℤ} (current : 0 ≤ curEpoch) (some : 0 < epochs) :
    windowEpochs curEpoch epochs = curEpoch :: windowEpochs (curEpoch - 1) (epochs - 1) := by
  have lengths : windowLength curEpoch epochs = windowLength (curEpoch - 1) (epochs - 1) + 1 := by
    simp only [windowLength]
    omega
  simp only [windowEpochs, lengths, List.range_succ_eq_map, List.map_cons, List.map_map]
  refine congrArg₂ List.cons (by simp) (List.map_congr_left fun back _ => ?_)
  simp only [Function.comp_apply]
  push_cast
  omega

/-- The loop asks for the epochs of the window. Any bound that covers the epochs
down to zero gives the same result, so that the loop ends by its own test. -/
theorem sumEpochs_eq (indicatorFunction : Indicator L) {oldest i : ℤ} {remaining : ℕ} (sum : Dec)
    (ctx : Context L) (enough : i + 1 ≤ remaining) :
    sumEpochs indicatorFunction oldest remaining i sum ctx =
      (callEpochs indicatorFunction (windowEpochs i (i - oldest)) ctx).map fun done =>
        (sum.add (sumOf done.1), i - windowLength i (i - oldest), done.2) := by
  induction remaining generalizing i sum ctx with
  | zero =>
      have noEpoch : windowLength i (i - oldest) = 0 := by
        simp only [windowLength]
        omega
      simp [sumEpochs, windowEpochs, noEpoch, callEpochs, sumOf, Dec.add, Except.map]
  | succ remaining ih =>
      rw [sumEpochs]
      split
      · next inWindow =>
          have lengths : windowLength i (i - oldest) =
              windowLength (i - 1) (i - 1 - oldest) + 1 := by
            simp only [windowLength]
            omega
          rw [windowEpochs_cons inWindow.1 (by omega), callEpochs, lengths]
          cases called : indicatorFunction ctx i with
          | error failure => rfl
          | ok result =>
              refine (ih _ _ (by omega)).trans ?_
              have sameWindow : i - oldest - 1 = i - 1 - oldest := by omega
              rw [sameWindow]
              simp only [bind, Except.bind]
              cases callEpochs indicatorFunction (windowEpochs (i - 1) (i - 1 - oldest)) result.2 with
              | error failure => rfl
              | ok rest =>
                  simp only [Except.map, pure, Except.pure, sumOf, Dec.add, List.map_cons,
                    List.sum_cons, add_assoc, Nat.cast_add, Nat.cast_one]
                  congr 3
                  omega
      · next outside =>
          have noEpoch : windowLength i (i - oldest) = 0 := by
            simp only [windowLength]
            omega
          simp [windowEpochs, noEpoch, callEpochs, sumOf, Dec.add, Except.map]

section Values

variable {indicatorFunction : Indicator L} {value : ℤ → Dec}
  (returns : ∀ (ctx : Context L) (epoch : ℤ),
    ∃ after, indicatorFunction ctx epoch = .ok (value epoch, after))

include returns

theorem callEpochs_of_values (listed : List ℤ) (ctx : Context L) :
    ∃ after, callEpochs indicatorFunction listed ctx = .ok (listed.map value, after) := by
  induction listed generalizing ctx with
  | nil => exact ⟨ctx, rfl⟩
  | cons epoch rest ih =>
      rcases returns ctx epoch with ⟨middle, called⟩
      rcases ih middle with ⟨after, others⟩
      refine ⟨after, ?_⟩
      rw [callEpochs, called]
      simp only [bind, Except.bind, others]
      rfl

omit returns in
theorem sumOf_window (curEpoch epochs : ℤ) :
    sumOf ((windowEpochs curEpoch epochs).map value) =
      ⟨∑ epoch ∈ Finset.Icc (max 0 (curEpoch - epochs + 1)) curEpoch, (value epoch).raw⟩ := by
  have sameEpochs : (windowEpochs curEpoch epochs).toFinset =
      Finset.Icc (max 0 (curEpoch - epochs + 1)) curEpoch := by
    ext epoch
    rw [List.mem_toFinset, mem_windowEpochs_iff, Finset.mem_Icc]
  rw [sumOf, List.map_map, ← sameEpochs, List.sum_toFinset _ (nodup_windowEpochs curEpoch epochs)]
  rfl

end Values

/-- Sums over a window and their averages, for every indicator. -/
theorem sumIndicator_eq (indicatorFunction : Indicator L) (ctx : Context L) (epochs : ℤ) :
    sumIndicator ctx epochs indicatorFunction =
      (callEpochs indicatorFunction (windowEpochs ctx.getEpoch epochs) ctx).map fun done =>
        (sumOf done.1, done.2) := by
  have enough : ctx.getEpoch + 1 ≤ ((ctx.getEpoch + 1).toNat : ℤ) := Int.self_le_toNat _
  simp only [sumIndicator]
  rw [sumEpochs_eq indicatorFunction Dec.zero ctx enough, sub_sub_cancel]
  cases callEpochs indicatorFunction (windowEpochs ctx.getEpoch epochs) ctx with
  | error failure => rfl
  | ok done => simp [Except.map, bind, Except.bind, pure, Except.pure, Dec.add, Dec.zero]

theorem rollingAverageIndicator_eq (indicatorFunction : Indicator L) (ctx : Context L)
    (epochs : ℤ) :
    rollingAverageIndicator ctx epochs indicatorFunction =
      (callEpochs indicatorFunction (windowEpochs ctx.getEpoch epochs) ctx).map fun done =>
        (if epochs ≤ 0 then Dec.zero
          else (sumOf done.1).quoInt64 (min epochs (ctx.getEpoch + 1)), done.2) := by
  have enough : ctx.getEpoch + 1 ≤ ((ctx.getEpoch + 1).toNat : ℤ) := Int.self_le_toNat _
  have current : 0 ≤ ctx.getEpoch := Int.natCast_nonneg _
  simp only [rollingAverageIndicator]
  rw [sumEpochs_eq indicatorFunction Dec.zero ctx enough, sub_sub_cancel]
  by_cases empty : epochs ≤ 0
  · have noEpoch : windowLength ctx.getEpoch epochs = 0 := by
      simp only [windowLength]
      omega
    simp [windowEpochs, noEpoch, callEpochs, empty, Except.map, bind, Except.bind, pure,
      Except.pure, sumOf, Dec.add, Dec.zero]
  · have length : (windowLength ctx.getEpoch epochs : ℤ) = min epochs (ctx.getEpoch + 1) := by
      simp only [windowLength]
      omega
    have positive : min epochs (ctx.getEpoch + 1) ≠ 0 := by omega
    cases callEpochs indicatorFunction (windowEpochs ctx.getEpoch epochs) ctx with
    | error failure => rfl
    | ok done =>
        simp [Except.map, bind, Except.bind, pure, Except.pure, Dec.add, Dec.zero, Dec.quoInt,
          length, positive, empty]

/-- Whatever an indicator does, a sum over a number of epochs adds up what it
returns for the epochs of the window, and the average divides this sum by their
number. The loop ends by its own test. For values that depend on the epoch only
this is a sum over an interval, and a constant is its own average. -/
theorem indicators_cover_window (indicatorFunction : Indicator L) (ctx : Context L)
    (epochs : ℤ) :
    sumIndicator ctx epochs indicatorFunction =
        (callEpochs indicatorFunction (windowEpochs ctx.getEpoch epochs) ctx).map (fun done =>
          (sumOf done.1, done.2)) ∧
      rollingAverageIndicator ctx epochs indicatorFunction =
        (callEpochs indicatorFunction (windowEpochs ctx.getEpoch epochs) ctx).map (fun done =>
          (if epochs ≤ 0 then Dec.zero
            else (sumOf done.1).quoInt64 (min epochs (ctx.getEpoch + 1)), done.2)) ∧
      (∀ remaining : ℕ, ctx.getEpoch + 1 ≤ remaining →
        sumEpochs indicatorFunction (ctx.getEpoch - epochs) remaining ctx.getEpoch Dec.zero ctx =
          sumEpochs indicatorFunction (ctx.getEpoch - epochs) (ctx.getEpoch + 1).toNat
            ctx.getEpoch Dec.zero ctx) ∧
      ∀ value : ℤ → Dec, (∀ (before : Context L) (epoch : ℤ),
          ∃ after, indicatorFunction before epoch = .ok (value epoch, after)) →
        let total := ∑ epoch ∈ Finset.Icc (max 0 (ctx.getEpoch - epochs + 1)) ctx.getEpoch,
          (value epoch).raw
        ∃ after, sumIndicator ctx epochs indicatorFunction = .ok (⟨total⟩, after) ∧
          rollingAverageIndicator ctx epochs indicatorFunction =
            .ok (if epochs ≤ 0 then Dec.zero
              else ⟨total.tdiv (min epochs (ctx.getEpoch + 1))⟩, after) ∧
          ∀ constant : Dec, Dec.zero ≤ constant → (∀ epoch, value epoch = constant) →
            0 < epochs →
              rollingAverageIndicator ctx epochs indicatorFunction = .ok (constant, after) := by
  have enough : ctx.getEpoch + 1 ≤ ((ctx.getEpoch + 1).toNat : ℤ) := Int.self_le_toNat _
  have current : 0 ≤ ctx.getEpoch := Int.natCast_nonneg _
  refine ⟨sumIndicator_eq _ _ _, rollingAverageIndicator_eq _ _ _, ?_, ?_⟩
  · intro remaining covers
    rw [sumEpochs_eq indicatorFunction Dec.zero ctx covers,
      sumEpochs_eq indicatorFunction Dec.zero ctx enough]
  · intro value returns total
    rcases callEpochs_of_values returns (windowEpochs ctx.getEpoch epochs) ctx with
      ⟨after, called⟩
    have averaged : rollingAverageIndicator ctx epochs indicatorFunction =
        .ok (if epochs ≤ 0 then Dec.zero
          else ⟨total.tdiv (min epochs (ctx.getEpoch + 1))⟩, after) := by
      rw [rollingAverageIndicator_eq, called, Except.map, sumOf_window]
      rfl
    refine ⟨after, ?_, averaged, ?_⟩
    · rw [sumIndicator_eq, called, Except.map, sumOf_window]
    · intro constant _ always positive
      have totalEq : total = min epochs (ctx.getEpoch + 1) * constant.raw := by
        have size : (Finset.Icc (max 0 (ctx.getEpoch - epochs + 1)) ctx.getEpoch).card =
            (min epochs (ctx.getEpoch + 1)).toNat := by
          rw [Int.card_Icc]
          omega
        simp only [total, always, Finset.sum_const, size, nsmul_eq_mul]
        rw [Int.toNat_of_nonneg (by omega)]
      rw [averaged, if_neg (not_le.mpr positive), totalEq,
        Int.mul_tdiv_cancel_left _ (by omega)]

end TerraCore.Treasury
