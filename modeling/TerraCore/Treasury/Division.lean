import TerraCore.Treasury.Genesis
import TerraCore.Treasury.Indicators
import TerraCore.Treasury.Run

/-!
# Divisions of the policy updates

The updates guard their divisions: without revenues the rates go to their
maximum. But the reward policy tests the two sums of a quotient, and divides by
the quotient. The quotient is rounded to eighteen digits, and seigniorage
rewards that are a tiny part of all rewards leave zero. The other divisor that
can be zero is the rate at which tax proceeds are converted.
-/

namespace TerraCore

namespace Dec

/-- A quotient rounds to zero up to half a unit; the even neighbour of a tie is zero. -/
theorem quotient_eq_zero_iff {left right : Dec} (nonneg : 0 ≤ left.raw) (positive : 0 < right.raw) :
    left.quotient right = zero ↔ left.raw * 10 ^ 36 < (5 * 10 ^ 17 + 1) * right.raw := by
  have scaled : left.raw * precision * precision = left.raw * 10 ^ 36 := by
    simp only [precision]
    ring
  have scaledNonneg : 0 ≤ left.raw * 10 ^ 36 := by positivity
  have truncated := Int.tdiv_eq_ediv_of_nonneg (b := right.raw) scaledNonneg
  have below := Int.ediv_lt_iff_lt_mul (a := left.raw * 10 ^ 36) (b := 5 * 10 ^ 17 + 1) positive
  rw [← below]
  have quotientEq : left.quotient right =
      ⟨Rounding.roundHalfEven (left.raw * 10 ^ 36 / right.raw) precision⟩ := by
    simp only [quotient, chopPrecisionAndRound, scaled, truncated]
  rw [quotientEq, Dec.ext_iff]
  change Rounding.roundHalfEven _ precision = 0 ↔ _
  rw [Rounding.roundHalfEven_eq_zero_iff precision_pos
    (Int.ediv_nonneg scaledNonneg positive.le)]
  generalize left.raw * 10 ^ 36 / right.raw = units
  simp only [precision]
  omega

end Dec

namespace Treasury

variable {L : Type}

/-- Tax was paid in one of the epochs in a denomination whose rate is zero. -/
def AnyZeroPriced (ctx : Context L) (epochs : Finset ℤ) : Prop :=
  ∃ epoch ∈ epochs, ZeroPriced ctx epoch

instance (ctx : Context L) (epochs : Finset ℤ) : Decidable (AnyZeroPriced ctx epochs) :=
  inferInstanceAs (Decidable (∃ epoch ∈ _, _))

/-- Outcomes that fail only for zero rates: one of them fails, or all are values. -/
theorem zeroPriced_cases {ctx : Context L} {outcome : ℤ → Outcome Dec} {value : ℤ → Dec}
    (guarded : ∀ epoch, outcome epoch =
      if ZeroPriced ctx epoch then .error (.panic .divisionByZero) else .ok (value epoch))
    (epochs : Finset ℤ) :
    (AnyZeroPriced ctx epochs ∧ (∃ epoch ∈ epochs, ∃ failure, outcome epoch = .error failure) ∧
        ∀ epoch failure, outcome epoch = .error failure → failure = .panic .divisionByZero) ∨
      (¬AnyZeroPriced ctx epochs ∧ ∀ epoch ∈ epochs, outcome epoch = .ok (value epoch)) := by
  by_cases anyZero : AnyZeroPriced ctx epochs
  · left
    refine ⟨anyZero, ?_, ?_⟩
    · rcases anyZero with ⟨epoch, isEpoch, zeroPriced⟩
      exact ⟨epoch, isEpoch, _, by rw [guarded, if_pos zeroPriced]⟩
    · intro epoch failure failed
      rw [guarded] at failed
      split at failed
      · cases failed
        rfl
      · cases failed
  · right
    refine ⟨anyZero, ?_⟩
    intro epoch isEpoch
    rw [guarded, if_neg fun zeroPriced => anyZero ⟨epoch, isEpoch, zeroPriced⟩]

/-- The rolling average of `TRL` is returned, or a tax was paid at a zero rate. -/
theorem rollingAverage_trl {ctx : Context L} (bonded : 0 < ctx.staking.bondedTokens)
    (epochCount : ℤ) :
    (AnyZeroPriced ctx (window ctx epochCount) ∧
        rollingAverageIndicator ctx epochCount trl = .error (.panic .divisionByZero)) ∨
      (¬AnyZeroPriced ctx (window ctx epochCount) ∧
        ∃ average, rollingAverageIndicator ctx epochCount trl = .ok (average, ctx)) := by
  have computes := trl_computes bonded (window ctx epochCount)
  have guarded (epoch : ℤ) : trlOutcome ctx epoch =
      if ZeroPriced ctx epoch then .error (.panic .divisionByZero)
      else .ok ((taxWorth ctx epoch).quoInt64 ctx.staking.bondedTokens) := rfl
  rcases zeroPriced_cases guarded (window ctx epochCount) with
    ⟨anyZero, fails, onlyDivision⟩ | ⟨noneZero, values⟩
  · rcases computes.rollingAverageIndicator_of_failure rfl fails with
      ⟨epoch, -, failure, failed, done⟩
    rw [onlyDivision epoch failure failed] at done
    exact Or.inl ⟨anyZero, done⟩
  · rcases computes.rollingAverageIndicator_of_values rfl values with
      ⟨average, last, after, done, rfl⟩
    exact Or.inr ⟨noneZero, average, done⟩

/-- The tax policy tests the average that it divides by, so that only a zero
rate of the oracle is divided by. -/
theorem updateTaxPolicy_divides_iff {ctx : Context L} (bonded : 0 < ctx.staking.bondedTokens) :
    updateTaxPolicy ctx = .error (.panic .divisionByZero) ↔
      AnyZeroPriced ctx (window ctx ctx.treasury.params.windowLong) ∨
        AnyZeroPriced ctx (window ctx ctx.treasury.params.windowShort) := by
  have yearly := @rollingAverage_trl L (getTaxRate ctx ctx.getEpoch).2 bonded
    ctx.treasury.params.windowLong
  have monthly := @rollingAverage_trl L (getTaxRate ctx ctx.getEpoch).2 bonded
    ctx.treasury.params.windowShort
  have sameWindow (epochCount : ℤ) :
      window (getTaxRate ctx ctx.getEpoch).2 epochCount = window ctx epochCount := rfl
  have samePriced (epochs : Finset ℤ) :
      AnyZeroPriced (getTaxRate ctx ctx.getEpoch).2 epochs ↔ AnyZeroPriced ctx epochs := by
    simp only [AnyZeroPriced, @zeroPriced_congr L ctx (getTaxRate ctx ctx.getEpoch).2 rfl rfl]
  rw [sameWindow, samePriced] at yearly monthly
  simp only [updateTaxPolicy, taxTarget]
  rcases yearly with ⟨zeroInYear, yearDone⟩ | ⟨noneInYear, tlYear, yearDone⟩
  · simp only [yearDone]
    exact iff_of_true rfl (Or.inl zeroInYear)
  · rcases monthly with ⟨zeroInMonth, monthDone⟩ | ⟨noneInMonth, tlMonth, monthDone⟩
    · simp only [yearDone, monthDone, bind, Except.bind]
      exact iff_of_true trivial (Or.inr zeroInMonth)
    · refine iff_of_false ?_ (by simp [noneInYear, noneInMonth])
      simp only [yearDone, monthDone, bind, Except.bind]
      split
      · next failure targeted =>
          split at targeted
          · cases targeted
          · next nonzero =>
              have divisor : tlMonth.raw ≠ 0 := fun isZero => nonzero (Dec.ext isZero)
              rw [Dec.quo_eq, if_neg divisor] at targeted
              cases targeted
      · simp [pure, Except.pure]

section Rewards

variable [Sdk L]

/-- What the seigniorage rewards of the short window are worth in SDR. -/
def seigniorageTotal (ctx : Context L) : Dec :=
  ⟨∑ epoch ∈ window ctx ctx.treasury.params.windowShort, (seigniorageWorth ctx epoch).raw⟩

/-- What the tax proceeds of the short window are worth in SDR. -/
def taxTotal (ctx : Context L) : Dec :=
  ⟨∑ epoch ∈ window ctx ctx.treasury.params.windowShort, (taxWorth ctx epoch).raw⟩

/-- There are seigniorage rewards, but they are at most about `5 * 10^-19` of all rewards. -/
def BurdenVanishes (ctx : Context L) : Prop :=
  0 < (seigniorageTotal ctx).raw ∧ (seigniorageTotal ctx).raw * 10 ^ 36 <
    (5 * 10 ^ 17 + 1) * ((taxTotal ctx).raw + (seigniorageTotal ctx).raw)

/-- The rewards of all epochs of the short window are amounts of coins. -/
def AllPayable (ctx : Context L) : Prop :=
  ∀ epoch ∈ window ctx ctx.treasury.params.windowShort, Payable ctx epoch

instance (ctx : Context L) : Decidable (BurdenVanishes ctx) :=
  inferInstanceAs (Decidable (_ ∧ _))

instance (ctx : Context L) : Decidable (AllPayable ctx) :=
  inferInstanceAs (Decidable (∀ epoch ∈ _, _))

theorem seigniorageTotal_nonneg (ctx : Context L) : 0 ≤ (seigniorageTotal ctx).raw := by
  simp only [seigniorageTotal]
  apply Finset.sum_nonneg
  intro epoch _
  exact worth_nonneg ctx _

omit [Sdk L] in
theorem taxTotal_nonneg (ctx : Context L) : 0 ≤ (taxTotal ctx).raw := by
  simp only [taxTotal]
  apply Finset.sum_nonneg
  intro epoch _
  exact taxWorth_nonneg ctx epoch

/-- With payable rewards the first sum of the reward policy is returned. -/
theorem sumIndicator_seigniorage {ctx : Context L} (payable : AllPayable ctx) :
    ∃ now, sumIndicator (getRewardWeight ctx ctx.getEpoch).2 ctx.treasury.params.windowShort
        seigniorageRewardsForEpoch = .ok (seigniorageTotal ctx, now) ∧
      Stored ctx (window ctx ctx.treasury.params.windowShort) now := by
  have sameWindow := (Steady.getRewardWeight ctx ctx.getEpoch).window_eq
    ctx.treasury.params.windowShort
  have computes := seigniorageRewardsForEpoch_computes ctx
    (window (getRewardWeight ctx ctx.getEpoch).2 ctx.treasury.params.windowShort)
  have values : ∀ epoch ∈ window (getRewardWeight ctx ctx.getEpoch).2
      ctx.treasury.params.windowShort,
      seigniorageOutcome ctx epoch = .ok (seigniorageWorth ctx epoch) := by
    rw [sameWindow]
    exact fun epoch inWindow => seigniorageOutcome_of_payable (payable epoch inWindow)
  rcases computes.sumIndicator_of_values (Passed.start ctx) values with
    ⟨last, now, done, passed, below⟩
  rw [sameWindow] at done below
  refine ⟨now, done, passed.steady, ?_⟩
  intro epoch inWindow
  exact passed.behind epoch (below epoch inWindow) (mem_visited.mp inWindow).2.2

/-- Otherwise it panics, but not because of a division. -/
theorem sumIndicator_seigniorage_of_not_payable {ctx : Context L} (notPayable : ¬AllPayable ctx) :
    ∃ failure, sumIndicator (getRewardWeight ctx ctx.getEpoch).2 ctx.treasury.params.windowShort
        seigniorageRewardsForEpoch = .error failure ∧ failure ≠ .panic .divisionByZero := by
  have sameWindow := (Steady.getRewardWeight ctx ctx.getEpoch).window_eq
    ctx.treasury.params.windowShort
  have computes := seigniorageRewardsForEpoch_computes ctx
    (window (getRewardWeight ctx ctx.getEpoch).2 ctx.treasury.params.windowShort)
  have fails : ∃ epoch ∈ window (getRewardWeight ctx ctx.getEpoch).2
      ctx.treasury.params.windowShort, ∃ failure,
      seigniorageOutcome ctx epoch = .error failure := by
    rw [sameWindow]
    simp only [AllPayable, not_forall] at notPayable
    rcases notPayable with ⟨epoch, inWindow, notPaid⟩
    rcases seigniorageOutcome_of_not_payable notPaid with ⟨failure, failed, -⟩
    exact ⟨epoch, inWindow, failure, failed⟩
  rcases computes.sumIndicator_of_failure (Passed.start ctx) fails with
    ⟨epoch, -, failure, failed, done⟩
  refine ⟨failure, done, ?_⟩
  by_cases paid : Payable ctx epoch
  · rw [seigniorageOutcome_of_payable paid] at failed
    cases failed
  · rcases seigniorageOutcome_of_not_payable paid with ⟨other, otherFailed, notDivision⟩
    rw [failed] at otherFailed
    cases otherFailed
    exact notDivision

/-- The second sum is returned, or a tax was paid at a zero rate. -/
theorem sumIndicator_mining {ctx now : Context L} (payable : AllPayable ctx)
    (stored : Stored ctx (window ctx ctx.treasury.params.windowShort) now) :
    (AnyZeroPriced ctx (window ctx ctx.treasury.params.windowShort) ∧
        sumIndicator now ctx.treasury.params.windowShort miningRewardForEpoch =
          .error (.panic .divisionByZero)) ∨
      (¬AnyZeroPriced ctx (window ctx ctx.treasury.params.windowShort) ∧
        ∃ after, sumIndicator now ctx.treasury.params.windowShort miningRewardForEpoch =
          .ok ((taxTotal ctx).add (seigniorageTotal ctx), after)) := by
  have sameWindow := stored.steady.window_eq ctx.treasury.params.windowShort
  have computes := miningRewardForEpoch_computes payable
  rw [← sameWindow] at computes
  have start : Stored ctx (window now ctx.treasury.params.windowShort) now := by
    rw [sameWindow]
    exact stored
  have guarded (epoch : ℤ) : miningOutcome ctx epoch =
      if ZeroPriced ctx epoch then .error (.panic .divisionByZero)
      else .ok ((taxWorth ctx epoch).add (seigniorageWorth ctx epoch)) := rfl
  rw [← sameWindow]
  rcases zeroPriced_cases guarded (window now ctx.treasury.params.windowShort) with
    ⟨anyZero, fails, onlyDivision⟩ | ⟨noneZero, values⟩
  · rcases computes.sumIndicator_of_failure start fails with ⟨epoch, -, failure, failed, done⟩
    rw [onlyDivision epoch failure failed] at done
    exact Or.inl ⟨anyZero, done⟩
  · rcases computes.sumIndicator_of_values start values with ⟨last, after, done, -⟩
    refine Or.inr ⟨noneZero, after, done.trans ?_⟩
    rw [sameWindow]
    simp only [Dec.add, Finset.sum_add_distrib, taxTotal, seigniorageTotal]

omit [Sdk L] in
/-- A weight that was never set is a panic of its own. -/
theorem setDec_bind_ne_division {α : Type} (stored : Option Dec) (result : Dec → α) :
    (setDec stored >>= fun weight => pure (result weight)) ≠ .error (.panic .divisionByZero) := by
  cases stored <;> simp [setDec, bind, Except.bind, pure, Except.pure]

/-- The target tests the two sums, but divides by their rounded quotient. -/
theorem rewardTarget_divides_iff {ctx now after : Context L} {seigniorageSum totalSum : Dec}
    (firstDone : sumIndicator (getRewardWeight ctx ctx.getEpoch).2 ctx.treasury.params.windowShort
      seigniorageRewardsForEpoch = .ok (seigniorageSum, now))
    (secondDone : sumIndicator now ctx.treasury.params.windowShort miningRewardForEpoch =
      .ok (totalSum, after))
    (nonneg : 0 ≤ seigniorageSum.raw) (part : seigniorageSum.raw ≤ totalSum.raw) :
    rewardTarget ctx = .error (.panic .divisionByZero) ↔
      0 < seigniorageSum.raw ∧
        seigniorageSum.raw * 10 ^ 36 < (5 * 10 ^ 17 + 1) * totalSum.raw := by
  simp only [rewardTarget, firstDone, secondDone, Outcome.ok_bind]
  split
  · next noRevenues =>
      refine iff_of_false (setDec_bind_ne_division _ _) ?_
      rintro ⟨positive, -⟩
      rcases noRevenues with isZero | isZero
      · have rawZero := congrArg Dec.raw isZero
        simp only [Dec.zero] at rawZero
        omega
      · have rawZero := congrArg Dec.raw isZero
        simp only [Dec.zero] at rawZero
        omega
  · next revenues =>
      have positive : 0 < seigniorageSum.raw :=
        lt_of_le_of_ne nonneg fun isZero => revenues (Or.inr (Dec.ext isZero.symm))
      have totalPositive := lt_of_lt_of_le positive part
      rw [← Dec.quotient_eq_zero_iff nonneg totalPositive, Dec.quo_eq, if_neg totalPositive.ne']
      simp only [positive, true_and, Outcome.ok_bind, Dec.quo_eq, Dec.ext_iff]
      change _ ↔ (seigniorageSum.quotient totalSum).raw = 0
      by_cases vanishes : (seigniorageSum.quotient totalSum).raw = 0
      · simp only [vanishes, if_true]
        exact iff_of_true rfl trivial
      · simp only [vanishes, if_false, Outcome.ok_bind, iff_false]
        exact setDec_bind_ne_division _ _

theorem updateRewardPolicy_divides_iff (ctx : Context L) :
    updateRewardPolicy ctx = .error (.panic .divisionByZero) ↔
      AllPayable ctx ∧ (AnyZeroPriced ctx (window ctx ctx.treasury.params.windowShort) ∨
        BurdenVanishes ctx) := by
  have targets : updateRewardPolicy ctx = .error (.panic .divisionByZero) ↔
      rewardTarget ctx = .error (.panic .divisionByZero) := by
    simp only [updateRewardPolicy]
    cases rewardTarget ctx <;> simp [bind, Except.bind, pure, Except.pure]
  rw [targets]
  by_cases payable : AllPayable ctx
  · rcases sumIndicator_seigniorage payable with ⟨now, firstDone, stored⟩
    rcases sumIndicator_mining payable stored with ⟨anyZero, failed⟩ | ⟨noneZero, after, secondDone⟩
    · refine iff_of_true ?_ ⟨payable, Or.inl anyZero⟩
      simp only [rewardTarget, firstDone, failed, bind, Except.bind]
    · have taxNonneg := taxTotal_nonneg ctx
      simp only [payable, noneZero, true_and, false_or, BurdenVanishes]
      exact rewardTarget_divides_iff firstDone secondDone (seigniorageTotal_nonneg ctx)
        (le_add_of_nonneg_left taxNonneg)
  · refine iff_of_false ?_ fun divides => payable divides.1
    rcases sumIndicator_seigniorage_of_not_payable payable with ⟨failure, failed, notDivision⟩
    simp only [rewardTarget, failed, bind, Except.bind]
    simpa using notDivision

/-- No update divides by zero exactly when no tax of the two windows was paid in a
denomination whose rate is zero, and the seigniorage rewards, if they are payable at
all, are nothing or not too small a part of all rewards. -/
theorem policies_never_divide_iff {ctx : Context L} (bonded : 0 < ctx.staking.bondedTokens) :
    (updateTaxPolicy ctx ≠ .error (.panic .divisionByZero) ∧
        updateRewardPolicy ctx ≠ .error (.panic .divisionByZero)) ↔
      ¬AnyZeroPriced ctx (window ctx ctx.treasury.params.windowLong) ∧
        ¬AnyZeroPriced ctx (window ctx ctx.treasury.params.windowShort) ∧
        ¬(AllPayable ctx ∧ BurdenVanishes ctx) := by
  rw [ne_eq, ne_eq, updateTaxPolicy_divides_iff bonded, updateRewardPolicy_divides_iff, not_or,
    and_assoc]
  refine and_congr_right fun _ => ?_
  constructor
  · rintro ⟨unpriced, never⟩
    exact ⟨unpriced, fun ⟨payable, vanishes⟩ => never ⟨payable, Or.inr vanishes⟩⟩
  · rintro ⟨unpriced, never⟩
    refine ⟨unpriced, ?_⟩
    rintro ⟨payable, anyZero | vanishes⟩
    · exact unpriced anyZero
    · exact never ⟨payable, vanishes⟩

end Rewards

/-- The end of an epoch in which twenty units of Luna were minted and a tax of two
thousand SDR was paid, at a price of Luna in SDR. -/
def sampleRevenues (price : Dec) : Context Book :=
  { sampleTreasury with
    height := 13 * blocksPerEpoch - 1
    mint.issuance := ((∅ : Store (Denom × ℤ) ℕ).insert (microLunaDenom, 0) 1000000).insert
      (microLunaDenom, 84) 1000020
    oracle := sampleTreasury.oracle.setLunaSwapRate microSDRDenom price
    treasury.taxProceeds := (∅ : Store ℤ Coins).insert 12
      ⟨[⟨microSDRDenom, 2000 * microUnit⟩], by decide⟩ }

theorem policies_never_divide_iff_sample :
    0 < (sampleRevenues Dec.one).staking.bondedTokens ∧
      updateTaxPolicy (sampleRevenues Dec.one) ≠ .error (.panic .divisionByZero) ∧
      updateRewardPolicy (sampleRevenues Dec.one) ≠ .error (.panic .divisionByZero) := by
  refine ⟨by decide, (policies_never_divide_iff (by decide)).mpr ?_⟩
  decide +kernel

/-- At a price of `10^-9` the seigniorage rewards are less than `5 * 10^-19` of all
rewards, which is rounded to zero. -/
theorem tiny_burden_divides :
    validateParams (sampleRevenues ⟨10 ^ 9⟩).treasury.params = .ok () ∧
      0 < (sampleRevenues ⟨10 ^ 9⟩).staking.bondedTokens ∧
      updateRewardPolicy (sampleRevenues ⟨10 ^ 9⟩) = .error (.panic .divisionByZero) := by
  refine ⟨by decide, by decide, ?_⟩
  have divides : (updateRewardPolicy (sampleRevenues ⟨10 ^ 9⟩)).map Prod.fst =
      .error (.panic .divisionByZero) := by
    decide +kernel
  cases outcome : updateRewardPolicy (sampleRevenues ⟨10 ^ 9⟩) with
  | ok result =>
      rw [outcome] at divides
      cases divides
  | error failure =>
      rw [outcome] at divides
      cases divides
      rfl

end Treasury

end TerraCore
