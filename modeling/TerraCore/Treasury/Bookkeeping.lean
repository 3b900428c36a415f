import TerraCore.Treasury.Policy

/-!
# What the treasury writes

The treasury fills in rates while it reads them and stores new ones at the end
of an epoch, and it takes snapshots of the issuance. Whatever else there is in
the state stays as it is. A loop over epochs writes what the calls of its
indicator write, and the tax policy, whose indicator writes nothing, only the
tax rates.
-/

namespace TerraCore.Treasury

variable {L : Type}

/-- Every call of the indicator stays within a relation. -/
def Within (relation : Context L → Context L → Prop) (indicatorFunction : Indicator L) : Prop :=
  ∀ {ctx after : Context L} {period : ℤ} {value : Dec},
    indicatorFunction ctx period = .ok (value, after) → relation ctx after

namespace Within

variable {relation : Context L → Context L → Prop} [IsPreorder (Context L) relation]
  {indicatorFunction : Indicator L} {ctx after : Context L}

theorem sumEpochs (within : Within relation indicatorFunction) {oldest : ℤ} {remaining : ℕ}
    {i last : ℤ} {sum total : Dec}
    (done : sumEpochs indicatorFunction oldest remaining i sum ctx = .ok (total, last, after)) :
    relation ctx after := by
  induction remaining generalizing i sum ctx with
  | zero =>
      cases done
      exact refl_of relation after
  | succ remaining ih =>
      rw [Treasury.sumEpochs] at done
      split at done
      · rcases Outcome.bind_eq_ok.mp done with ⟨⟨value, read⟩, first, rest⟩
        exact trans_of relation (within first) (ih rest)
      · cases done
        exact refl_of relation after

theorem sumIndicator (within : Within relation indicatorFunction) {epochs : ℤ} {value : Dec}
    (done : sumIndicator ctx epochs indicatorFunction = .ok (value, after)) :
    relation ctx after := by
  rcases Outcome.bind_eq_ok.mp done with ⟨⟨sum, last, summed⟩, sumDone, done⟩
  cases done
  exact within.sumEpochs sumDone

theorem rollingAverageIndicator (within : Within relation indicatorFunction) {epochs : ℤ}
    {value : Dec}
    (done : rollingAverageIndicator ctx epochs indicatorFunction = .ok (value, after)) :
    relation ctx after := by
  rcases Outcome.bind_eq_ok.mp done with ⟨⟨sum, last, summed⟩, sumDone, done⟩
  have within := within.sumEpochs sumDone
  simp only at done
  split at done
  · cases done
    exact within
  · rcases Outcome.bind_eq_ok.mp done with ⟨_, -, done⟩
    cases done
    exact within

end Within

theorem taxRewardsForEpoch_eq_ok {ctx after : Context L} {period : ℤ} {value : Dec}
    (done : taxRewardsForEpoch ctx period = .ok (value, after)) : after = ctx := by
  rcases Outcome.bind_eq_ok.mp done with ⟨_, -, done⟩
  cases done
  rfl

/-- The indicator of the tax policy writes nothing. -/
theorem trl_within : Within (· = ·) (trl : Indicator L) := by
  intro ctx after period value done
  rcases Outcome.bind_eq_ok.mp done with ⟨⟨_, taxed⟩, taxDone, done⟩
  rcases Outcome.bind_eq_ok.mp done with ⟨_, -, done⟩
  cases done
  exact (taxRewardsForEpoch_eq_ok taxDone).symm

/-- The tax policy reads the rate in force, and nothing more. -/
theorem taxTarget_eq_ok {ctx after : Context L} {old new : Dec}
    (done : taxTarget ctx = .ok (old, new, after)) :
    old = (getTaxRate ctx ctx.getEpoch).1 ∧ after = (getTaxRate ctx ctx.getEpoch).2 := by
  simp only [taxTarget] at done
  rcases Outcome.bind_eq_ok.mp done with ⟨⟨tlYear, yearly⟩, yearDone, done⟩
  rcases Outcome.bind_eq_ok.mp done with ⟨⟨tlMonth, monthly⟩, monthDone, done⟩
  have sameYearly := trl_within.rollingAverageIndicator yearDone
  have sameMonthly := trl_within.rollingAverageIndicator monthDone
  subst sameYearly
  subst sameMonthly
  simp only at done
  split at done
  · cases done
    exact ⟨rfl, rfl⟩
  · rcases Outcome.bind_eq_ok.mp done with ⟨_, -, done⟩
    cases done
    exact ⟨rfl, rfl⟩

theorem updateTaxPolicy_frame {ctx after : Context L} {rate : Dec}
    (done : updateTaxPolicy ctx = .ok (rate, after)) :
    ∃ taxRates, after = { ctx with treasury := { ctx.treasury with taxRates } } := by
  rcases Outcome.bind_eq_ok.mp done with ⟨⟨old, new, aimed⟩, target, done⟩
  cases done
  rw [(taxTarget_eq_ok target).2]
  exact ⟨_, rfl⟩

/-- Only the rates and the snapshots of the issuance were written. -/
def Bookkept (before after : Context L) : Prop :=
  ∃ mint taxRates rewardWeights, after =
    { before with mint, treasury := { before.treasury with taxRates, rewardWeights } }

instance : IsPreorder (Context L) Bookkept where
  refl := fun _ => ⟨_, _, _, rfl⟩
  trans := by
    rintro before _ _ ⟨_, _, _, rfl⟩ ⟨mint, taxRates, rewardWeights, rfl⟩
    exact ⟨mint, taxRates, rewardWeights, rfl⟩

theorem getRewardWeight_bookkept (ctx : Context L) (period : ℤ) :
    Bookkept ctx (getRewardWeight ctx period).2 := by
  rcases getRewardWeight_frame ctx period with ⟨rewardWeights, frame⟩
  exact ⟨ctx.mint, ctx.treasury.taxRates, rewardWeights, frame⟩

section Rewards

variable [Sdk L]

theorem peekEpochSeigniorage_bookkept (ctx : Context L) (period : ℤ) :
    Bookkept ctx (Mint.peekEpochSeigniorage ctx period).2 :=
  ⟨(Mint.peekEpochSeigniorage ctx period).2.mint, _, _, rfl⟩

theorem seigniorageRewards_bookkept : Within Bookkept (seigniorageRewardsForEpoch : Indicator L) := by
  intro ctx after period value done
  simp only [seigniorageRewardsForEpoch] at done
  split at done
  · rcases Outcome.bind_eq_ok.mp done with ⟨_, -, done⟩
    cases done
    exact trans_of Bookkept (peekEpochSeigniorage_bookkept ctx period)
      (getRewardWeight_bookkept _ period)
  · cases done

theorem miningReward_bookkept : Within Bookkept (miningRewardForEpoch : Indicator L) := by
  intro ctx after period value done
  rcases Outcome.bind_eq_ok.mp done with ⟨⟨_, taxed⟩, taxDone, done⟩
  rcases Outcome.bind_eq_ok.mp done with ⟨⟨_, rewarded⟩, rewardDone, done⟩
  cases done
  rw [taxRewardsForEpoch_eq_ok taxDone] at rewardDone
  exact seigniorageRewards_bookkept rewardDone

theorem rewardTarget_bookkept {ctx after : Context L} {old new : Dec}
    (done : rewardTarget ctx = .ok (old, new, after)) : Bookkept ctx after := by
  simp only [rewardTarget] at done
  rcases Outcome.bind_eq_ok.mp done with ⟨⟨_, earned⟩, earnedDone, done⟩
  rcases Outcome.bind_eq_ok.mp done with ⟨⟨_, mined⟩, minedDone, done⟩
  have read := getRewardWeight_bookkept ctx ctx.getEpoch
  have earnedKept := seigniorageRewards_bookkept.sumIndicator earnedDone
  have minedKept := miningReward_bookkept.sumIndicator minedDone
  have kept := trans_of Bookkept (trans_of Bookkept read earnedKept) minedKept
  simp only at done
  split at done
  · rcases Outcome.bind_eq_ok.mp done with ⟨_, -, done⟩
    cases done
    exact kept
  · rcases Outcome.bind_eq_ok.mp done with ⟨_, -, done⟩
    rcases Outcome.bind_eq_ok.mp done with ⟨_, -, done⟩
    rcases Outcome.bind_eq_ok.mp done with ⟨_, -, done⟩
    cases done
    exact kept

/-- The end blocker keeps the books, and nothing else. -/
theorem endBlocker_bookkept {before after : Context L} {tags : Tags}
    (done : endBlocker before = .ok (tags, after)) : Bookkept before after := by
  rcases Outcome.bind_eq_ok.mp done with ⟨last, -, done⟩
  split at done
  · split at done
    · cases done
      exact refl_of Bookkept _
    · rcases Outcome.bind_eq_ok.mp done with ⟨⟨_, taxed⟩, taxDone, done⟩
      rcases Outcome.bind_eq_ok.mp done with ⟨⟨_, updated⟩, rewardDone, done⟩
      cases done
      rcases Outcome.bind_eq_ok.mp rewardDone with ⟨⟨_, _, aimed⟩, target, rewardDone⟩
      cases rewardDone
      rcases updateTaxPolicy_frame taxDone with ⟨_, rfl⟩
      rcases rewardTarget_bookkept target with ⟨_, _, _, rfl⟩
      exact ⟨_, _, _, rfl⟩
  · cases done
    exact refl_of Bookkept _

end Rewards

end TerraCore.Treasury
