import TerraCore.Treasury.Division

/-!
# Where the reward policy aims

The reward policy moves the weight in force towards a target: the weight times
the burden that seigniorage should bear, over the burden that it bears. Here the
target is a formula over the state in which the end blocker starts, from the
seigniorage and the tax proceeds of the short window. The update of the tax
rate, which comes first, does not change it.
-/

namespace TerraCore.Treasury

open Inheritance

variable {L : Type} [Sdk L]

/-- The target of a weight; without seigniorage rewards the largest weight that is allowed. -/
def aimedWeight (ctx : Context L) (weight : Dec) : Dec :=
  if seigniorageTotal ctx = Dec.zero then ctx.treasury.params.rewardPolicy.rateMax
  else
    let burden := (seigniorageTotal ctx).quotient ((taxTotal ctx).add (seigniorageTotal ctx))
    weight.mul (ctx.treasury.params.seigniorageBurdenTarget.quotient burden)

/-- When the policy finds a target, it is this one. -/
theorem rewardTarget_eq_aimed {ctx after : Context L} {old target : Dec}
    (done : rewardTarget ctx = .ok (old, target, after)) : target = aimedWeight ctx old := by
  have payable : AllPayable ctx := by
    by_contra notPayable
    rcases sumIndicator_seigniorage_of_not_payable notPayable with ⟨failure, failed, -⟩
    simp only [rewardTarget, failed, bind, Except.bind] at done
    cases done
  rcases sumIndicator_seigniorage payable with ⟨now, firstDone, stored⟩
  rcases sumIndicator_mining payable stored with ⟨-, failed⟩ | ⟨-, mined, secondDone⟩
  · simp only [rewardTarget, firstDone, failed, bind, Except.bind] at done
    cases done
  · simp only [rewardTarget, firstDone, secondDone, Outcome.ok_bind] at done
    split at done
    · next noRevenues =>
        have nothing : seigniorageTotal ctx = Dec.zero := by
          rcases noRevenues with isZero | isZero
          · have total : (taxTotal ctx).raw + (seigniorageTotal ctx).raw = 0 :=
              congrArg Dec.raw isZero
            have tax := taxTotal_nonneg ctx
            have seigniorage := seigniorageTotal_nonneg ctx
            exact Dec.ext (by change (seigniorageTotal ctx).raw = 0; omega)
          · exact isZero
        rcases Outcome.bind_eq_ok.mp done with ⟨_, -, done⟩
        cases done
        rw [aimedWeight, if_pos nothing]
    · next revenues =>
        rcases Outcome.bind_eq_ok.mp done with ⟨burden, divided, done⟩
        rcases Outcome.bind_eq_ok.mp done with ⟨factor, scaled, done⟩
        rcases Outcome.bind_eq_ok.mp done with ⟨_, -, done⟩
        cases done
        rw [Dec.quo_eq] at divided scaled
        split at divided
        · cases divided
        · cases divided
          split at scaled
          · cases scaled
          · cases scaled
            rw [aimedWeight, if_neg fun isZero => revenues (Or.inr isZero)]

omit [Sdk L] in
theorem weightIn_congr {ctx other : Context L} (height : other.height = ctx.height)
    (rewardWeights : other.treasury.rewardWeights = ctx.treasury.rewardWeights) (period : ℤ) :
    weightIn other period = weightIn ctx period := by
  have sameEpoch : other.getEpoch = ctx.getEpoch := by
    simp only [Context.getEpoch, height]
  have current : (getRewardWeight other ctx.getEpoch).1 = (getRewardWeight ctx ctx.getEpoch).1 :=
    getRewardWeight_congr fun _ _ => by rw [rewardWeights]
  apply getRewardWeight_congr
  intro earlier _
  rw [sameEpoch, getRewardWeight_get, getRewardWeight_get, current, rewardWeights]

/-- The target depends on what the indicators read, on the weights and on the parameters. -/
theorem aimedWeight_congr {ctx other : Context L} (steady : Steady ctx other)
    (params : other.treasury.params = ctx.treasury.params)
    (rewardWeights : other.treasury.rewardWeights = ctx.treasury.rewardWeights) (weight : Dec) :
    aimedWeight other weight = aimedWeight ctx weight := by
  have amount (period : ℤ) : rewardAmount other period = rewardAmount ctx period := by
    simp only [rewardAmount, weightIn_congr steady.height rewardWeights,
      steady.peekEpochSeigniorage_eq]
  have seigniorage : seigniorageTotal other = seigniorageTotal ctx := by
    simp only [seigniorageTotal, params, steady.window_eq, seigniorageWorth, amount,
      steady.worth_eq]
  have tax : taxTotal other = taxTotal ctx := by
    simp only [taxTotal, params, steady.window_eq, taxWorth, coinWorth, peekTaxProceeds,
      steady.taxProceeds, steady.worth_eq]
  simp only [aimedWeight, params, seigniorage, tax]

/-- The end blocker aims where the formula says. -/
theorem weightUpdate_eq_aimed {ctx : Context L} {old target : Dec}
    (aimed : weightUpdate ctx = .ok (old, target)) : target = aimedWeight ctx old := by
  rcases Outcome.bind_eq_ok.mp aimed with ⟨⟨rate, taxed⟩, taxDone, aimed⟩
  rcases Outcome.bind_eq_ok.mp aimed with ⟨⟨_, _, read⟩, targeted, aimed⟩
  cases aimed
  rcases updateTaxPolicy_frame taxDone with ⟨taxRates, rfl⟩
  rw [rewardTarget_eq_aimed targeted]
  have steady : Steady ctx { ctx with treasury := { ctx.treasury with taxRates } } :=
    ⟨rfl, rfl, rfl, fun _ => rfl⟩
  exact aimedWeight_congr steady rfl rfl old

end TerraCore.Treasury
