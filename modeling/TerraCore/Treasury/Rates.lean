import TerraCore.Library.Inheritance
import TerraCore.Library.Transition
import TerraCore.Treasury.Bookkeeping

/-!
# Rates in force

The tax rate and the reward weight of an epoch are inherited values: the getters
fill in what was in effect, and only the end blocker stores something new, for
the epoch that ends. This file says what each function of the treasury does to
the two stores of rates, and derives what holds of the rates in every run.
-/

namespace TerraCore.Treasury

open Inheritance Transition

variable {L : Type}

/-- The current epoch as a natural number. -/
def epoch (ctx : Context L) : ℕ := ctx.height / blocksPerEpoch

theorem getEpoch_eq (ctx : Context L) : ctx.getEpoch = (epoch ctx : ℤ) := rfl

/-- The rates of the first epoch are stored, and none of an epoch to come. -/
structure Grounded (ctx : Context L) : Prop where
  taxRate : ∃ rate, ctx.treasury.taxRates[(0 : ℤ)]? = some rate
  rewardWeight : ∃ weight, ctx.treasury.rewardWeights[(0 : ℤ)]? = some weight
  taxUntil : Until ctx.treasury.taxRates (epoch ctx)
  rewardUntil : Until ctx.treasury.rewardWeights (epoch ctx)

/-- The parameters and the rates are the same. -/
structure SameRates (before after : Context L) : Prop where
  height : after.height = before.height
  params : after.treasury.params = before.treasury.params
  taxRates : after.treasury.taxRates = before.treasury.taxRates
  rewardWeights : after.treasury.rewardWeights = before.treasury.rewardWeights

namespace SameRates

variable {before middle after : Context L}

theorem of_same (height : after.height = before.height)
    (treasury : after.treasury = before.treasury) : SameRates before after := by
  refine ⟨height, ?_, ?_, ?_⟩ <;> rw [treasury]

theorem trans (first : SameRates before middle) (second : SameRates middle after) :
    SameRates before after :=
  ⟨second.height.trans first.height, second.params.trans first.params,
    second.taxRates.trans first.taxRates, second.rewardWeights.trans first.rewardWeights⟩

end SameRates

/-- The treasury has only been read. -/
structure Reads (before after : Context L) : Prop where
  height : after.height = before.height
  params : after.treasury.params = before.treasury.params
  taxRates : Filled before.treasury.taxRates after.treasury.taxRates
  rewardWeights : Filled before.treasury.rewardWeights after.treasury.rewardWeights
  grounded : Grounded before → Grounded after

namespace Reads

variable {before middle after : Context L}

theorem refl (ctx : Context L) : Reads ctx ctx :=
  ⟨rfl, rfl, Filled.refl _, Filled.refl _, id⟩

theorem trans (first : Reads before middle) (second : Reads middle after) : Reads before after :=
  ⟨second.height.trans first.height, second.params.trans first.params,
    first.taxRates.trans second.taxRates, first.rewardWeights.trans second.rewardWeights,
    fun grounded => second.grounded (first.grounded grounded)⟩

theorem epoch_eq (reads : Reads before after) : epoch after = epoch before := by
  rw [epoch, epoch, reads.height]

/-- A call that keeps the height, the parameters and the rates reads nothing. -/
theorem of_sameRates (same : SameRates before after) : Reads before after := by
  rcases same with ⟨sameHeight, sameParams, sameTaxRates, sameWeights⟩
  refine ⟨sameHeight, sameParams, by rw [sameTaxRates]; exact Filled.refl _,
    by rw [sameWeights]; exact Filled.refl _, ?_⟩
  rintro ⟨taxRate, rewardWeight, taxUntil, rewardUntil⟩
  have sameEpoch : epoch after = epoch before := by rw [epoch, epoch, sameHeight]
  constructor
  · rwa [sameTaxRates]
  · rwa [sameWeights]
  · rwa [sameTaxRates, sameEpoch]
  · rwa [sameWeights, sameEpoch]

theorem of_same (sameHeight : after.height = before.height)
    (sameTreasury : after.treasury = before.treasury) : Reads before after :=
  of_sameRates (.of_same sameHeight sameTreasury)

end Reads

/-- The treasury has only been read, and no tax was recorded. -/
structure Peeks (before after : Context L) : Prop extends Reads before after where
  taxProceeds : after.treasury.taxProceeds = before.treasury.taxProceeds

namespace Peeks

variable {before middle after : Context L}

theorem refl (ctx : Context L) : Peeks ctx ctx := ⟨Reads.refl ctx, rfl⟩

theorem trans (first : Peeks before middle) (second : Peeks middle after) : Peeks before after :=
  ⟨first.toReads.trans second.toReads, second.taxProceeds.trans first.taxProceeds⟩

theorem of_same (sameHeight : after.height = before.height)
    (sameTreasury : after.treasury = before.treasury) : Peeks before after :=
  ⟨Reads.of_same sameHeight sameTreasury, by rw [sameTreasury]⟩

end Peeks

/-- The recursion of `GetTaxRate` returns the rate in effect, or the default where there is
none, and fills it in. -/
theorem readTaxRate_spec (rates : Store ℤ Dec) (period : ℕ) :
    (readTaxRate period period rates).1 = valueOr genesisTaxRate rates period ∧
      Agree genesisTaxRate period rates (readTaxRate period period rates).2 ∧
      ∀ (other : ℕ) (rate : Dec), rates[(other : ℤ)]? = some rate →
        (readTaxRate period period rates).2[(other : ℤ)]? = some rate := by
  induction period with
  | zero =>
      have value : valueOr genesisTaxRate rates 0 = (rates[(0 : ℤ)]?).getD genesisTaxRate := rfl
      simp only [readTaxRate, Nat.cast_zero, value]
      cases found : rates[(0 : ℤ)]? with
      | some rate => exact ⟨rfl, Agree.refl rates, fun _ _ stored => stored⟩
      | none =>
          refine ⟨rfl, (Agree.refl rates).fill (by rw [value, found]; rfl), ?_⟩
          intro other rate stored
          have absent : rates[((0 : ℕ) : ℤ)]? = none := found
          exact get_insert_of_absent absent stored genesisTaxRate
  | succ period ih =>
      rcases ih with ⟨value, agree, kept⟩
      cases found : rates[((period + 1 : ℕ) : ℤ)]? with
      | some rate =>
          simp only [readTaxRate, found, valueOr, valueAt_of_present found]
          exact ⟨rfl, Agree.refl rates, fun _ _ stored => stored⟩
      | none =>
          have previous : ((period + 1 : ℕ) : ℤ) - 1 = period := by omega
          have inherited : (readTaxRate period period rates).1 =
              valueOr genesisTaxRate rates (period + 1) := by
            rw [value, valueOr, valueOr, valueAt_of_absent found]
          have absent : (readTaxRate period period rates).2[((period + 1 : ℕ) : ℤ)]? = none :=
            (agree.beyond (period + 1) (Nat.lt_succ_self _)).symm.trans found
          have later := agree.advance (Nat.le_succ period)
          simp only [readTaxRate, found, previous]
          refine ⟨inherited, later.fill (inherited.trans (later.inEffect _ le_rfl)), ?_⟩
          intro other rate stored
          exact get_insert_of_absent absent (kept other rate stored) _

/-- A tax rate that was filled in for an epoch that has come. -/
theorem getTaxRate_spec {ctx : Context L} (grounded : Grounded ctx) {period : ℕ}
    (past : period ≤ epoch ctx) :
    valueAt ctx.treasury.taxRates period = some (getTaxRate ctx period).1 ∧
      Peeks ctx (getTaxRate ctx period).2 := by
  rcases grounded.taxRate with ⟨first, present⟩
  rcases readTaxRate_spec ctx.treasury.taxRates period with ⟨value, agree, kept⟩
  have filled := agree.filled present kept
  refine ⟨?_, ⟨rfl, rfl, filled, Filled.refl _, fun _ => ?_⟩, rfl⟩
  · rcases valueAt_isSome present period with ⟨rate, inEffect⟩
    rw [valueOr, inEffect, Option.getD_some] at value
    rw [inEffect, ← value]
    rfl
  · refine ⟨⟨first, filled.present present⟩, grounded.rewardWeight, ?_, grounded.rewardUntil⟩
    intro later after
    exact (agree.beyond later (lt_of_le_of_lt past after)).symm.trans
      (grounded.taxUntil later after)

/-- Below the first epoch that was asked for, the loop finds stored weights only. -/
theorem searchRewardWeight_of_pos (weights : Store ℤ Dec) {wanted : ℤ} (positive : 0 < wanted)
    (period : ℕ) : searchRewardWeight weights wanted (period + 1) period = valueAt weights period := by
  have notFirst : ¬wanted ≤ 0 := not_le.mpr positive
  induction period with
  | zero =>
      simp only [searchRewardWeight, valueAt, Nat.cast_zero, if_neg notFirst]
      cases weights[(0 : ℤ)]? <;> rfl
  | succ period ih =>
      have previous : ((period + 1 : ℕ) : ℤ) - 1 = period := by omega
      rw [searchRewardWeight, previous, ih, if_neg notFirst, valueAt]
      cases weights[((period + 1 : ℕ) : ℤ)]? <;> rfl

/-- `GetRewardWeight` on any store: the default stands in for the first epoch only. -/
theorem getRewardWeight_fst (ctx : Context L) (period : ℕ) :
    (getRewardWeight ctx period).1 =
      if period = 0 then some (valueOr genesisRewardWeight ctx.treasury.rewardWeights 0)
      else valueAt ctx.treasury.rewardWeights period := by
  have count : ((period : ℤ) + 1).toNat = period + 1 := by omega
  simp only [getRewardWeight, count]
  cases found : ctx.treasury.rewardWeights[(period : ℤ)]? with
  | some weight =>
      rcases Nat.eq_zero_or_pos period with rfl | later
      · simp [valueOr, valueAt_of_present found]
      · rw [if_neg later.ne', valueAt_of_present found]
  | none =>
      rcases Nat.eq_zero_or_pos period with rfl | later
      · have absent : ctx.treasury.rewardWeights[(0 : ℤ)]? = none := found
        simp [searchRewardWeight, valueOr, valueAt, absent]
      · rw [if_neg later.ne']
        exact searchRewardWeight_of_pos _ (by omega) period

/-- `GetRewardWeight` returns the weight in effect and fills it in. -/
theorem getRewardWeight_spec {ctx : Context L} (grounded : Grounded ctx) {period : ℕ}
    (past : period ≤ epoch ctx) :
    (getRewardWeight ctx period).1 = valueAt ctx.treasury.rewardWeights period ∧
      Peeks ctx (getRewardWeight ctx period).2 := by
  rcases grounded.rewardWeight with ⟨first, present⟩
  rcases valueAt_isSome present period with ⟨weight, inEffect⟩
  have value : (getRewardWeight ctx period).1 = some weight := by
    rw [getRewardWeight_fst]
    split
    · next isFirst =>
        subst isFirst
        rw [valueOr, inEffect, Option.getD_some]
    · exact inEffect
  refine ⟨value.trans inEffect.symm, ?_⟩
  simp only [getRewardWeight] at value ⊢
  cases found : ctx.treasury.rewardWeights[(period : ℤ)]? with
  | some stored => exact Peeks.refl ctx
  | none =>
      simp only [found] at value ⊢
      rw [value, Option.getD_some]
      have filled := filled_insert found inEffect
      refine ⟨⟨rfl, rfl, Filled.refl _, filled, fun _ => ?_⟩, rfl⟩
      exact ⟨grounded.taxRate, ⟨first, filled.present present⟩, grounded.taxUntil,
        grounded.rewardUntil.insert past weight⟩

/-- A call of the indicator for an epoch that has come only reads the treasury. -/
def OnlyReads (indicatorFunction : Indicator L) : Prop :=
  ∀ {ctx after : Context L} {period : ℕ} {value : Dec}, Grounded ctx → period ≤ epoch ctx →
    indicatorFunction ctx period = .ok (value, after) → Peeks ctx after

theorem sumEpochs_reads {indicatorFunction : Indicator L} (reads : OnlyReads indicatorFunction)
    {oldest : ℤ} {remaining : ℕ} {i last : ℤ} {sum total : Dec} {ctx after : Context L}
    (grounded : Grounded ctx) (past : i ≤ epoch ctx)
    (done : sumEpochs indicatorFunction oldest remaining i sum ctx = .ok (total, last, after)) :
    Peeks ctx after := by
  induction remaining generalizing i sum ctx with
  | zero =>
      cases done
      exact Peeks.refl _
  | succ remaining ih =>
      rw [sumEpochs] at done
      split at done
      · next inWindow =>
          rcases Outcome.bind_eq_ok.mp done with ⟨⟨value, read⟩, first, rest⟩
          rcases Int.eq_ofNat_of_zero_le inWindow.1 with ⟨period, rfl⟩
          have firstReads := reads grounded (by exact_mod_cast past) first
          refine firstReads.trans (ih (firstReads.grounded grounded) ?_ rest)
          rw [firstReads.epoch_eq]
          omega
      · cases done
        exact Peeks.refl _

theorem sumIndicator_reads {indicatorFunction : Indicator L} (reads : OnlyReads indicatorFunction)
    {ctx after : Context L} {epochs : ℤ} {value : Dec} (grounded : Grounded ctx)
    (done : sumIndicator ctx epochs indicatorFunction = .ok (value, after)) : Peeks ctx after := by
  rcases Outcome.bind_eq_ok.mp done with ⟨⟨sum, last, summed⟩, sumDone, done⟩
  cases done
  exact sumEpochs_reads reads grounded (getEpoch_eq ctx).le sumDone

section Rewards

variable [Sdk L]

theorem seigniorageRewardsForEpoch_reads :
    OnlyReads (seigniorageRewardsForEpoch : Indicator L) := by
  intro ctx after period value grounded past done
  have peeked : Peeks ctx (Mint.peekEpochSeigniorage ctx period).2 := Peeks.of_same rfl rfl
  have read := (getRewardWeight_spec (peeked.grounded grounded) past).2
  simp only [seigniorageRewardsForEpoch] at done
  split at done
  · rcases Outcome.bind_eq_ok.mp done with ⟨_, -, done⟩
    cases done
    exact peeked.trans read
  · cases done

theorem miningRewardForEpoch_reads : OnlyReads (miningRewardForEpoch : Indicator L) := by
  intro ctx after period value grounded past done
  rcases Outcome.bind_eq_ok.mp done with ⟨⟨taxRewards, taxed⟩, taxDone, done⟩
  rcases Outcome.bind_eq_ok.mp done with ⟨⟨rewards, rewarded⟩, rewardDone, done⟩
  cases done
  have taxedEq := taxRewardsForEpoch_eq_ok taxDone
  subst taxedEq
  exact seigniorageRewardsForEpoch_reads grounded past rewardDone

theorem setDec_eq_ok {stored : Option Dec} {value : Dec} :
    setDec stored = .ok value ↔ stored = some value := by
  cases stored <;> simp [setDec]

theorem rewardTarget_eq_ok {ctx after : Context L} {old new : Dec} (grounded : Grounded ctx)
    (done : rewardTarget ctx = .ok (old, new, after)) :
    valueAt ctx.treasury.rewardWeights (epoch ctx) = some old ∧ Peeks ctx after := by
  rcases getRewardWeight_spec grounded (le_refl (epoch ctx)) with ⟨value, weightReads⟩
  simp only [rewardTarget] at done
  rcases Outcome.bind_eq_ok.mp done with ⟨⟨seigniorageSum, first⟩, firstDone, done⟩
  rcases Outcome.bind_eq_ok.mp done with ⟨⟨totalSum, second⟩, secondDone, done⟩
  have firstReads := sumIndicator_reads seigniorageRewardsForEpoch_reads
    (weightReads.grounded grounded) firstDone
  have secondReads := sumIndicator_reads miningRewardForEpoch_reads
    (firstReads.grounded (weightReads.grounded grounded)) secondDone
  have allReads := (weightReads.trans firstReads).trans secondReads
  have readEq {oldWeight : Dec} (isSet : setDec (getRewardWeight ctx ctx.getEpoch).1 = .ok oldWeight) :
      valueAt ctx.treasury.rewardWeights (epoch ctx) = some oldWeight := by
    rw [← value]
    exact setDec_eq_ok.mp isSet
  simp only at done
  split at done
  · rcases Outcome.bind_eq_ok.mp done with ⟨oldWeight, isSet, done⟩
    cases done
    exact ⟨readEq isSet, allReads⟩
  · rcases Outcome.bind_eq_ok.mp done with ⟨_, -, done⟩
    rcases Outcome.bind_eq_ok.mp done with ⟨_, -, done⟩
    rcases Outcome.bind_eq_ok.mp done with ⟨oldWeight, isSet, done⟩
    cases done
    exact ⟨readEq isSet, allReads⟩

/-- The two rates that the treasury moves. -/
inductive Lever where
  | tax
  | reward
deriving DecidableEq

def Lever.rates : Lever → TreasuryStore → Store ℤ Dec
  | .tax, store => store.taxRates
  | .reward, store => store.rewardWeights

def Lever.policy : Lever → Params → PolicyConstraints
  | .tax, params => params.taxPolicy
  | .reward, params => params.rewardPolicy

omit [Sdk L] in
theorem Reads.valueAt_eq {before after : Context L} (reads : Reads before after) (lever : Lever)
    (period : ℕ) :
    valueAt (lever.rates after.treasury) period = valueAt (lever.rates before.treasury) period := by
  cases lever with
  | tax => exact reads.taxRates.valueAt_eq period
  | reward => exact reads.rewardWeights.valueAt_eq period

/-- The end blocker updates the policy: at the last block of an epoch that is
not in the probation period. -/
def Updates (ctx : Context L) : Prop :=
  ctx.LastBlock blocksPerEpoch ∧ ¬IsProbationPeriod ctx

/-- One of the rates has moved, in the current epoch, to a clamped target. -/
structure Moved (lever : Lever) (ctx after : Context L) (old target : Dec) : Prop where
  before : valueAt (lever.rates ctx.treasury) (epoch ctx) = some old
  now : valueAt (lever.rates after.treasury) (epoch ctx) =
    some ((lever.policy ctx.treasury.params).clamp old target)
  past : ∀ period < epoch ctx,
    valueAt (lever.rates after.treasury) period = valueAt (lever.rates ctx.treasury) period

omit [Sdk L] in
theorem Grounded.setTaxRate {ctx : Context L} (grounded : Grounded ctx) (rate : Dec) :
    Grounded (setTaxRate ctx rate) := by
  refine ⟨?_, grounded.rewardWeight, grounded.taxUntil.insert le_rfl rate, grounded.rewardUntil⟩
  rcases grounded.taxRate with ⟨first, present⟩
  change ∃ found, (ctx.treasury.taxRates.insert (epoch ctx : ℤ) rate)[((0 : ℕ) : ℤ)]? = some found
  rw [get_insert_natCast]
  split
  · exact ⟨rate, rfl⟩
  · exact ⟨first, present⟩

omit [Sdk L] in
theorem Grounded.setRewardWeight {ctx : Context L} (grounded : Grounded ctx) (weight : Dec) :
    Grounded (setRewardWeight ctx weight) := by
  refine ⟨grounded.taxRate, ?_, grounded.taxUntil, grounded.rewardUntil.insert le_rfl weight⟩
  rcases grounded.rewardWeight with ⟨first, present⟩
  change ∃ found,
    (ctx.treasury.rewardWeights.insert (epoch ctx : ℤ) weight)[((0 : ℕ) : ℤ)]? = some found
  rw [get_insert_natCast]
  split
  · exact ⟨weight, rfl⟩
  · exact ⟨first, present⟩

omit [Sdk L] in
/-- `updateTaxPolicy` moves the tax rate and nothing else. -/
theorem updateTaxPolicy_eq_ok {ctx after : Context L} {rate : Dec} (grounded : Grounded ctx)
    (done : updateTaxPolicy ctx = .ok (rate, after)) :
    after.height = ctx.height ∧ after.treasury.params = ctx.treasury.params ∧ Grounded after ∧
      Filled ctx.treasury.rewardWeights after.treasury.rewardWeights ∧
      after.treasury.taxProceeds = ctx.treasury.taxProceeds ∧
      ∃ old target, Moved .tax ctx after old target := by
  rcases Outcome.bind_eq_ok.mp done with ⟨⟨old, target, read⟩, targeted, done⟩
  cases done
  have readEq : valueAt ctx.treasury.taxRates (epoch ctx) = some old ∧ Peeks ctx read := by
    rcases taxTarget_eq_ok targeted with ⟨rfl, rfl⟩
    exact getTaxRate_spec grounded (le_refl (epoch ctx))
  rcases readEq with ⟨readEq, reads⟩
  have sameEpoch : epoch read = epoch ctx := reads.epoch_eq
  refine ⟨reads.height, reads.params, (reads.grounded grounded).setTaxRate _,
    reads.rewardWeights, reads.taxProceeds, old, target, readEq, ?_, ?_⟩
  · rw [← sameEpoch]
    exact valueAt_insert_self read.treasury.taxRates (epoch read) _
  · intro period before
    rw [← sameEpoch] at before
    exact (valueAt_insert_of_lt read.treasury.taxRates _ before).trans
      (reads.valueAt_eq .tax period)

/-- `updateRewardPolicy` moves the reward weight and nothing else. -/
theorem updateRewardPolicy_eq_ok {ctx after : Context L} {weight : Dec} (grounded : Grounded ctx)
    (done : updateRewardPolicy ctx = .ok (weight, after)) :
    after.height = ctx.height ∧ after.treasury.params = ctx.treasury.params ∧ Grounded after ∧
      Filled ctx.treasury.taxRates after.treasury.taxRates ∧
      after.treasury.taxProceeds = ctx.treasury.taxProceeds ∧
      ∃ old target read, rewardTarget ctx = .ok (old, target, read) ∧
        Moved .reward ctx after old target := by
  rcases Outcome.bind_eq_ok.mp done with ⟨⟨old, target, read⟩, targeted, done⟩
  cases done
  rcases rewardTarget_eq_ok grounded targeted with ⟨readEq, reads⟩
  have sameEpoch : epoch read = epoch ctx := reads.epoch_eq
  refine ⟨reads.height, reads.params, (reads.grounded grounded).setRewardWeight _,
    reads.taxRates, reads.taxProceeds, old, target, read, targeted, readEq, ?_, ?_⟩
  · rw [← sameEpoch]
    exact valueAt_insert_self read.treasury.rewardWeights (epoch read) _
  · intro period before
    rw [← sameEpoch] at before
    exact (valueAt_insert_of_lt read.treasury.rewardWeights _ before).trans
      (reads.valueAt_eq .reward period)

/-- The current reward weight and the weight aimed at, as the end blocker computes
them, after the tax rate was updated. -/
def weightUpdate (ctx : Context L) : Outcome (Dec × Dec) := do
  let (_, taxed) ← updateTaxPolicy ctx
  let (oldWeight, newRewardWeight, _) ← rewardTarget taxed
  pure (oldWeight, newRewardWeight)

/-- What the end blocker does when it updates the policy. -/
structure PolicyUpdate (ctx after : Context L) : Prop where
  updates : Updates ctx
  height : after.height = ctx.height
  params : after.treasury.params = ctx.treasury.params
  grounded : Grounded after
  taxProceeds : after.treasury.taxProceeds = ctx.treasury.taxProceeds
  tax : ∃ old target, Moved .tax ctx after old target
  reward : ∃ old target, weightUpdate ctx = .ok (old, target) ∧ Moved .reward ctx after old target

theorem PolicyUpdate.moved {ctx after : Context L} (update : PolicyUpdate ctx after)
    (lever : Lever) : ∃ old target, Moved lever ctx after old target := by
  cases lever with
  | tax => exact update.tax
  | reward =>
      rcases update.reward with ⟨old, target, -, moved⟩
      exact ⟨old, target, moved⟩

/-- The end blocker updates the policy, or does nothing. -/
theorem endBlocker_cases {ctx after : Context L} {tags : Tags} (grounded : Grounded ctx)
    (done : endBlocker ctx = .ok (tags, after)) :
    (¬Updates ctx ∧ after = ctx) ∨ PolicyUpdate ctx after := by
  have nonzero : (blocksPerEpoch : ℤ) ≠ 0 := by decide
  simp only [endBlocker, Context.isPeriodLastBlock_eq ctx nonzero] at done
  by_cases last : ctx.LastBlock blocksPerEpoch
  · by_cases probation : IsProbationPeriod ctx
    · simp only [last, probation, decide_true, if_true, bind, Except.bind] at done
      cases done
      exact Or.inl ⟨fun updates => updates.2 probation, rfl⟩
    · right
      simp only [last, probation, decide_true, if_false] at done
      rcases Outcome.bind_eq_ok.mp done with ⟨isLast, lastEq, done⟩
      cases lastEq
      rcases Outcome.bind_eq_ok.mp done with ⟨⟨rate, taxed⟩, taxDone, done⟩
      rcases Outcome.bind_eq_ok.mp done with ⟨⟨weight, rewarded⟩, rewardDone, done⟩
      cases done
      rcases updateTaxPolicy_eq_ok grounded taxDone with
        ⟨taxHeight, taxParams, taxGrounded, taxFilled, taxProceeds, oldRate, rateTarget, rateMoved⟩
      rcases updateRewardPolicy_eq_ok taxGrounded rewardDone with
        ⟨rewardHeight, rewardParams, rewardGrounded, rewardFilled, rewardProceeds, oldWeight,
          weightTarget, read, targeted, weightMoved⟩
      have sameEpoch : epoch taxed = epoch ctx := by rw [epoch, epoch, taxHeight]
      refine ⟨⟨last, probation⟩, rewardHeight.trans taxHeight, rewardParams.trans taxParams,
        rewardGrounded, rewardProceeds.trans taxProceeds, ⟨oldRate, rateTarget, rateMoved.before, ?_, ?_⟩,
        oldWeight, weightTarget, ?_, ?_, ?_, ?_⟩
      · exact (rewardFilled.valueAt_eq _).trans rateMoved.now
      · intro period before
        exact (rewardFilled.valueAt_eq _).trans (rateMoved.past period before)
      · simp only [weightUpdate, taxDone, targeted, bind, Except.bind]
        rfl
      · rw [← sameEpoch, ← weightMoved.before]
        exact (taxFilled.valueAt_eq _).symm
      · have now := weightMoved.now
        rw [sameEpoch, taxParams] at now
        exact now
      · intro period before
        rw [← sameEpoch] at before
        exact (weightMoved.past period before).trans (taxFilled.valueAt_eq period)
  · simp only [last, decide_false, bind, Except.bind] at done
    cases done
    exact Or.inl ⟨fun updates => last updates.1, rfl⟩

end Rewards

end TerraCore.Treasury
