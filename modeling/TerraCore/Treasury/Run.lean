import TerraCore.Treasury.Genesis

/-!
# Runs of the treasury

Between two end blockers the other modules may do what they like with their own
state, the tax proceeds and the tax caps. They only read the rates. So the rates
in force change at the end of an epoch at most, by a clamped step, and stay in
the range of their policies.
-/

namespace TerraCore.Treasury

open Inheritance Transition

variable {L : Type}

namespace PolicyConstraints

variable {policy : PolicyConstraints} {prevRate newRate : Dec}

/-- The rate clamped to the range of the policy alone. -/
def ranged (policy : PolicyConstraints) (rate : Dec) : Dec :=
  if rate < policy.rateMin then policy.rateMin
  else if policy.rateMax < rate then policy.rateMax
  else rate

theorem ranged_inRange (ordered : policy.rateMin ≤ policy.rateMax) (rate : Dec) :
    policy.InRange (policy.ranged rate) := by
  simp only [ranged]
  split
  · exact ⟨le_refl policy.rateMin.raw, ordered⟩
  · next notBelow =>
      split
      · exact ⟨ordered, le_refl policy.rateMax.raw⟩
      · next notAbove => exact ⟨Int.not_lt.mp notBelow, Int.not_lt.mp notAbove⟩

/-- The clamped rate is the one in range, or one largest step towards it. -/
theorem clamp_cases (policy : PolicyConstraints) (prevRate newRate : Dec) :
    (policy.clamp prevRate newRate = policy.ranged newRate ∧
        |(policy.ranged newRate).raw - prevRate.raw| ≤ policy.changeRateMax.raw) ∨
      (policy.changeRateMax.raw < (policy.ranged newRate).raw - prevRate.raw ∧
        policy.clamp prevRate newRate = prevRate.add policy.changeRateMax) ∨
      (policy.changeRateMax.raw < |(policy.ranged newRate).raw - prevRate.raw| ∧
        (policy.ranged newRate).raw ≤ prevRate.raw ∧
        policy.clamp prevRate newRate = prevRate.sub policy.changeRateMax) := by
  have unfolded : policy.clamp prevRate newRate =
      if prevRate < policy.ranged newRate then
        if policy.changeRateMax < (policy.ranged newRate).sub prevRate then
          prevRate.add policy.changeRateMax
        else policy.ranged newRate
      else if policy.changeRateMax < ((policy.ranged newRate).sub prevRate).abs then
        prevRate.sub policy.changeRateMax
      else policy.ranged newRate := rfl
  rw [unfolded]
  generalize policy.ranged newRate = rate
  split
  · next rises =>
      have upwards : prevRate.raw < rate.raw := rises
      split
      · next large => exact Or.inr (Or.inl ⟨large, rfl⟩)
      · next small =>
          left
          refine ⟨rfl, ?_⟩
          rw [abs_of_pos (by omega)]
          exact Int.not_lt.mp small
  · next falls =>
      split
      · next large => exact Or.inr (Or.inr ⟨large, Int.not_lt.mp falls, rfl⟩)
      · next small => exact Or.inl ⟨rfl, Int.not_lt.mp small⟩

/-- A clamped rate is in range when the previous one was. -/
theorem clamp_inRange (stepNonneg : Dec.zero ≤ policy.changeRateMax)
    (inRange : policy.InRange prevRate) : policy.InRange (policy.clamp prevRate newRate) := by
  have stepNonneg : 0 ≤ policy.changeRateMax.raw := stepNonneg
  have lower : policy.rateMin.raw ≤ prevRate.raw := inRange.lower
  have upper : prevRate.raw ≤ policy.rateMax.raw := inRange.upper
  have ranged : policy.InRange (policy.ranged newRate) := ranged_inRange (lower.trans upper) newRate
  have rangedLower : policy.rateMin.raw ≤ (policy.ranged newRate).raw := ranged.lower
  have rangedUpper : (policy.ranged newRate).raw ≤ policy.rateMax.raw := ranged.upper
  rcases clamp_cases policy prevRate newRate with ⟨eq, _⟩ | ⟨large, eq⟩ | ⟨large, falls, eq⟩
  · rw [eq]
    exact ranged
  · rw [eq]
    refine ⟨?_, ?_⟩
    · change policy.rateMin.raw ≤ prevRate.raw + policy.changeRateMax.raw
      omega
    · change prevRate.raw + policy.changeRateMax.raw ≤ policy.rateMax.raw
      omega
  · rw [eq]
    rw [abs_of_nonpos (by omega)] at large
    refine ⟨?_, ?_⟩
    · change policy.rateMin.raw ≤ prevRate.raw - policy.changeRateMax.raw
      omega
    · change prevRate.raw - policy.changeRateMax.raw ≤ policy.rateMax.raw
      omega

/-- A clamped rate is at most the largest step away from the previous one. -/
theorem clamp_step (stepNonneg : Dec.zero ≤ policy.changeRateMax) :
    ((policy.clamp prevRate newRate).sub prevRate).abs ≤ policy.changeRateMax := by
  have stepNonneg : 0 ≤ policy.changeRateMax.raw := stepNonneg
  change |(policy.clamp prevRate newRate).raw - prevRate.raw| ≤ policy.changeRateMax.raw
  rcases clamp_cases policy prevRate newRate with ⟨eq, small⟩ | ⟨_, eq⟩ | ⟨_, _, eq⟩
  · rw [eq]
    exact small
  · rw [eq, Dec.add, add_sub_cancel_left, abs_of_nonneg stepNonneg]
  · rw [eq, Dec.sub, sub_sub_cancel_left, abs_neg, abs_of_nonneg stepNonneg]

end PolicyConstraints

/-- Everything that the other modules may change between two calls of the treasury. -/
structure Surroundings (L : Type) where
  ledger : L
  staking : Staking
  mint : MintStore
  oracle : OracleStore
  market : Market.Params
  budget : BudgetStore
  taxCaps : Store Denom ℤ
  taxProceeds : Store ℤ Coins

def Surroundings.surround (surroundings : Surroundings L) (ctx : Context L) : Context L where
  height := ctx.height
  ledger := surroundings.ledger
  staking := surroundings.staking
  mint := surroundings.mint
  oracle := surroundings.oracle
  market := surroundings.market
  treasury := { ctx.treasury with
    taxCaps := surroundings.taxCaps
    taxProceeds := surroundings.taxProceeds }
  budget := surroundings.budget

inductive Event (L : Type) where
  | elsewhere (surroundings : Surroundings L)
  | readTaxRate (period : ℕ)
  | readRewardWeight (period : ℕ)
  | endBlock

section Runs

variable [Sdk L]

/-- One event. The end blocker finishes the block, unless it panics. -/
def step (ctx : Context L) : Event L → Option (Context L)
  | .elsewhere surroundings => some (surroundings.surround ctx)
  | .readTaxRate period =>
      if period ≤ epoch ctx then some (getTaxRate ctx period).2 else none
  | .readRewardWeight period =>
      if period ≤ epoch ctx then some (getRewardWeight ctx period).2 else none
  | .endBlock =>
      match endBlocker ctx with
      | .ok (_, after) => some { after with height := after.height + 1 }
      | .error _ => none

/-- The rate in force: what the getter returns for the current epoch. -/
def Lever.inForce (lever : Lever) (ctx : Context L) : Option Dec :=
  match lever with
  | .tax => some (getTaxRate ctx ctx.getEpoch).1
  | .reward => (getRewardWeight ctx ctx.getEpoch).1

omit [Sdk L] in
theorem inForce_eq {ctx : Context L} (grounded : Grounded ctx) (lever : Lever) :
    lever.inForce ctx = valueAt (lever.rates ctx.treasury) (epoch ctx) := by
  cases lever with
  | tax => exact (getTaxRate_spec grounded le_rfl).1.symm
  | reward => exact (getRewardWeight_spec grounded le_rfl).1

/-- What one event does to the rates. -/
inductive Effect (ctx next : Context L) : Event L → Prop where
  | reads {event : Event L} (notEnd : event ≠ .endBlock) (reads : Reads ctx next) :
      Effect ctx next event
  | block {after : Context L} (done : after = ctx ∧ ¬Updates ctx ∨ PolicyUpdate ctx after)
      (nextEq : next = { after with height := after.height + 1 }) : Effect ctx next .endBlock

theorem step_effect {ctx next : Context L} {event : Event L} (grounded : Grounded ctx)
    (taken : step ctx event = some next) : Effect ctx next event := by
  cases event with
  | elsewhere surroundings =>
      cases taken
      refine .reads (by simp) ⟨rfl, rfl, Filled.refl _, Filled.refl _, ?_⟩
      rintro ⟨taxRate, rewardWeight, taxUntil, rewardUntil⟩
      exact ⟨taxRate, rewardWeight, taxUntil, rewardUntil⟩
  | readTaxRate period =>
      simp only [step] at taken
      split at taken
      · next past =>
          cases taken
          exact .reads (by simp) (getTaxRate_spec grounded past).2.toReads
      · cases taken
  | readRewardWeight period =>
      simp only [step] at taken
      split at taken
      · next past =>
          cases taken
          exact .reads (by simp) (getRewardWeight_spec grounded past).2.toReads
      · cases taken
  | endBlock =>
      simp only [step] at taken
      split at taken
      · next tags after done =>
          cases taken
          refine .block ?_ rfl
          rcases endBlocker_cases grounded done with ⟨notUpdates, afterEq⟩ | update
          · exact Or.inl ⟨afterEq, notUpdates⟩
          · exact Or.inr update
      · cases taken

omit [Sdk L] in
theorem epoch_succ (ctx : Context L) :
    epoch { ctx with height := ctx.height + 1 } =
      if ctx.LastBlock blocksPerEpoch then epoch ctx + 1 else epoch ctx := by
  have lastIff := ctx.lastBlock_natCast blocksPerEpoch
  change (ctx.height + 1) / blocksPerEpoch = _
  rw [Nat.succ_div, ← epoch]
  by_cases last : ctx.LastBlock blocksPerEpoch
  · rw [if_pos last, if_pos (Nat.dvd_of_mod_eq_zero (lastIff.mp last))]
  · rw [if_neg last, if_neg fun divides => last (lastIff.mpr (Nat.mod_eq_zero_of_dvd divides)),
      add_zero]

omit [Sdk L] in
theorem Grounded.succ {ctx : Context L} (grounded : Grounded ctx) :
    Grounded { ctx with height := ctx.height + 1 } := by
  have order : epoch ctx ≤ epoch { ctx with height := ctx.height + 1 } := by
    rw [epoch_succ]
    split <;> omega
  exact ⟨grounded.taxRate, grounded.rewardWeight, grounded.taxUntil.mono order,
    grounded.rewardUntil.mono order⟩

omit [Sdk L] in
theorem Grounded.until {ctx : Context L} (grounded : Grounded ctx) (lever : Lever) :
    Until (lever.rates ctx.treasury) (epoch ctx) := by
  cases lever with
  | tax => exact grounded.taxUntil
  | reward => exact grounded.rewardUntil

omit [Sdk L] in
/-- The next block inherits the rates. -/
theorem Grounded.valueAt_succ {ctx : Context L} (grounded : Grounded ctx) (lever : Lever) :
    valueAt (lever.rates ctx.treasury) (epoch { ctx with height := ctx.height + 1 }) =
      valueAt (lever.rates ctx.treasury) (epoch ctx) := by
  apply (grounded.until lever).valueAt_eq
  rw [epoch_succ]
  split <;> omega

/-- The rates of the current epoch are in the range of their policies. -/
structure Sound (data : GenesisState) (ctx : Context L) : Prop where
  grounded : Grounded ctx
  params : ctx.treasury.params = data.params
  inRange : ∀ lever : Lever, ∃ rate,
    valueAt (lever.rates ctx.treasury) (epoch ctx) = some rate ∧
      (lever.policy data.params).InRange rate

/-- What one event does to a rate in force: within an epoch nothing, and at the
end of one a step that the policy allows. -/
inductive RateStep (lever : Lever) (policy : PolicyConstraints) (ctx next : Context L)
    (event : Event L) : Prop where
  | same (sameEpoch : epoch next = epoch ctx)
      (sameRate : valueAt (lever.rates next.treasury) (epoch next) =
        valueAt (lever.rates ctx.treasury) (epoch ctx))
  | turn (old new : Dec) (isEnd : event = .endBlock) (last : ctx.LastBlock blocksPerEpoch)
      (nextEpoch : epoch next = epoch ctx + 1)
      (oldEq : valueAt (lever.rates ctx.treasury) (epoch ctx) = some old)
      (newEq : valueAt (lever.rates next.treasury) (epoch next) = some new)
      (step : (new.sub old).abs ≤ policy.changeRateMax)
      (probation : new ≠ old → ¬IsProbationPeriod ctx)

/-- The rates after an end blocker, before the next block begins. -/
theorem block_rates {data : GenesisState} {ctx after : Context L}
    (stepNonneg : ∀ lever : Lever, Dec.zero ≤ (lever.policy data.params).changeRateMax)
    (sound : Sound data ctx)
    (done : after = ctx ∧ ¬Updates ctx ∨ PolicyUpdate ctx after) (lever : Lever) :
    ∃ old new, valueAt (lever.rates ctx.treasury) (epoch ctx) = some old ∧
      valueAt (lever.rates after.treasury) (epoch ctx) = some new ∧
      (lever.policy data.params).InRange new ∧
      (new.sub old).abs ≤ (lever.policy data.params).changeRateMax ∧
      (new ≠ old → Updates ctx) := by
  rcases sound.inRange lever with ⟨old, oldEq, inRange⟩
  rcases done with ⟨afterEq, -⟩ | update
  · rw [afterEq]
    refine ⟨old, old, oldEq, oldEq, inRange, ?_, fun different => absurd rfl different⟩
    change |old.raw - old.raw| ≤ _
    rw [sub_self, abs_zero]
    exact stepNonneg lever
  · rcases update.moved lever with ⟨previous, target, moved⟩
    have previousEq : previous = old := Option.some.inj (moved.before.symm.trans oldEq)
    subst previousEq
    have now := moved.now
    rw [sound.params] at now
    exact ⟨previous, _, oldEq, now, PolicyConstraints.clamp_inRange (stepNonneg lever) inRange,
      PolicyConstraints.clamp_step (stepNonneg lever), fun _ => update.updates⟩

theorem step_sound {data : GenesisState} {ctx next : Context L} {event : Event L}
    (stepNonneg : ∀ lever : Lever, Dec.zero ≤ (lever.policy data.params).changeRateMax)
    (sound : Sound data ctx) (taken : step ctx event = some next) :
    Sound data next ∧
      ∀ lever : Lever, RateStep lever (lever.policy data.params) ctx next event := by
  cases step_effect sound.grounded taken with
  | reads notEnd reads =>
      have sameRate : ∀ lever : Lever, valueAt (lever.rates next.treasury) (epoch next) =
          valueAt (lever.rates ctx.treasury) (epoch ctx) := by
        intro lever
        rw [reads.epoch_eq, reads.valueAt_eq]
      refine ⟨⟨reads.grounded sound.grounded, reads.params.trans sound.params, ?_⟩, ?_⟩
      · intro lever
        rw [sameRate]
        exact sound.inRange lever
      · intro lever
        exact .same reads.epoch_eq (sameRate lever)
  | @block after done nextEq =>
      subst nextEq
      have kept : after.height = ctx.height ∧ after.treasury.params = ctx.treasury.params ∧
          Grounded after := by
        rcases done with ⟨rfl, -⟩ | update
        · exact ⟨rfl, rfl, sound.grounded⟩
        · exact ⟨update.height, update.params, update.grounded⟩
      rcases kept with ⟨sameHeight, sameParams, grounded⟩
      have sameEpoch : epoch after = epoch ctx := by rw [epoch, epoch, sameHeight]
      have lastIff : after.LastBlock blocksPerEpoch ↔ ctx.LastBlock blocksPerEpoch := by
        rw [Context.LastBlock, Context.LastBlock, sameHeight]
      have rates := block_rates stepNonneg sound done
      have nextRate : ∀ lever : Lever,
          valueAt (lever.rates after.treasury) (epoch { after with height := after.height + 1 }) =
            valueAt (lever.rates after.treasury) (epoch ctx) := by
        intro lever
        rw [grounded.valueAt_succ, sameEpoch]
      refine ⟨⟨grounded.succ, sameParams.trans sound.params, ?_⟩, ?_⟩
      · intro lever
        rcases rates lever with ⟨old, new, -, newEq, inRange, -⟩
        exact ⟨new, (nextRate lever).trans newEq, inRange⟩
      · intro lever
        rcases rates lever with ⟨old, new, oldEq, newEq, -, small, updated⟩
        have nextEpoch := epoch_succ after
        by_cases last : ctx.LastBlock blocksPerEpoch
        · rw [if_pos (lastIff.mpr last), sameEpoch] at nextEpoch
          exact .turn old new rfl last nextEpoch oldEq ((nextRate lever).trans newEq) small
            fun different => (updated different).2
        · rw [if_neg fun isLast => last (lastIff.mp isLast), sameEpoch] at nextEpoch
          have newOld : new = old := by
            by_contra different
            exact last (updated different).1
          refine .same nextEpoch ?_
          rw [oldEq, ← newOld]
          exact (nextRate lever).trans newEq

omit [Sdk L] in
theorem Fresh.sound {data : GenesisState} {start : Context L} (fresh : Fresh data start)
    (accepted : validateGenesis data = .ok ()) : Sound data start :=
  ⟨fresh.grounded, by rw [fresh.treasury]; rfl, fun lever =>
    ⟨_, fresh.valueAt_eq lever, (inRange_of_validateGenesis accepted lever).1⟩⟩

/-- How far a rate in force can be from an earlier one: as long as the epoch
lasts nowhere, and in the next epoch one step. -/
theorem reaches_rates {data : GenesisState} {ctx later : Context L} {events : List (Event L)}
    (stepNonneg : ∀ lever : Lever, Dec.zero ≤ (lever.policy data.params).changeRateMax)
    (sound : Sound data ctx) (reached : Reaches step ctx events later) (lever : Lever) :
    Sound data later ∧
      ((epoch later = epoch ctx ∧ valueAt (lever.rates later.treasury) (epoch later) =
          valueAt (lever.rates ctx.treasury) (epoch ctx)) ∨
        (epoch later = epoch ctx + 1 ∧ ∃ old new,
          valueAt (lever.rates ctx.treasury) (epoch ctx) = some old ∧
            valueAt (lever.rates later.treasury) (epoch later) = some new ∧
            (new.sub old).abs ≤ (lever.policy data.params).changeRateMax) ∨
        epoch ctx + 2 ≤ epoch later) := by
  induction reached with
  | refl => exact ⟨sound, Or.inl ⟨rfl, rfl⟩⟩
  | snoc _ taken ih =>
      rcases ih with ⟨middleSound, distance⟩
      rcases step_sound stepNonneg middleSound taken with ⟨nextSound, rateSteps⟩
      refine ⟨nextSound, ?_⟩
      cases rateSteps lever with
      | same sameEpoch sameRate =>
          rw [sameEpoch, ← sameEpoch, sameRate, sameEpoch]
          exact distance
      | turn old new _ _ nextEpoch oldEq newEq small _ =>
          rcases distance with ⟨sameEpoch, sameRate⟩ | ⟨nextBefore, -⟩ | far
          · right; left
            refine ⟨by omega, old, new, sameRate ▸ oldEq, newEq, small⟩
          · right; right
            omega
          · right; right
            omega

/-- Policy rates stay in bounds. In every run of blocks from an accepted genesis,
the tax rate and the reward weight in force are in the range of their policies,
those of two consecutive epochs are at most the largest step apart, and a rate
changes at the end of an epoch only, after the probation period. -/
theorem rates_stay_in_bounds {data : GenesisState} (accepted : validateGenesis data = .ok ())
    (stepNonneg : ∀ lever : Lever, Dec.zero ≤ (lever.policy data.params).changeRateMax)
    {start ctx : Context L} (fresh : Fresh data start) {events : List (Event L)}
    (reached : Reaches step start events ctx) (lever : Lever) :
    (∃ rate, lever.inForce ctx = some rate ∧ (lever.policy data.params).InRange rate) ∧
      (∀ moreEvents later, Reaches step ctx moreEvents later → epoch later = epoch ctx + 1 →
        ∃ old new, lever.inForce ctx = some old ∧ lever.inForce later = some new ∧
          (new.sub old).abs ≤ (lever.policy data.params).changeRateMax) ∧
      ∀ event next, step ctx event = some next → lever.inForce next ≠ lever.inForce ctx →
        event = .endBlock ∧ ctx.LastBlock blocksPerEpoch ∧
          data.params.windowProbation ≤ (epoch ctx : ℤ) + 1 := by
  have sound := (reaches_rates stepNonneg (fresh.sound accepted) reached lever).1
  refine ⟨?_, ?_, ?_⟩
  · rw [inForce_eq sound.grounded]
    exact sound.inRange lever
  · intro moreEvents later further nextEpoch
    rcases reaches_rates stepNonneg sound further lever with ⟨laterSound, distance⟩
    rw [inForce_eq sound.grounded, inForce_eq laterSound.grounded]
    rcases distance with ⟨sameEpoch, -⟩ | ⟨-, small⟩ | far
    · omega
    · exact small
    · omega
  · intro event next taken changed
    rcases step_sound stepNonneg sound taken with ⟨nextSound, rateSteps⟩
    rw [inForce_eq sound.grounded, inForce_eq nextSound.grounded] at changed
    cases rateSteps lever with
    | same _ sameRate => exact absurd sameRate changed
    | turn old new isEnd last _ oldEq newEq _ probation =>
        refine ⟨isEnd, last, ?_⟩
        have different : new ≠ old := by
          rintro rfl
          exact changed (newEq.trans oldEq.symm)
        have finished := probation different
        have ends : (ctx.height + 1) / blocksPerEpoch = epoch ctx + 1 :=
          (epoch_succ ctx).trans (if_pos last)
        rw [IsProbationPeriod, ends, sound.params] at finished
        push_cast at finished
        omega

/-- Blocks without a policy update do nothing. -/
theorem reaches_idle (ctx : Context L) (blocks : ℕ)
    (idle : ∀ height, ctx.height ≤ height → height < ctx.height + blocks →
      ¬Updates { ctx with height }) :
    Reaches step ctx (List.replicate blocks .endBlock)
      { ctx with height := ctx.height + blocks } := by
  induction blocks with
  | zero => exact .refl
  | succ blocks ih =>
      have before := ih fun height lower upper => idle height lower (by omega)
      rw [List.replicate_succ']
      refine before.snoc ?_
      have nothing : endBlocker { ctx with height := ctx.height + blocks } =
          .ok ([], { ctx with height := ctx.height + blocks }) := by
        have notUpdates := idle (ctx.height + blocks) (by omega) (by omega)
        have nonzero : (blocksPerEpoch : ℤ) ≠ 0 := by decide
        simp only [endBlocker, Context.isPeriodLastBlock_eq _ nonzero]
        by_cases last : { ctx with height := ctx.height + blocks }.LastBlock blocksPerEpoch
        · have probation : IsProbationPeriod { ctx with height := ctx.height + blocks } := by
            by_contra notProbation
            exact notUpdates ⟨last, notProbation⟩
          simp [last, probation, bind, Except.bind, pure, Except.pure]
        · simp [last, bind, Except.bind, pure, Except.pure]
      simp only [step, nothing]
      rfl

end Runs

/-- A chain at its default genesis, with one validator and no coins. -/
def sampleTreasury : Context Book :=
  Context.genesis Book.empty (Staking.single (List.replicate 20 1) 10 single_length)

theorem sampleTreasury_fresh : Fresh defaultGenesisState sampleTreasury := ⟨rfl, rfl⟩

/-- The last block of the first epoch after the probation period. -/
def sampleUpdate : Context Book :=
  { sampleTreasury with height := sampleTreasury.height + (12 * blocksPerEpoch - 1) }

theorem sampleUpdate_reached :
    Reaches step sampleTreasury (List.replicate (12 * blocksPerEpoch - 1) .endBlock)
      sampleUpdate := by
  apply reaches_idle
  intro height _ before updates
  apply updates.2
  have early : (height + 1) / blocksPerEpoch < 12 := by
    apply (Nat.div_lt_iff_lt_mul (by decide)).mpr
    have sum : (12 * blocksPerEpoch - 1) + 1 = 12 * blocksPerEpoch := by decide
    change height < 0 + (12 * blocksPerEpoch - 1) at before
    omega
  change (((height + 1) / blocksPerEpoch : ℕ) : ℤ) < 12
  exact_mod_cast early

/-- Without revenues the first update raises the tax rate by the largest step. -/
theorem sampleUpdate_raises :
    (step sampleUpdate .endBlock).map (fun ctx => Lever.tax.inForce ctx) =
      some (some (Dec.withPrec 125 5)) := by
  decide +kernel

theorem rates_stay_in_bounds_sample :
    ∃ ctx : Context Book,
      Reaches step sampleTreasury
          (List.replicate (12 * blocksPerEpoch - 1) .endBlock ++ [.endBlock]) ctx ∧
        Lever.tax.inForce ctx = some (Dec.withPrec 125 5) ∧
        ∃ rate, Lever.tax.inForce ctx = some rate ∧ defaultParams.taxPolicy.InRange rate := by
  rcases Option.map_eq_some_iff.mp sampleUpdate_raises with ⟨ctx, taken, raised⟩
  have reached := sampleUpdate_reached.snoc taken
  have stepNonneg : ∀ lever : Lever,
      Dec.zero ≤ (lever.policy defaultGenesisState.params).changeRateMax := by
    intro lever
    cases lever <;> decide
  exact ⟨ctx, reached, raised,
    (rates_stay_in_bounds (by decide) stepNonneg sampleTreasury_fresh reached .tax).1⟩

end TerraCore.Treasury
