import TerraCore.Treasury.Keeper

/-!
# Treasury policy

At the end of an epoch the treasury moves the tax rate and the reward weight
towards targets that it computes from the revenues of the latest epochs. Each
move is clamped to the range of its policy and to the largest change that the
policy allows. The new rates are stored under the epoch that ends and are
inherited by the next one.

The indicators read issuance and reward weights, and a read may write. A
division by zero or a negative reward is a panic, which halts the chain.
-/

namespace TerraCore.Treasury

variable {L : Type}

/-- The rate is first clamped to the range of the policy, then to the largest step. -/
def PolicyConstraints.clamp (policy : PolicyConstraints) (prevRate newRate : Dec) : Dec :=
  let newRate :=
    if newRate < policy.rateMin then policy.rateMin
    else if policy.rateMax < newRate then policy.rateMax
    else newRate
  let delta := newRate.sub prevRate
  if prevRate < newRate then
    if policy.changeRateMax < delta then prevRate.add policy.changeRateMax else newRate
  else if policy.changeRateMax < delta.abs then prevRate.sub policy.changeRateMax
  else newRate

/-- The rate is stored under the current epoch. -/
def setTaxRate (ctx : Context L) (rate : Dec) : Context L :=
  { ctx with
    treasury := { ctx.treasury with
      taxRates := ctx.treasury.taxRates.insert ctx.getEpoch rate } }

/-- The weight is stored under the current epoch. -/
def setRewardWeight (ctx : Context L) (weight : Dec) : Context L :=
  { ctx with
    treasury := { ctx.treasury with
      rewardWeights := ctx.treasury.rewardWeights.insert ctx.getEpoch weight } }

/-- An indicator of an epoch, `func(sdk.Context, Keeper, sdk.Int) sdk.Dec`. -/
abbrev Indicator (L : Type) := Context L → ℤ → Outcome (Dec × Context L)

/-- The tax proceeds of one denomination are added in SDR, unless there is no rate. -/
def addTaxReward (ctx : Context L) (taxReward : Dec) (coin : Coin) : Outcome Dec :=
  let coinReward : DecCoin := ⟨coin.denom, Dec.ofInt coin.amount⟩
  if coinReward.denom ≠ microSDRDenom then
    match Market.getSwapDecCoin ctx coinReward microSDRDenom with
    | .ok swappedReward => .ok (taxReward.add swappedReward.amount)
    | .error (.error _) => .ok taxReward
    | .error (.panic panic) => .error (.panic panic)
  else .ok (taxReward.add coinReward.amount)

def taxRewardsForEpoch : Indicator L := fun ctx epoch => do
  let taxRewardInMicroSDR ←
    (peekTaxProceeds ctx epoch).toList.foldlM (addTaxReward ctx) Dec.zero
  pure (taxRewardInMicroSDR, ctx)

/-- The seigniorage rewards in SDR, or zero when there is no rate. -/
def seigniorageInSDR (ctx : Context L) (rewardAmt : Dec) : Outcome Dec := do
  let seigniorageReward ← newDecCoinFromDec microLunaDenom rewardAmt
  match Market.getSwapDecCoin ctx seigniorageReward microSDRDenom with
  | .ok microSDRReward => pure microSDRReward.amount
  | .error (.error _) => pure Dec.zero
  | .error (.panic panic) => .error (.panic panic)

section Policy

variable [Sdk L]

def seigniorageRewardsForEpoch : Indicator L := fun ctx epoch =>
  let (seignioragePool, ctx) := Mint.peekEpochSeigniorage ctx epoch
  let (rewardWeight, ctx) := getRewardWeight ctx epoch
  match rewardWeight with
  | some rewardWeight => do
      let reward ← seigniorageInSDR ctx (rewardWeight.mulInt seignioragePool)
      pure (reward, ctx)
  | none => .error (.panic .nilDec)

def miningRewardForEpoch : Indicator L := fun ctx epoch => do
  let (taxRewards, ctx) ← taxRewardsForEpoch ctx epoch
  let (seigniorageRewards, ctx) ← seigniorageRewardsForEpoch ctx epoch
  pure (taxRewards.add seigniorageRewards, ctx)

/-- An indicator per bonded Luna. -/
def unitLunaIndicator (indicatorFunction : Indicator L) : Indicator L := fun ctx epoch => do
  let (indicator, ctx) ← indicatorFunction ctx epoch
  let perLuna ← indicator.quoInt ctx.staking.bondedTokens
  pure (perLuna, ctx)

/-- `TRL`: tax rewards per bonded Luna. -/
def trl : Indicator L := unitLunaIndicator taxRewardsForEpoch

/-- The loop of `SumIndicator` and `RollingAverageIndicator`, from an epoch
downwards. The number bounds the epochs that are left. -/
def sumEpochs (indicatorFunction : Indicator L) (oldest : ℤ) :
    ℕ → ℤ → Dec → Context L → Outcome (Dec × ℤ × Context L)
  | 0, i, sum, ctx => .ok (sum, i, ctx)
  | remaining + 1, i, sum, ctx =>
      if 0 ≤ i ∧ oldest < i then do
        let (val, ctx) ← indicatorFunction ctx i
        sumEpochs indicatorFunction oldest remaining (i - 1) (sum.add val) ctx
      else .ok (sum, i, ctx)

def sumIndicator (ctx : Context L) (epochs : ℤ) (indicatorFunction : Indicator L) :
    Outcome (Dec × Context L) := do
  let curEpoch := ctx.getEpoch
  let (sum, _, ctx) ← sumEpochs indicatorFunction (curEpoch - epochs) (curEpoch + 1).toNat curEpoch
    Dec.zero ctx
  pure (sum, ctx)

def rollingAverageIndicator (ctx : Context L) (epochs : ℤ) (indicatorFunction : Indicator L) :
    Outcome (Dec × Context L) := do
  let curEpoch := ctx.getEpoch
  let (sum, i, ctx) ← sumEpochs indicatorFunction (curEpoch - epochs) (curEpoch + 1).toNat curEpoch
    Dec.zero ctx
  let computedEpochs := curEpoch - i
  if computedEpochs = 0 then pure (sum, ctx)
  else
    let average ← sum.quoInt computedEpochs
    pure (average, ctx)

/-- The current tax rate and the rate that `updateTaxPolicy` aims at. -/
def taxTarget (ctx : Context L) : Outcome (Dec × Dec × Context L) := do
  let params := ctx.treasury.params
  let (oldTaxRate, ctx) := getTaxRate ctx ctx.getEpoch
  let (tlYear, ctx) ← rollingAverageIndicator ctx params.windowLong trl
  let (tlMonth, ctx) ← rollingAverageIndicator ctx params.windowShort trl
  -- No revenues, hike as much as possible.
  if tlMonth = Dec.zero then pure (oldTaxRate, params.taxPolicy.rateMax, ctx)
  else
    let newTaxRate ← (oldTaxRate.mul (tlYear.mul params.miningIncrement)).quo tlMonth
    pure (oldTaxRate, newTaxRate, ctx)

def updateTaxPolicy (ctx : Context L) : Outcome (Dec × Context L) := do
  let taxPolicy := ctx.treasury.params.taxPolicy
  let (oldTaxRate, newTaxRate, ctx) ← taxTarget ctx
  let newTaxRate := taxPolicy.clamp oldTaxRate newTaxRate
  pure (newTaxRate, setTaxRate ctx newTaxRate)

/-- A decimal that is used; it may never have been set. -/
def setDec : Option Dec → Outcome Dec
  | some value => .ok value
  | none => .error (.panic .nilDec)

/-- The current reward weight and the weight that `updateRewardPolicy` aims at. -/
def rewardTarget (ctx : Context L) : Outcome (Dec × Dec × Context L) := do
  let params := ctx.treasury.params
  let (oldWeight, ctx) := getRewardWeight ctx ctx.getEpoch
  let (seigniorageSum, ctx) ← sumIndicator ctx params.windowShort seigniorageRewardsForEpoch
  let (totalSum, ctx) ← sumIndicator ctx params.windowShort miningRewardForEpoch
  -- No revenues; hike as much as possible.
  if totalSum = Dec.zero ∨ seigniorageSum = Dec.zero then
    let oldWeight ← setDec oldWeight
    pure (oldWeight, params.rewardPolicy.rateMax, ctx)
  else
    let sb ← seigniorageSum.quo totalSum
    let factor ← params.seigniorageBurdenTarget.quo sb
    -- The weight is first used by the multiplication, after both divisions.
    let oldWeight ← setDec oldWeight
    pure (oldWeight, oldWeight.mul factor, ctx)

def updateRewardPolicy (ctx : Context L) : Outcome (Dec × Context L) := do
  let rewardPolicy := ctx.treasury.params.rewardPolicy
  let (oldWeight, newRewardWeight, ctx) ← rewardTarget ctx
  let newRewardWeight := rewardPolicy.clamp oldWeight newRewardWeight
  pure (newRewardWeight, setRewardWeight ctx newRewardWeight)

/-- Not enough data has been collected: the block after this one is in the probation window. -/
def IsProbationPeriod (ctx : Context L) : Prop :=
  (((ctx.height + 1) / blocksPerEpoch : ℕ) : ℤ) < ctx.treasury.params.windowProbation

instance (ctx : Context L) : Decidable (IsProbationPeriod ctx) :=
  inferInstanceAs (Decidable (_ < _))

def endBlocker (ctx : Context L) : Outcome (Tags × Context L) := do
  if ← ctx.isPeriodLastBlock blocksPerEpoch then
    if IsProbationPeriod ctx then pure ([], ctx)
    else
      let (taxRate, ctx) ← updateTaxPolicy ctx
      let (rewardWeight, ctx) ← updateRewardPolicy ctx
      pure ([.action .policyUpdate, .tax taxRate, .minerReward rewardWeight], ctx)
  else pure ([], ctx)

end Policy

end TerraCore.Treasury
