import TerraCore.Treasury.Rates

/-!
# Treasury genesis

The state from which the treasury starts, the checks that it has to pass, and
the state that is exported from a running chain. The export takes the reward
weight of the current epoch, but the tax rate of the first one.
-/

namespace TerraCore.Treasury

open Inheritance

variable {L : Type}

structure GenesisState where
  params : Params
  genesisTaxRate : Dec
  genesisRewardWeight : Dec
deriving DecidableEq

def defaultGenesisState : GenesisState := ⟨defaultParams, genesisTaxRate, genesisRewardWeight⟩

/-- Why a genesis state is refused, with the values that the message prints. -/
inductive GenesisError where
  | genesisTaxRate (rateMin rateMax rate : Dec)
  | genesisRewardRate (rateMin rateMax weight : Dec)
  | taxRateMax (rateMax rateMin : Dec)
  | taxRateMin (rateMin : Dec)
  | rewardRateMax (rateMax rateMin : Dec)
  | rewardRateMin (rateMin : Dec)
deriving DecidableEq

def validateParams (params : Params) : Except GenesisError Unit :=
  if params.taxPolicy.rateMax < params.taxPolicy.rateMin then
    .error (.taxRateMax params.taxPolicy.rateMax params.taxPolicy.rateMin)
  else if params.taxPolicy.rateMin < Dec.zero then .error (.taxRateMin params.taxPolicy.rateMin)
  else if params.rewardPolicy.rateMax < params.rewardPolicy.rateMin then
    .error (.rewardRateMax params.rewardPolicy.rateMax params.rewardPolicy.rateMin)
  else if params.rewardPolicy.rateMin < Dec.zero then
    .error (.rewardRateMin params.rewardPolicy.rateMin)
  else .ok ()

def validateGenesis (data : GenesisState) : Except GenesisError Unit :=
  let taxPolicy := data.params.taxPolicy
  let rewardPolicy := data.params.rewardPolicy
  if taxPolicy.rateMax < data.genesisTaxRate ∨ data.genesisTaxRate < taxPolicy.rateMin then
    .error (.genesisTaxRate taxPolicy.rateMin taxPolicy.rateMax data.genesisTaxRate)
  else if rewardPolicy.rateMax < data.genesisRewardWeight ∨
      data.genesisRewardWeight < rewardPolicy.rateMin then
    .error (.genesisRewardRate rewardPolicy.rateMin rewardPolicy.rateMax data.genesisRewardWeight)
  else validateParams data.params

/-- The rate is in the range of the policy. -/
structure PolicyConstraints.InRange (policy : PolicyConstraints) (rate : Dec) : Prop where
  lower : policy.rateMin ≤ rate
  upper : rate ≤ policy.rateMax

def Lever.genesis : Lever → GenesisState → Dec
  | .tax, data => data.genesisTaxRate
  | .reward, data => data.genesisRewardWeight

/-- Accepted are the states with both rates in the range of their policies, which
do not go below zero. -/
theorem validateGenesis_eq_ok {data : GenesisState} :
    validateGenesis data = .ok () ↔
      ∀ lever : Lever, (lever.policy data.params).InRange (lever.genesis data) ∧
        Dec.zero ≤ (lever.policy data.params).rateMin := by
  simp only [validateGenesis, validateParams, refusal_eq_ok, not_or, Dec.not_lt, and_true]
  constructor
  · rintro ⟨⟨taxMax, taxMin⟩, ⟨rewardMax, rewardMin⟩, _, taxNonneg, _, rewardNonneg⟩ lever
    cases lever with
    | tax => exact ⟨⟨taxMin, taxMax⟩, taxNonneg⟩
    | reward => exact ⟨⟨rewardMin, rewardMax⟩, rewardNonneg⟩
  · intro inRange
    have tax := inRange .tax
    have reward := inRange .reward
    exact ⟨⟨tax.1.upper, tax.1.lower⟩, ⟨reward.1.upper, reward.1.lower⟩,
      Int.le_trans tax.1.lower tax.1.upper, tax.2,
      Int.le_trans reward.1.lower reward.1.upper, reward.2⟩

/-- An accepted genesis state has rates in range, and no rate can be negative. -/
theorem inRange_of_validateGenesis {data : GenesisState} (accepted : validateGenesis data = .ok ())
    (lever : Lever) :
    (lever.policy data.params).InRange (lever.genesis data) ∧
      Dec.zero ≤ (lever.policy data.params).rateMin :=
  validateGenesis_eq_ok.mp accepted lever

example : validateGenesis defaultGenesisState = .ok () := by
  decide

/-- `InitGenesis` on a fresh chain, at height zero. -/
def initGenesis (data : GenesisState) : TreasuryStore :=
  TreasuryStore.initGenesis data.params data.genesisTaxRate data.genesisRewardWeight

/-- The exported state. A weight that was never set is written as zero. -/
def exportGenesis (ctx : Context L) : GenesisState × Context L :=
  let (taxRate, ctx) := getTaxRate ctx 0
  let (rewardWeight, ctx) := getRewardWeight ctx ctx.getEpoch
  (⟨ctx.treasury.params, taxRate, rewardWeight.getD Dec.zero⟩, ctx)

/-- A chain at height zero whose treasury was loaded from a genesis state. -/
structure Fresh (data : GenesisState) (ctx : Context L) : Prop where
  height : ctx.height = 0
  treasury : ctx.treasury = initGenesis data

theorem Fresh.epoch_eq {data : GenesisState} {ctx : Context L} (fresh : Fresh data ctx) :
    epoch ctx = 0 := by
  rw [epoch, fresh.height]
  rfl

theorem Fresh.rates_get {data : GenesisState} {ctx : Context L} (fresh : Fresh data ctx)
    (lever : Lever) (period : ℕ) :
    (lever.rates ctx.treasury)[(period : ℤ)]? =
      if 0 = period then some (lever.genesis data) else none := by
  rw [fresh.treasury]
  cases lever <;>
    exact (get_insert_natCast ∅ 0 period _).trans (by rw [Store.get_empty]; rfl)

theorem Fresh.grounded {data : GenesisState} {ctx : Context L} (fresh : Fresh data ctx) :
    Grounded ctx := by
  have later : ∀ (lever : Lever) (period : ℕ), epoch ctx < period →
      (lever.rates ctx.treasury)[(period : ℤ)]? = none := by
    intro lever period after
    rw [fresh.rates_get, if_neg (by have := fresh.epoch_eq; omega)]
  exact ⟨⟨_, fresh.rates_get .tax 0⟩, ⟨_, fresh.rates_get .reward 0⟩, later .tax, later .reward⟩

theorem Fresh.valueAt_eq {data : GenesisState} {ctx : Context L} (fresh : Fresh data ctx)
    (lever : Lever) : valueAt (lever.rates ctx.treasury) (epoch ctx) = some (lever.genesis data) := by
  rw [fresh.epoch_eq]
  exact fresh.rates_get lever 0

end TerraCore.Treasury
