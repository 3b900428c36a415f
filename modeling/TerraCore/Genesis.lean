import TerraCore.Context

/-!
# Default genesis

The default parameters of the modules and the stores that `InitGenesis` writes
from them. The oracle and market modules start from their parameters alone.
-/

namespace TerraCore

namespace Oracle

def defaultParams : Params where
  votePeriod := blocksPerMinute
  voteThreshold := Dec.withPrec 50 2
  oracleRewardBand := Dec.withPrec 1 2

end Oracle

def OracleStore.initGenesis (params : Oracle.Params) : OracleStore where
  params := params
  prevotes := ∅
  votes := ∅
  prices := ∅
  feederDelegations := ∅
  swapFeePool := none
  claims := ∅
  prevotes_keyed := by
    intro key prevote present
    rw [Store.get_empty] at present
    cases present
  votes_keyed := by
    intro key vote present
    rw [Store.get_empty] at present
    cases present

namespace Market

def defaultParams : Params where
  dailyLunaDeltaCap := Dec.withPrec 5 3
  minSwapSpread := Dec.withPrec 2 2
  maxSwapSpread := Dec.withPrec 10 1

end Market

namespace Treasury

def defaultParams : Params where
  taxPolicy :=
    { rateMin := Dec.withPrec 5 4
      rateMax := Dec.withPrec 1 2
      cap := ⟨microSDRDenom, microUnit⟩
      changeRateMax := Dec.withPrec 25 5 }
  rewardPolicy :=
    { rateMin := Dec.withPrec 5 2
      rateMax := Dec.withPrec 90 2
      cap := ⟨ascii "unused", 0⟩
      changeRateMax := Dec.withPrec 25 3 }
  seigniorageBurdenTarget := Dec.withPrec 67 2
  miningIncrement := Dec.withPrec 107 2
  windowShort := 4
  windowLong := 52
  windowProbation := 12

/-- `DefaultGenesisState().GenesisTaxRate` -/
def genesisTaxRate : Dec := Dec.withPrec 1 3

/-- `DefaultGenesisState().GenesisRewardWeight` -/
def genesisRewardWeight : Dec := Dec.withPrec 5 2

end Treasury

/-- `treasury.InitGenesis` in the first epoch. -/
def TreasuryStore.initGenesis (params : Treasury.Params) (taxRate rewardWeight : Dec) :
    TreasuryStore where
  params := params
  taxRates := (∅ : Store ℤ Dec).insert 0 taxRate
  rewardWeights := (∅ : Store ℤ Dec).insert 0 rewardWeight
  taxCaps := (∅ : Store Denom ℤ).insert params.taxPolicy.cap.denom params.taxPolicy.cap.amount
  taxProceeds := ∅

namespace Budget

def defaultParams : Params where
  activeThreshold := Dec.withPrec 1 1
  legacyThreshold := Dec.withPrec 0 2
  votePeriod := blocksPerMonth
  deposit := ⟨microSDRDenom, 100 * microUnit⟩

/-- `validateParams` accepts the parameters. -/
structure Params.Valid (params : Params) : Prop where
  activeThreshold : Dec.zero < params.activeThreshold
  legacyThreshold : Dec.zero ≤ params.legacyThreshold
  votePeriod : 0 < params.votePeriod
  deposit : 0 < params.deposit.amount

theorem defaultParams_valid : defaultParams.Valid where
  activeThreshold := by decide
  legacyThreshold := by decide
  votePeriod := by decide
  deposit := by decide

end Budget

/-- The budget store before any program is submitted. -/
def BudgetStore.initial (params : Budget.Params) : BudgetStore where
  params := params
  programs := ∅
  votes := ∅
  candQueue := ∅
  nextProgramID := none
  claims := ∅
  programs_keyed := by
    intro programID program present
    rw [Store.get_empty] at present
    cases present
  candQueue_keyed := by
    intro key programID present
    rw [Store.get_empty] at present
    cases present

/-- A validator set with one validator, which has all the bonded tokens. -/
def Staking.single (operator : Address) (tokens : ℕ) (length : operator.length = addrLen) :
    Staking where
  notBondedTokens := 0
  bondedTokens := tokens
  validator address := if address = operator then some tokens else none
  validator_length := by
    intro address found present
    split at present
    · next same => exact same ▸ length
    · cases present

/-- The only operator of the sample chains has a well-formed address. -/
theorem single_length : (List.replicate 20 1 : Address).length = addrLen := rfl

/-- The chain at its default genesis. -/
def Context.genesis {L : Type} (ledger : L) (staking : Staking) : Context L where
  height := 0
  ledger := ledger
  staking := staking
  mint := { issuance := ∅ }
  oracle := OracleStore.initGenesis Oracle.defaultParams
  market := Market.defaultParams
  treasury := TreasuryStore.initGenesis Treasury.defaultParams Treasury.genesisTaxRate
    Treasury.genesisRewardWeight
  budget := BudgetStore.initial Budget.defaultParams

end TerraCore
