import TerraCore.Sdk.Ledger

/-!
# Chain state

`Context` is what an `sdk.Context` gives access to: the block height, the
holdings of the SDK keepers, the staking module and the stores of the modules
of this repository. A store is modelled by one finite map for each kind of
key. Records which the keepers only ever write under a key derived from their
own fields carry that fact in the type of the store.
-/

namespace TerraCore

def blocksPerMinute : ℕ := 10

def blocksPerHour : ℕ := blocksPerMinute * 60

def blocksPerDay : ℕ := blocksPerHour * 24

def blocksPerWeek : ℕ := blocksPerDay * 7

def blocksPerMonth : ℕ := blocksPerDay * 30

def blocksPerEpoch : ℕ := blocksPerWeek

/-- The parts of the staking module that the chain reads and writes. -/
structure Staking where
  notBondedTokens : ℤ
  /-- `TotalBondedTokens` of the validator set. -/
  bondedTokens : ℕ
  /-- The bonded tokens of the validator with this operator address, if there is one. -/
  validator : Address → Option ℕ
  validator_length : ∀ address tokens, validator address = some tokens → address.length = addrLen

/-- Daily snapshots of the issuance of each denomination. `ChangeIssuance`
refuses to let a snapshot fall below zero. -/
structure MintStore where
  issuance : Store (Denom × ℤ) ℕ

namespace Oracle

structure Params where
  votePeriod : ℤ
  voteThreshold : Dec
  oracleRewardBand : Dec
deriving DecidableEq

structure PricePrevote where
  hash : Bytes
  denom : Denom
  voter : Address
  submitBlock : ℤ
deriving DecidableEq

structure PriceVote where
  price : Dec
  denom : Denom
  voter : Address
deriving DecidableEq

end Oracle

open Oracle in
/-- The store of the oracle module. -/
structure OracleStore where
  params : Oracle.Params
  prevotes : Store (Denom × Address) PricePrevote
  votes : Store (Denom × Address) PriceVote
  prices : Store Denom Dec
  feederDelegations : Store Address Address
  swapFeePool : Option Coins
  claims : Store Address ℕ
  prevotes_keyed : ∀ (key : Denom × Address) prevote,
    prevotes[key]? = some prevote → (prevote.denom, prevote.voter) = key
  votes_keyed : ∀ (key : Denom × Address) vote,
    votes[key]? = some vote → (vote.denom, vote.voter) = key

namespace Market

structure Params where
  dailyLunaDeltaCap : Dec
  minSwapSpread : Dec
  maxSwapSpread : Dec
deriving DecidableEq

end Market

namespace Treasury

structure PolicyConstraints where
  rateMin : Dec
  rateMax : Dec
  cap : Coin
  changeRateMax : Dec
deriving DecidableEq

structure Params where
  taxPolicy : PolicyConstraints
  rewardPolicy : PolicyConstraints
  seigniorageBurdenTarget : Dec
  miningIncrement : Dec
  windowShort : ℤ
  windowLong : ℤ
  windowProbation : ℤ
deriving DecidableEq

end Treasury

/-- The store of the treasury module; rates and proceeds are kept by epoch. -/
structure TreasuryStore where
  params : Treasury.Params
  taxRates : Store ℤ Dec
  rewardWeights : Store ℤ Dec
  taxCaps : Store Denom ℤ
  taxProceeds : Store ℤ Coins

namespace Budget

structure Params where
  activeThreshold : Dec
  legacyThreshold : Dec
  votePeriod : ℤ
  deposit : Coin
deriving DecidableEq

structure Program where
  programID : ℕ
  title : Bytes
  description : Bytes
  submitter : Address
  executor : Address
  submitBlock : ℤ
deriving DecidableEq

end Budget

open Budget in
/-- The store of the budget module. Candidate-queue entries are keyed by end
block and program, votes by program and voter. -/
structure BudgetStore where
  params : Budget.Params
  programs : Store ℕ Program
  votes : Store (ℕ × Address) Bool
  candQueue : Store (ℤ × ℕ) ℕ
  nextProgramID : Option ℕ
  claims : Store Address ℤ
  programs_keyed : ∀ (programID : ℕ) program,
    programs[programID]? = some program → program.programID = programID
  candQueue_keyed : ∀ (key : ℤ × ℕ) programID, candQueue[key]? = some programID → programID = key.2

/-- The state of the chain while a block is being processed. -/
structure Context (L : Type) where
  height : ℕ
  ledger : L
  staking : Staking
  mint : MintStore
  oracle : OracleStore
  market : Market.Params
  treasury : TreasuryStore
  budget : BudgetStore

namespace Context

variable {L : Type}

/-- The state after a message: one that fails leaves no trace. -/
def deliver (ctx : Context L) : Outcome (Result × Context L) → Context L
  | .ok (_, after) => after
  | .error _ => ctx

theorem deliver_cases (ctx : Context L) (outcome : Outcome (Result × Context L)) :
    (∃ result, outcome = .ok (result, ctx.deliver outcome)) ∨
      ((∀ done, outcome ≠ .ok done) ∧ ctx.deliver outcome = ctx) := by
  cases outcome with
  | ok done => exact Or.inl ⟨done.1, rfl⟩
  | error failure => exact Or.inr ⟨fun done => by simp, rfl⟩

/-- The current day, `ctx.BlockHeight() / util.BlocksPerDay`. -/
def today (ctx : Context L) : ℤ := ((ctx.height / blocksPerDay : ℕ) : ℤ)

def getEpoch (ctx : Context L) : ℤ := ((ctx.height / blocksPerEpoch : ℕ) : ℤ)

/-- The height is the last one of its period. -/
def LastBlock (ctx : Context L) (blocksPerPeriod : ℤ) : Prop :=
  ((ctx.height : ℤ) + 1).tmod blocksPerPeriod = 0

instance (ctx : Context L) (blocksPerPeriod : ℤ) : Decidable (ctx.LastBlock blocksPerPeriod) :=
  inferInstanceAs (Decidable (_ = _))

theorem lastBlock_natCast (ctx : Context L) (blocksPerPeriod : ℕ) :
    ctx.LastBlock blocksPerPeriod ↔ (ctx.height + 1) % blocksPerPeriod = 0 := by
  have sameRemainder : ((ctx.height : ℤ) + 1).tmod blocksPerPeriod =
      (((ctx.height + 1) % blocksPerPeriod : ℕ) : ℤ) := by
    rw [Int.tmod_eq_emod_of_nonneg (by omega)]
    push_cast
    rfl
  unfold LastBlock
  rw [sameRemainder]
  exact Int.natCast_eq_zero

theorem LastBlock.ne_zero {ctx : Context L} {blocksPerPeriod : ℤ}
    (last : ctx.LastBlock blocksPerPeriod) : blocksPerPeriod ≠ 0 := by
  intro isZero
  unfold LastBlock at last
  rw [isZero, Int.tmod_zero] at last
  omega

/-- `util.IsPeriodLastBlock`; a remainder by zero panics. -/
def isPeriodLastBlock (ctx : Context L) (blocksPerPeriod : ℤ) : Outcome Bool :=
  if blocksPerPeriod = 0 then .error (.panic .divisionByZero)
  else .ok (decide (ctx.LastBlock blocksPerPeriod))

theorem isPeriodLastBlock_eq (ctx : Context L) {blocksPerPeriod : ℤ}
    (nonzero : blocksPerPeriod ≠ 0) :
    ctx.isPeriodLastBlock blocksPerPeriod = .ok (decide (ctx.LastBlock blocksPerPeriod)) :=
  if_neg nonzero

end Context

end TerraCore
