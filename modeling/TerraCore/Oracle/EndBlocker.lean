import TerraCore.Mint.Accounting
import TerraCore.Oracle.Keeper

/-!
# Oracle end blocker

At the last block of a vote period the swap fees collected so far are paid to
the winners of the previous ballots, all prices are dropped, and the ballots of
this period are tallied into new prices and new claims. Votes are gathered in
a Go map; the order in which its entries are visited is a parameter.
-/

namespace TerraCore.Oracle

/-- An order in which the entries of the map of ballots may be visited. -/
structure MapOrder where
  visit : List (Denom × PriceBallot) → List (Denom × PriceBallot)
  perm : ∀ entries, (visit entries).Perm entries

/-- The entries in the order of their keys. -/
def MapOrder.sorted : MapOrder := ⟨id, fun _ => List.Perm.refl _⟩

/-- The entries in the opposite order. -/
def MapOrder.reversed : MapOrder := ⟨List.reverse, List.reverse_perm⟩

section EndBlocker

variable {L : Type} [Sdk L]

/-- The reward of one claim in the denomination of `feeCoin`. -/
def rewardAmt (weightSum weight : ℕ) (feeCoin : Coin) : Outcome ℤ := do
  let share ← (Dec.ofInt feeCoin.amount).quoInt weightSum
  pure (share.mulInt weight).truncateInt

/-- The reward of one claim. -/
def rewardCoins (accmFeePool : Coins) (weightSum weight : ℕ) : Outcome Coins :=
  accmFeePool.toList.foldlM (fun rewardCoins feeCoin => do
    let amount ← rewardAmt weightSum weight feeCoin
    let coin ← newCoin feeCoin.denom amount
    let coins ← Coins.ofCoin coin
    pure (rewardCoins.add coins)) Coins.empty

/-- Pay one claim: to the validator, or to the fee collector when the
recipient is not a validator any more. The second component is `distributedFee`. -/
def payClaim (accmFeePool : Coins) (weightSum : ℕ) (state : Context L × Coins)
    (claim : Address × ℕ) : Outcome (Context L × Coins) := do
  let (ctx, distributedFee) := state
  let rewards ← rewardCoins accmFeePool weightSum claim.2
  let ledger :=
    match ctx.staking.validator claim.1 with
    | some _ => Sdk.allocateTokensToValidator ctx.ledger claim.1 rewards
    | none => Sdk.addCollectedFees ctx.ledger rewards
  pure ({ ctx with ledger }, distributedFee.add rewards)

/-- Pay out the whole fee pool. -/
def doleOutRewards (ctx : Context L) (accmFeePool : Coins) (weightSum : ℕ) :
    Outcome (Context L) := do
  let (ctx, distributedFee) ←
    ctx.oracle.claimPool.foldlM (payClaim accmFeePool weightSum) (ctx, Coins.empty)
  let leftFee ← accmFeePool.sub distributedFee
  let ctx :=
    if leftFee.toList ≠ [] then { ctx with ledger := Sdk.addCollectedFees ctx.ledger leftFee }
    else ctx
  let ctx ← accmFeePool.toList.foldlM (fun ctx feeCoin =>
    mustSucceed (Mint.changeIssuance ctx feeCoin.denom feeCoin.amount)) ctx
  pure { ctx with oracle := ctx.oracle.clearSwapFeePool }

/-- The sum of the weights of all claims. -/
def claimWeightSum (store : OracleStore) : ℕ :=
  store.claimPool.foldl (fun weightSum claim => weightSum + claim.2) 0

def rewardPrevBallotWinners (ctx : Context L) : Outcome (Context L) := do
  let prevBallotWeightSum := claimWeightSum ctx.oracle
  if prevBallotWeightSum ≠ 0 then
    let accmFeePool := ctx.oracle.getSwapFeePool
    let ctx ←
      if accmFeePool.toList ≠ [] then doleOutRewards ctx accmFeePool prevBallotWeightSum
      else pure ctx
    pure { ctx with oracle := ctx.oracle.clearClaimPool }
  else pure ctx

/-- Half of the reward band. -/
def rewardSpread (params : Params) : Dec := params.oracleRewardBand.quoInt64 2

/-- The price is within the reward spread of the median. -/
def InBand (median spread price : Dec) : Prop :=
  median.sub spread ≤ price ∧ price ≤ median.add spread

instance (median spread price : Dec) : Decidable (InBand median spread price) :=
  inferInstanceAs (Decidable (_ ∧ _))

/-- The claim that a vote earns against the given median. -/
def winningClaim (staking : Staking) (median spread : Dec) (vote : PriceVote) :
    Option (Claim ℕ) :=
  if InBand median spread vote.price then
    (staking.validator vote.voter).map fun bondSize => ⟨bondSize, vote.voter⟩
  else none

/-- `tally`: the median of the ballot, and the store with the claims of its winners. -/
def tally (ctx : Context L) (ballot : PriceBallot) : Dec × Context L :=
  let ballot := sortBallot L ballot
  let median := weightedMedian ctx.staking L ballot
  -- `weightedMedian` sorts the same slice once more.
  let ballot := sortBallot L ballot
  let ballotWinners := ballot.filterMap
    (winningClaim ctx.staking median (rewardSpread ctx.oracle.params))
  (median, { ctx with oracle := ctx.oracle.addClaimPool ballotWinners })

def BallotIsPassing (totalBondedTokens : ℕ) (voteThreshold : Dec) (ballotPower : ℕ) : Prop :=
  (voteThreshold.mulInt totalBondedTokens).roundInt ≤ ballotPower

instance (totalBondedTokens : ℕ) (voteThreshold : Dec) (ballotPower : ℕ) :
    Decidable (BallotIsPassing totalBondedTokens voteThreshold ballotPower) :=
  inferInstanceAs (Decidable (_ ≤ _))

/-- The body of the loop over the ballots. The tags of the last ballot
replace those of all earlier ones. -/
def tallyBallot (state : Tags × Context L) (entry : Denom × PriceBallot) : Tags × Context L :=
  let (_, ctx) := state
  if BallotIsPassing ctx.staking.bondedTokens ctx.oracle.params.voteThreshold
      (power ctx.staking entry.2) then
    let (median, ctx) := tally ctx entry.2
    ([.action .priceUpdate, .denom entry.1, .price median],
      { ctx with oracle := ctx.oracle.setLunaSwapRate entry.1 median })
  else ([.action .tallyDropped, .denom entry.1], ctx)

/-- Delete the prevotes that can no longer be revealed. -/
def expirePrevotes (height : ℕ) (store : OracleStore) : OracleStore :=
  store.deletePrevotes (store.prevoteList.filter fun prevote =>
    prevote.submitBlock + store.params.votePeriod < height)

/-- The part of `EndBlocker` that runs after the rewards were paid. -/
def tallyPeriod (order : MapOrder) (ctx : Context L) : Tags × Context L :=
  let votes := ctx.oracle.collectVotes
  let ctx := { ctx with oracle := ctx.oracle.deletePrices ctx.oracle.getActiveDenoms }
  let (tags, ctx) := (order.visit votes.toList).foldl tallyBallot ([], ctx)
  let ctx := { ctx with oracle := expirePrevotes ctx.height ctx.oracle }
  (tags, { ctx with oracle := ctx.oracle.deleteVotes ctx.oracle.voteList })

def endBlocker (order : MapOrder) (ctx : Context L) : Outcome (Tags × Context L) := do
  if ← ctx.isPeriodLastBlock ctx.oracle.params.votePeriod then
    let ctx ← rewardPrevBallotWinners ctx
    pure (tallyPeriod order ctx)
  else pure ([], ctx)

end EndBlocker

end TerraCore.Oracle
