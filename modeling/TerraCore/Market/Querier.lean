import TerraCore.Market.Accounts

/-!
# Swap quotes

`querySwap` answers what a swap would pay. It shares the rates and the spread
with the handler but withholds the fee in a copy of the handler's code, so that
quote and execution have to be compared.
-/

namespace TerraCore.Market

variable {L : Type} [Sdk L]

/-- The errors of the query. What the keeper reports is wrapped in an internal
error, behind the text "Failed to get swapped coin amount". -/
inductive QueryFailure where
  | recursiveSwap (denom : Denom)
  | failedToGetSwappedCoinAmount (cause : SdkError)
  | panic (panic : Panic)
deriving DecidableEq

/-- How the query passes on a failure of the keeper. -/
def QueryFailure.ofKeeper : Failure → QueryFailure
  | .error cause => .failedToGetSwappedCoinAmount cause
  | .panic raised => .panic raised

/-- The fee as the query withholds it; the fee pool is left alone. -/
def withholdFee (swapCoin : Coin) (spread : Dec) : Outcome Coin := do
  if Dec.zero < spread then
    let swapFeeAmt := (spread.mulInt swapCoin.amount).truncateInt
    if 0 < swapFeeAmt then
      let swapFee ← newCoin swapCoin.denom swapFeeAmt
      swapCoin.sub swapFee
    else pure swapCoin
  else pure swapCoin

/-- `querySwap` on a decoded request. Snapshots that the keeper writes while it
reads go to the context of the query, which is thrown away. -/
def querySwap (ctx : Context L) (offerCoin : Coin) (askDenom : Denom) :
    Except QueryFailure Coin :=
  if askDenom = offerCoin.denom then .error (.recursiveSwap askDenom)
  else
    match getSwapCoin ctx offerCoin askDenom false with
    | .error failure => .error (.ofKeeper failure)
    | .ok (swapCoin, spread, _) => (withholdFee swapCoin spread).mapError .ofKeeper

omit [Sdk L] in
/-- What the handler keeps for the trader is what the query leaves. -/
theorem withholdFee_of_chargeSpread {before after : Context L} {swapCoin kept : Coin}
    {spread : Dec} {swapFee : Option Coin}
    (charged : chargeSpread before swapCoin spread = .ok (kept, swapFee, after)) :
    withholdFee swapCoin spread = .ok kept := by
  simp only [chargeSpread] at charged
  split at charged
  · next fee =>
      rcases Outcome.bind_eq_ok.mp charged with ⟨made, madeOk, charged⟩
      rcases Outcome.bind_eq_ok.mp charged with ⟨_, -, charged⟩
      rcases Outcome.bind_eq_ok.mp charged with ⟨rest, subtracted, charged⟩
      cases charged
      simp only [withholdFee, if_pos fee.1, if_pos fee.2]
      exact Outcome.bind_eq_ok.mpr ⟨made, madeOk, subtracted⟩
  · next noFee =>
      cases charged
      simp only [withholdFee]
      split
      · next positive =>
          rw [if_neg fun feePositive => noFee ⟨positive, feePositive⟩]
          rfl
      · rfl

/-- A swap that succeeds takes the offer from the trader and pays the quoted coin. -/
theorem handleMsgSwap_paid {before after : Context L} {msg : MsgSwap} {result : Result}
    (handled : handleMsgSwap before msg = .ok (result, after)) :
    ∃ coin, querySwap before msg.offerCoin msg.askDenom = .ok coin ∧
      Moves before.ledger after.ledger
        { debits := [(msg.trader, [msg.offerCoin])], credits := [(msg.trader, [coin])] } := by
  rcases handleMsgSwap_steps handled with
    ⟨retCoin, kept, spread, swapFee, quoted, charged, burned, different, quote, charge, burn, mint⟩
  refine ⟨kept, ?_, ?_⟩
  · simp only [querySwap, if_neg (Ne.symm different), quote, withholdFee_of_chargeSpread charge]
    rfl
  · -- Quoting and charging leave the accounts alone.
    rcases getSwapCoin_eq_ok quote with ⟨-, ⟨readMint, rfl⟩, -⟩
    rcases chargeSpread_frame charge with ⟨swapFeePool, rfl⟩
    rcases Mint.burn_writes burn with ⟨burnedLedger, burnedMint, debited, rfl⟩
    rcases Mint.mint_writes mint with ⟨mintedLedger, mintedMint, credited, rfl⟩
    have moved := debited.trans credited
    simp only [Movement.append, List.append_nil, List.nil_append] at moved
    exact moved

/-- Quote equals execution. The coin that a successful swap credits to its
trader is the one the query returns in the same state, and the handler fails
wherever the query does. -/
theorem quote_executes (ctx : Context L) (trader : Address) (offerCoin : Coin)
    (askDenom : Denom) :
    (∀ (result : Result) (after : Context L),
        handleMsgSwap ctx ⟨trader, offerCoin, askDenom⟩ = .ok (result, after) →
        ∃ coin, querySwap ctx offerCoin askDenom = .ok coin ∧
          Moves ctx.ledger after.ledger
            { debits := [(trader, [offerCoin])], credits := [(trader, [coin])] }) ∧
      (∀ refusal, querySwap ctx offerCoin askDenom = .error refusal →
        ∃ failure, handleMsgSwap ctx ⟨trader, offerCoin, askDenom⟩ = .error failure) := by
  refine ⟨fun result after handled => handleMsgSwap_paid handled, ?_⟩
  intro refusal refused
  cases handled : handleMsgSwap ctx ⟨trader, offerCoin, askDenom⟩ with
  | error failure => exact ⟨failure, rfl⟩
  | ok done =>
      rcases handleMsgSwap_paid handled with ⟨coin, quoted, -⟩
      rw [refused] at quoted
      cases quoted

/-- Ninety-eight of a hundred Luna are quoted and paid. -/
theorem quote_executes_trade :
    querySwap beforeTrade ⟨microSDRDenom, 100⟩ microLunaDenom = .ok ⟨microLunaDenom, 98⟩ ∧
      ∃ (result : Result) (after : Context Book) (coin : Coin),
        handleMsgSwap beforeTrade (sdrForLuna 100) = .ok (result, after) ∧
          querySwap beforeTrade (sdrForLuna 100).offerCoin (sdrForLuna 100).askDenom = .ok coin ∧
          Moves beforeTrade.ledger after.ledger
            { debits := [((sdrForLuna 100).trader, [(sdrForLuna 100).offerCoin])]
              credits := [((sdrForLuna 100).trader, [coin])] } := by
  refine ⟨by decide +kernel, ?_⟩
  rcases trade_exists with ⟨result, after, handled, -⟩
  rcases (quote_executes beforeTrade (sdrForLuna 100).trader (sdrForLuna 100).offerCoin
    (sdrForLuna 100).askDenom).1 result after handled with ⟨coin, quoted, moved⟩
  exact ⟨result, after, coin, handled, quoted, moved⟩

end TerraCore.Market
