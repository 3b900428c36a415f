import TerraCore.Market.Keeper

/-!
# Swap messages

A swap burns the offered coin and mints the asked one. The spread is withheld
from the trader and waits in the swap fee pool of the oracle; until it is paid
out it exists neither in the ledger nor in the issuance.
-/

namespace TerraCore.Market

variable {L : Type} [Sdk L]

structure MsgSwap where
  trader : Address
  offerCoin : Coin
  askDenom : Denom
deriving DecidableEq

def MsgSwap.validateBasic (msg : MsgSwap) : Outcome Unit :=
  if msg.trader = [] then .error (.error (.invalidAddress msg.trader))
  else if msg.offerCoin.amount < 0 then
    .error (.error (.insufficientSwapCoins msg.offerCoin.amount))
  else if msg.offerCoin.denom = msg.askDenom then .error (.error (.recursiveSwap msg.askDenom))
  else .ok ()

/-- Withhold the spread: what is left of the swapped coin, and the fee if there is one. -/
def chargeSpread (ctx : Context L) (swapCoin : Coin) (spread : Dec) :
    Outcome (Coin × Option Coin × Context L) := do
  let swapFeeAmt := (spread.mulInt swapCoin.amount).truncateInt
  if Dec.zero < spread ∧ 0 < swapFeeAmt then
    let swapFee ← newCoin swapCoin.denom swapFeeAmt
    let fees ← Coins.ofCoin swapFee
    let ctx := { ctx with oracle := ctx.oracle.addSwapFeePool fees }
    let swapCoin ← swapCoin.sub swapFee
    pure (swapCoin, some swapFee, ctx)
  else pure (swapCoin, none, ctx)

def handleMsgSwap (ctx : Context L) (msg : MsgSwap) : Outcome (Result × Context L) := do
  if msg.offerCoin.denom = msg.askDenom then .error (.error (.recursiveSwap msg.askDenom))
  else
    let (swapCoin, spread, ctx) ← getSwapCoin ctx msg.offerCoin msg.askDenom false
    let (swapCoin, swapFee, ctx) ← chargeSpread ctx swapCoin spread
    let ctx ← Mint.burn ctx msg.trader msg.offerCoin
    let ctx ← Mint.mint ctx msg.trader swapCoin
    pure (
      { tags := [.offer msg.offerCoin.denom, .trader msg.trader]
        log := [.swapCoin swapCoin, .swapFee swapFee] }, ctx)

omit [Sdk L] in
theorem chargeSpread_frame {before after : Context L} {swapCoin kept : Coin} {spread : Dec}
    {swapFee : Option Coin}
    (charged : chargeSpread before swapCoin spread = .ok (kept, swapFee, after)) :
    ∃ swapFeePool, after = { before with oracle := { before.oracle with swapFeePool } } := by
  simp only [chargeSpread] at charged
  split at charged
  · rcases Outcome.bind_eq_ok.mp charged with ⟨_, -, charged⟩
    rcases Outcome.bind_eq_ok.mp charged with ⟨fees, -, charged⟩
    rcases Outcome.bind_eq_ok.mp charged with ⟨_, -, charged⟩
    cases charged
    exact ⟨_, rfl⟩
  · cases charged
    exact ⟨before.oracle.swapFeePool, rfl⟩

theorem chargeSpread_changes {before after : Context L} {swapCoin kept : Coin} {spread : Dec}
    {swapFee : Option Coin}
    (charged : chargeSpread before swapCoin spread = .ok (kept, swapFee, after)) :
    Mint.Changes 0 0 0 before after := by
  rcases chargeSpread_frame charged with ⟨swapFeePool, rfl⟩
  exact Mint.Changes.of_oracle before _

omit [Sdk L] in
/-- The spread takes part of the swapped coin at most. -/
theorem chargeSpread_kept {before after : Context L} {swapCoin kept : Coin} {spread : Dec}
    {swapFee : Option Coin}
    (charged : chargeSpread before swapCoin spread = .ok (kept, swapFee, after))
    (nonneg : 0 ≤ swapCoin.amount) :
    kept.denom = swapCoin.denom ∧ 0 ≤ kept.amount ∧ kept.amount ≤ swapCoin.amount := by
  simp only [chargeSpread] at charged
  split at charged
  · next fee =>
      rcases Outcome.bind_eq_ok.mp charged with ⟨swapFee, made, charged⟩
      rcases Outcome.bind_eq_ok.mp charged with ⟨fees, -, charged⟩
      rcases Outcome.bind_eq_ok.mp charged with ⟨rest, subtracted, charged⟩
      cases charged
      rcases newCoin_eq_ok.mp made with ⟨-, feeNonneg, rfl⟩
      simp only [Coin.sub] at subtracted
      split at subtracted
      · cases subtracted
      · next covered =>
          cases subtracted
          exact ⟨rfl, not_lt.mp covered, by simp only; omega⟩
  · cases charged
    exact ⟨rfl, nonneg, le_rfl⟩

/-- A swap that succeeds was quoted, charged, burned and minted. -/
theorem handleMsgSwap_steps {before after : Context L} {msg : MsgSwap} {result : Result}
    (handled : handleMsgSwap before msg = .ok (result, after)) :
    ∃ (retCoin kept : Coin) (spread : Dec) (swapFee : Option Coin)
        (quoted charged burned : Context L),
      msg.offerCoin.denom ≠ msg.askDenom ∧
        getSwapCoin before msg.offerCoin msg.askDenom false = .ok (retCoin, spread, quoted) ∧
        chargeSpread quoted retCoin spread = .ok (kept, swapFee, charged) ∧
        Mint.burn charged msg.trader msg.offerCoin = .ok burned ∧
        Mint.mint burned msg.trader kept = .ok after := by
  simp only [handleMsgSwap] at handled
  split at handled
  · cases handled
  · next different =>
      rcases Outcome.bind_eq_ok.mp handled with ⟨⟨retCoin, spread, quoted⟩, quote, handled⟩
      rcases Outcome.bind_eq_ok.mp handled with ⟨⟨kept, swapFee, charged⟩, charge, handled⟩
      rcases Outcome.bind_eq_ok.mp handled with ⟨burned, burn, handled⟩
      rcases Outcome.bind_eq_ok.mp handled with ⟨minted, mint, handled⟩
      cases handled
      exact ⟨retCoin, kept, spread, swapFee, quoted, charged, burned, different, quote, charge,
        burn, mint⟩

/-- A swap burns the offered coin and mints what the spread leaves of the quoted one. -/
theorem handleMsgSwap_eq_ok {before after : Context L} {msg : MsgSwap} {result : Result}
    (handled : handleMsgSwap before msg = .ok (result, after)) :
    ∃ (retCoin kept : Coin) (spread : Dec) (quoted : Context L),
      msg.offerCoin.denom ≠ msg.askDenom ∧
        getSwapCoin before msg.offerCoin msg.askDenom false = .ok (retCoin, spread, quoted) ∧
        kept.denom = msg.askDenom ∧ 0 ≤ kept.amount ∧ kept.amount ≤ retCoin.amount ∧
        after.treasury = before.treasury ∧
        Mint.Changes
          (Mint.only msg.offerCoin.denom (-msg.offerCoin.amount) + Mint.only kept.denom kept.amount)
          (Mint.only msg.offerCoin.denom (-msg.offerCoin.amount) + Mint.only kept.denom kept.amount)
          (Mint.only msg.offerCoin.denom (-msg.offerCoin.amount) microLunaDenom +
            Mint.only kept.denom kept.amount microLunaDenom) before after := by
  rcases handleMsgSwap_steps handled with
    ⟨retCoin, kept, spread, swapFee, quoted, charged, burned, different, quote, charge, burn, mint⟩
  rcases getSwapCoin_eq_ok quote with ⟨⟨_, _, _, swapQuote⟩, ⟨readMint, quotedEq⟩, read⟩
  rcases chargeSpread_kept charge swapQuote.positive.le with ⟨denomEq, nonneg, below⟩
  have sameTreasury : after.treasury = before.treasury := by
    rcases chargeSpread_frame charge with ⟨swapFeePool, chargedEq⟩
    rw [(Mint.mint_frame mint).treasury, (Mint.burn_frame burn).treasury, chargedEq, quotedEq]
  refine ⟨retCoin, kept, spread, quoted, different, quote, denomEq.trans swapQuote.denom,
    nonneg, below, sameTreasury, ?_⟩
  exact (((read.trans (chargeSpread_changes charge)).trans (Mint.burn_changes burn)).trans
    (Mint.mint_changes mint)).of_eq (by simp) (by simp) (by simp)

/-- A swap counts everything it burns and mints. -/
theorem handleMsgSwap_mirrored {before after : Context L} {msg : MsgSwap} {result : Result}
    (handled : handleMsgSwap before msg = .ok (result, after)) : Mint.Mirrored before after := by
  rcases handleMsgSwap_eq_ok handled with ⟨_, _, _, _, -, -, -, -, -, -, changes⟩
  exact ⟨_, changes⟩

end TerraCore.Market
