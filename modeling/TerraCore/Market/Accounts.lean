import TerraCore.Market.Division
import TerraCore.Mint.Counting

/-!
# The accounts of a swap

What one swap does to the whole chain. The trader gives the offer and receives
the quoted amount without the fee, the fee waits in the swap fee pool, and the
issuance follows the trader's account. When Luna is swapped the staking pool
follows as well.
-/

namespace TerraCore.Market

variable {L : Type} [Sdk L]

/-- What a swap adds to the holdings of the trader, to the issuance and, for
Luna, to the pool of unbonded tokens. -/
def exchanged (msg : MsgSwap) (received : ℤ) (denom : Denom) : ℤ :=
  Mint.only msg.offerCoin.denom (-msg.offerCoin.amount) denom +
    Mint.only msg.askDenom received denom

/-- The swap returned `ret` and withheld `fee` of it; nothing else happened. -/
structure Accounted (msg : MsgSwap) (ret fee : ℤ) (before after : Context L) : Prop where
  balance : ∀ address denom, (Ledger.balance after.ledger address denom : ℤ) =
    Ledger.balance before.ledger address denom +
      if address = msg.trader then exchanged msg (ret - fee) denom else 0
  swapFeePool : ∀ denom, after.oracle.getSwapFeePool.amountOf denom =
    before.oracle.getSwapFeePool.amountOf denom + Mint.only msg.askDenom fee denom
  issuance : ∀ denom, (Mint.issuanceAt after denom before.today : ℤ) =
    Mint.issuanceAt before denom before.today + exchanged msg (ret - fee) denom
  pastIssuance : ∀ (denom : Denom) (day : ℤ), 0 ≤ day → day < before.today →
    Mint.issuanceAt after denom day = Mint.issuanceAt before denom day
  staking : after.staking =
    Mint.pooled before.staking (exchanged msg (ret - fee) microLunaDenom)
  collectedFees : ∀ denom,
    Ledger.collectedFees after.ledger denom = Ledger.collectedFees before.ledger denom
  allocatedTo : ∀ address denom,
    Ledger.allocatedTo after.ledger address denom = Ledger.allocatedTo before.ledger address denom
  allocatedTotal : ∀ denom,
    Ledger.allocatedTotal after.ledger denom = Ledger.allocatedTotal before.ledger denom
  oracle : after.oracle = { before.oracle with swapFeePool := after.oracle.swapFeePool }
  market : after.market = before.market
  treasury : after.treasury = before.treasury
  budget : after.budget = before.budget
  height : after.height = before.height

theorem computeLunaDelta_counted (ctx : Context L) (change : ℤ) (denom : Denom) :
    Mint.Counted denom 0 ctx (computeLunaDelta ctx change).2 := by
  simp only [computeLunaDelta]
  split
  · exact Mint.Counted.refl ctx
  · have first := Mint.getIssuance_counted ctx denom microLunaDenom (ctx.today - 1)
    split
    · have second := Mint.getIssuance_counted
        (Mint.getIssuance ctx microLunaDenom (ctx.today - 1)).2 denom microLunaDenom ctx.today
      have both := first.trans second
      rw [zero_add] at both
      exact both
    · exact first

theorem map_newCoin_eq_ok {β : Type} {denom : Denom} {amount : ℤ} {f : Coin → β} {value : β}
    (done : (newCoin denom amount).map f = .ok value) :
    validateDenom denom = true ∧ value = f ⟨denom, amount⟩ := by
  cases made : newCoin denom amount with
  | error failure =>
      rw [made] at done
      cases done
  | ok coin =>
      rw [made] at done
      cases done
      rcases newCoin_eq_ok.mp made with ⟨validDenom, -, rfl⟩
      exact ⟨validDenom, rfl⟩

/-- What a successful quote says at positive rates and a positive cap. -/
theorem getSwapCoin_quoted {ctx after : Context L} (positive : RatesPositive ctx)
    (capPositive : 0 < ctx.market.dailyLunaDeltaCap.raw) {offerCoin retCoin : Coin}
    {askDenom : Denom} {spread : Dec}
    (done : getSwapCoin ctx offerCoin askDenom false = .ok (retCoin, spread, after)) :
    quotedAmount ctx offerCoin askDenom = some retCoin.amount ∧ retCoin.denom = askDenom ∧
      validateDenom askDenom = true ∧ 0 < retCoin.amount ∧
      (∃ mint, after = { ctx with mint }) ∧ (∀ denom, Mint.Counted denom 0 ctx after) ∧
      ((¬InvolvesLuna offerCoin.denom askDenom ∧ spread = Dec.zero) ∨
        (InvolvesLuna offerCoin.denom askDenom ∧
          spread = spreadAt ctx.market (dailyDelta ctx (lunaChange offerCoin retCoin.amount)) ∧
          dailyDelta ctx (lunaChange offerCoin retCoin.amount) ≤
            ctx.market.dailyLunaDeltaCap)) := by
  cases quoted : quotedAmount ctx offerCoin askDenom with
  | none =>
      rcases getSwapCoin_of_none positive quoted false with ⟨error, refused⟩
      rw [refused] at done
      cases done
  | some ret =>
      rcases getSwapCoin_eq_ok done with ⟨⟨_, _, _, quote⟩, framed, -⟩
      have retPositive := quote.positive
      rw [getSwapCoin_of_some positive quoted] at done
      simp only [Bool.false_eq_true, false_or] at done
      by_cases involved : InvolvesLuna offerCoin.denom askDenom
      · rw [if_neg (not_not.mpr involved)] at done
        split at done
        · cases done
        · next beyond =>
            rw [if_neg capPositive.ne'] at done
            rcases map_newCoin_eq_ok done with ⟨validDenom, same⟩
            cases same
            refine ⟨rfl, rfl, validDenom, retPositive, framed, ?_, Or.inr ⟨involved, rfl, ?_⟩⟩
            · exact fun denom => computeLunaDelta_counted ctx _ denom
            · exact Int.not_lt.mp beyond
      · rw [if_pos involved] at done
        rcases map_newCoin_eq_ok done with ⟨validDenom, same⟩
        cases same
        exact ⟨rfl, rfl, validDenom, retPositive, framed, fun denom => Mint.Counted.refl ctx,
          Or.inl ⟨involved, rfl⟩⟩

/-- Burning the offer and minting the rest changes the issuance of the two denominations. -/
theorem exchange_counted {before burned after : Context L} {msg : MsgSwap} {kept : ℤ}
    (burn : Mint.burn before msg.trader msg.offerCoin = .ok burned)
    (mint : Mint.mint burned msg.trader ⟨msg.askDenom, kept⟩ = .ok after)
    (offerSnapshot : Mint.HasSnapshot before msg.offerCoin.denom)
    (askSnapshot : Mint.HasSnapshot before msg.askDenom) (denom : Denom) :
    Mint.Counted denom (exchanged msg kept denom) before after := by
  have afterBurn : Mint.Counted denom
      (Mint.only msg.offerCoin.denom (-msg.offerCoin.amount) denom) before burned :=
    Mint.burn_counted burn fun same => same ▸ offerSnapshot
  have afterMint : Mint.Counted denom (Mint.only msg.askDenom kept denom) burned after :=
    Mint.mint_counted mint fun same => afterBurn.snapshot (same ▸ askSnapshot)
  exact afterBurn.trans afterMint

/-- Burning the offer and minting the rest settles the accounts, once the fee
was withheld. -/
theorem accounted_of_settled {before after burned : Context L} {msg : MsgSwap} {ret fee : ℤ}
    {readMint : MintStore} {swapFeePool : Option Coins}
    (read : ∀ denom, Mint.Counted denom 0 before { before with mint := readMint })
    (collected : ∀ denom, (swapFeePool.getD Coins.empty).amountOf denom =
      before.oracle.getSwapFeePool.amountOf denom + Mint.only msg.askDenom fee denom)
    (burn : Mint.burn { before with
        mint := readMint, oracle := { before.oracle with swapFeePool } } msg.trader msg.offerCoin =
      .ok burned)
    (mint : Mint.mint burned msg.trader ⟨msg.askDenom, ret - fee⟩ = .ok after)
    (offerSnapshot : Mint.HasSnapshot before msg.offerCoin.denom)
    (askSnapshot : Mint.HasSnapshot before msg.askDenom) :
    Accounted msg ret fee before after := by
  have charged : ∀ denom, Mint.Counted denom 0 before
      { before with mint := readMint, oracle := { before.oracle with swapFeePool } } := by
    intro denom
    have unread : Mint.Counted denom 0 { before with mint := readMint }
        { before with mint := readMint, oracle := { before.oracle with swapFeePool } } :=
      Mint.Counted.of_mint_eq rfl rfl (Or.inr rfl)
    exact (read denom).trans unread
  have counted : ∀ denom, Mint.Counted denom (exchanged msg (ret - fee) denom) before after := by
    intro denom
    have all := (charged denom).trans (exchange_counted burn mint
      ((charged _).snapshot offerSnapshot) ((charged _).snapshot askSnapshot) denom)
    rw [zero_add] at all
    exact all
  rcases Mint.burn_writes burn with ⟨burnedLedger, burnedMint, debited, rfl⟩
  rcases Mint.mint_writes mint with ⟨mintedLedger, mintedMint, credited, rfl⟩
  have moved := debited.trans credited
  simp only [Movement.append, List.append_nil, List.nil_append] at moved
  refine
    { balance := ?_, swapFeePool := collected, issuance := fun denom => (counted denom).today,
      pastIssuance := fun denom => (counted denom).past, staking := ?_, collectedFees := ?_,
      allocatedTo := ?_, allocatedTotal := ?_, oracle := rfl, market := rfl, treasury := rfl,
      budget := rfl, height := rfl }
  · intro address denom
    have negated : Mint.only msg.offerCoin.denom (-msg.offerCoin.amount) denom =
        -Mint.only msg.offerCoin.denom msg.offerCoin.amount denom := by
      simp only [Mint.only]
      split <;> simp
    rw [moved.balance]
    simp only [Mint.credited_single, exchanged, negated]
    split <;> ring
  · simp only [Mint.pooled, exchanged, add_assoc]
  · intro denom
    rw [moved.collectedFees, amountOf_nil, add_zero]
  · intro address denom
    rw [moved.allocatedTo, credited_nil, add_zero]
  · intro denom
    rw [moved.allocatedTotal, creditedTotal_nil, add_zero]

/-- The spread of a swap that involves Luna. -/
structure Charged (ctx : Context L) (msg : MsgSwap) (ret fee : ℤ) (spread : Dec) : Prop where
  spread_eq : spread = spreadAt ctx.market (dailyDelta ctx (lunaChange msg.offerCoin ret))
  lowest : ctx.market.minSwapSpread ≤ spread
  highest : spread ≤ ctx.market.maxSwapSpread
  grows : ∀ smaller larger : Dec, smaller ≤ larger →
    spreadAt ctx.market smaller ≤ spreadAt ctx.market larger
  fee_eq : fee = spread.raw * ret / Dec.precision

/-- The accounts of every swap that succeeds. Between coins other than Luna
nothing is charged; with Luna the spread lies between its bounds and grows with
the change of the Luna issuance over the day. The only pools that change are
the swap fee pool and, when Luna is burned or minted, the staking pool. -/
theorem swap_accounted {before after : Context L} {msg : MsgSwap} {result : Result}
    (valid : before.market.Valid) (capPositive : Dec.zero < before.market.dailyLunaDeltaCap)
    (positive : RatesPositive before)
    (offerSnapshot : Mint.HasSnapshot before msg.offerCoin.denom)
    (askSnapshot : Mint.HasSnapshot before msg.askDenom)
    (accepted : handleMsgSwap before msg = .ok (result, after)) :
    ∃ (ret fee : ℤ) (spread : Dec) (quoted : Context L),
      getSwapCoin before msg.offerCoin msg.askDenom false =
          .ok (⟨msg.askDenom, ret⟩, spread, quoted) ∧
        (¬InvolvesLuna msg.offerCoin.denom msg.askDenom → fee = 0) ∧
        (InvolvesLuna msg.offerCoin.denom msg.askDenom → Charged before msg ret fee spread) ∧
        Accounted msg ret fee before after := by
  rcases handleMsgSwap_steps accepted with
    ⟨⟨retDenom, ret⟩, kept, spread, swapFee, quoted, charged, burned, -, quote, charge, burn, mint⟩
  rcases getSwapCoin_quoted positive capPositive quote with
    ⟨-, rfl, validDenom, retPositive, ⟨readMint, rfl⟩, read, spreadCases⟩
  have spreadNonneg : Dec.zero ≤ spread := by
    rcases spreadCases with ⟨-, rfl⟩ | ⟨-, rfl, within⟩
    · exact le_refl (0 : ℤ)
    · exact spreadAt_nonneg valid capPositive (dailyDelta_nonneg before _) within
  have covered : feeAmount spread ret ≤ ret := by
    by_contra exceeded
    rw [chargeSpread_of_exceeded _ spreadNonneg validDenom retPositive (not_le.mp exceeded)] at charge
    cases charge
  rcases chargeSpread_of_covered { before with mint := readMint } spreadNonneg validDenom
    retPositive covered with ⟨_, swapFeePool, expected, collected⟩
  rw [expected] at charge
  cases charge
  refine ⟨ret, feeAmount spread ret, spread, _, quote, ?_, ?_,
    accounted_of_settled read collected burn mint offerSnapshot askSnapshot⟩
  · intro notInvolved
    rcases spreadCases with ⟨-, rfl⟩ | ⟨involved, -⟩
    · simp [feeAmount, Dec.mulInt, Dec.zero, Dec.truncateInt]
    · exact absurd involved notInvolved
  · intro involved
    rcases spreadCases with ⟨notInvolved, -⟩ | ⟨-, rfl, within⟩
    · exact absurd involved notInvolved
    · rcases spreadAt_bounds valid capPositive (dailyDelta_nonneg before _) within with
        ⟨lowest, highest⟩
      exact ⟨rfl, lowest, highest, fun _ _ ordered => spreadAt_mono valid capPositive ordered,
        Int.tdiv_eq_ediv_of_nonneg (mul_nonneg spreadNonneg retPositive.le)⟩

/-- A trader with a thousand `usdr`, on a chain that counted both coins. -/
def beforeTrade : Context Book :=
  let holdings : Book := Book.empty.setAmounts (List.replicate 20 1) fun denom =>
    if denom = microSDRDenom then 1000 else 0
  let lunaCounted : Store (Denom × ℤ) ℕ := (∅ : Store (Denom × ℤ) ℕ).insert (microLunaDenom, 0) 0
  { parity holdings defaultParams 0 0 with
    mint := { issuance := lunaCounted.insert (microSDRDenom, 0) 1000 } }

theorem beforeTrade_snapshots :
    Mint.HasSnapshot beforeTrade microSDRDenom ∧ Mint.HasSnapshot beforeTrade microLunaDenom :=
  ⟨⟨1000, by decide +kernel⟩, ⟨0, by decide +kernel⟩⟩

theorem beforeTrade_rates : RatesPositive beforeTrade :=
  (parity_submittable (Book.empty.setAmounts (List.replicate 20 1) fun denom =>
    if denom = microSDRDenom then 1000 else 0) defaultParams 0 0 (le_refl (0 : ℤ))).rates

/-- A hundred `usdr` are swapped; two percent of the Luna are withheld. -/
theorem beforeTrade_traded :
    (handleMsgSwap beforeTrade (sdrForLuna 100)).map (fun done =>
      (done.2.staking.notBondedTokens, done.2.oracle.getSwapFeePool.amountOf microLunaDenom)) =
      .ok (98, 2) := by
  decide +kernel

theorem trade_exists : ∃ (result : Result) (after : Context Book),
    handleMsgSwap beforeTrade (sdrForLuna 100) = .ok (result, after) ∧
      after.staking.notBondedTokens = 98 := by
  have traded := beforeTrade_traded
  cases handled : handleMsgSwap beforeTrade (sdrForLuna 100) with
  | error failure =>
      rw [handled] at traded
      cases traded
  | ok done =>
      rw [handled] at traded
      exact ⟨done.1, done.2, rfl, (Prod.mk.inj (Except.ok.inj traded)).1⟩

theorem swap_accounted_trade :
    ∃ (result : Result) (after : Context Book) (ret fee : ℤ),
      handleMsgSwap beforeTrade (sdrForLuna 100) = .ok (result, after) ∧
        Accounted (sdrForLuna 100) ret fee beforeTrade after := by
  rcases trade_exists with ⟨result, after, handled, -⟩
  rcases swap_accounted defaultParams_valid (by decide) beforeTrade_rates beforeTrade_snapshots.1
    beforeTrade_snapshots.2 handled with ⟨ret, fee, _, _, -, -, -, accounted⟩
  exact ⟨result, after, ret, fee, handled, accounted⟩

/-- The staking pool is a further pool that changes when Luna is swapped. -/
theorem staking_pool_changes :
    beforeTrade.market.Valid ∧ Dec.zero < beforeTrade.market.dailyLunaDeltaCap ∧
      RatesPositive beforeTrade ∧ Mint.HasSnapshot beforeTrade microSDRDenom ∧
      Mint.HasSnapshot beforeTrade microLunaDenom ∧
      ∃ (result : Result) (after : Context Book),
        handleMsgSwap beforeTrade (sdrForLuna 100) = .ok (result, after) ∧
          after.staking.notBondedTokens ≠ beforeTrade.staking.notBondedTokens := by
  refine ⟨defaultParams_valid, by decide, beforeTrade_rates, beforeTrade_snapshots.1,
    beforeTrade_snapshots.2, ?_⟩
  rcases trade_exists with ⟨result, after, handled, tokens⟩
  refine ⟨result, after, handled, ?_⟩
  rw [tokens]
  decide

end TerraCore.Market
