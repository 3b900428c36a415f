import TerraCore.Market.Spread
import TerraCore.Oracle.Prices

/-!
# Swaps that panic

Two assumptions about the parameters are made where the spread is computed and
checked nowhere: the cap on the daily change is divided by, and the spread is
subtracted as if it were a part of the amount. The parameters may still have a
cap of zero or a spread above one. Nothing else can make a swap panic at
positive rates, and the rates that the oracle stores are positive.
-/

namespace TerraCore.Market

open Transition

variable {L : Type} [Sdk L]

theorem retAmount_nonneg {amount : ℤ} {offerRate askRate : Dec} (offered : 0 ≤ amount)
    (offerPositive : 0 < offerRate.raw) (askPositive : 0 < askRate.raw) :
    0 ≤ retAmount amount offerRate askRate := by
  have scale := Dec.precision_pos.le
  have product : 0 ≤ ((Dec.ofInt amount).mul askRate).raw :=
    Rounding.roundHalfEven_nonneg Dec.precision_pos
      (mul_nonneg (mul_nonneg offered scale) askPositive.le)
  have exact : 0 ≤ (((Dec.ofInt amount).mul askRate).quotient offerRate).raw :=
    Rounding.roundHalfEven_nonneg Dec.precision_pos
      (Int.tdiv_nonneg (mul_nonneg (mul_nonneg product scale) scale) offerPositive.le)
  exact Int.tdiv_nonneg exact scale

omit [Sdk L] in
theorem quotedAmount_pos {ctx : Context L} (positive : RatesPositive ctx) {offerCoin : Coin}
    {askDenom : Denom} {ret : ℤ} (offered : 0 ≤ offerCoin.amount)
    (quoted : quotedAmount ctx offerCoin askDenom = some ret) : 0 < ret := by
  rcases quotedAmount_eq_some.mp quoted with ⟨offerRate, askRate, offerKnown, askKnown, rfl, nonzero⟩
  exact lt_of_le_of_ne (retAmount_nonneg offered (positive.rate_pos offerKnown)
    (positive.rate_pos askKnown)) (Ne.symm nonzero)

theorem validateBasic_eq_ok {msg : MsgSwap} :
    msg.validateBasic = .ok () ↔
      msg.trader ≠ [] ∧ 0 ≤ msg.offerCoin.amount ∧ msg.offerCoin.denom ≠ msg.askDenom := by
  simp only [MsgSwap.validateBasic]
  split
  · next noTrader => simp [noTrader]
  · split
    · next negative => simp [not_le.mpr negative]
    · next someTrader nonneg =>
        split
        · next same => simp [same]
        · next different => simp [someTrader, not_lt.mp nonneg, different]

/-- The spread would withhold more than the swap returns. -/
def Overcharges (ctx : Context L) (offerCoin : Coin) (askDenom : Denom) : Prop :=
  InvolvesLuna offerCoin.denom askDenom ∧ ctx.market.dailyLunaDeltaCap ≠ Dec.zero ∧
    ∃ ret, quotedAmount ctx offerCoin askDenom = some ret ∧
      dailyDelta ctx (lunaChange offerCoin ret) ≤ ctx.market.dailyLunaDeltaCap ∧
      ret < feeAmount (spreadAt ctx.market (dailyDelta ctx (lunaChange offerCoin ret))) ret

theorem overcharges_iff {ctx : Context L} {offerCoin : Coin} {askDenom : Denom} {ret : ℤ}
    (quoted : quotedAmount ctx offerCoin askDenom = some ret) :
    Overcharges ctx offerCoin askDenom ↔
      InvolvesLuna offerCoin.denom askDenom ∧ ctx.market.dailyLunaDeltaCap ≠ Dec.zero ∧
        dailyDelta ctx (lunaChange offerCoin ret) ≤ ctx.market.dailyLunaDeltaCap ∧
        ret < feeAmount (spreadAt ctx.market (dailyDelta ctx (lunaChange offerCoin ret))) ret := by
  simp [Overcharges, quoted]

/-- Once the spread is charged nothing panics any more. -/
theorem settle_not_panics (safe : Mint.SubtractsSafely L) (ctx : Context L) (msg : MsgSwap)
    (swapCoin : Coin) (swapFee : Option Coin) :
    ¬Outcome.Panics (do
      let ctx ← Mint.burn ctx msg.trader msg.offerCoin
      let ctx ← Mint.mint ctx msg.trader swapCoin
      pure ((⟨[.offer msg.offerCoin.denom, .trader msg.trader],
        [.swapCoin swapCoin, .swapFee swapFee]⟩ : Result), ctx)) := by
  simp only [Outcome.bind_panics, not_or, not_exists, not_and]
  refine ⟨Mint.burn_not_panics safe ctx msg.trader msg.offerCoin, ?_⟩
  intro burned _
  refine ⟨Mint.mint_not_panics burned msg.trader swapCoin, ?_⟩
  intro minted _
  simp [Outcome.Panics, pure, Except.pure]

omit [Sdk L] in
theorem panics_error_iff {α : Type} {failure : Failure} :
    Outcome.Panics (.error failure : Outcome α) ↔ ∃ panic, failure = .panic panic := by
  simp [Outcome.Panics]

/-- A swap that is not quoted panics when the quote does. -/
theorem handleMsgSwap_panics_of_unquoted {ctx : Context L} {msg : MsgSwap} {failure : Failure}
    (different : msg.offerCoin.denom ≠ msg.askDenom)
    (quote : getSwapCoin ctx msg.offerCoin msg.askDenom false = .error failure) :
    Outcome.Panics (handleMsgSwap ctx msg) ↔ ∃ panic, failure = .panic panic := by
  simp only [handleMsgSwap, if_neg different, quote, bind, Except.bind]
  exact panics_error_iff

/-- A swap that is quoted panics when charging the spread does. -/
theorem handleMsgSwap_panics_of_quoted (safe : Mint.SubtractsSafely L) {ctx quoted : Context L}
    {msg : MsgSwap} {retCoin : Coin} {spread : Dec}
    (different : msg.offerCoin.denom ≠ msg.askDenom)
    (quote : getSwapCoin ctx msg.offerCoin msg.askDenom false = .ok (retCoin, spread, quoted)) :
    Outcome.Panics (handleMsgSwap ctx msg) ↔
      Outcome.Panics (chargeSpread quoted retCoin spread) := by
  simp only [handleMsgSwap, if_neg different]
  rw [quote]
  change Outcome.Panics (chargeSpread quoted retCoin spread >>= _) ↔ _
  constructor
  · intro panics
    rcases Outcome.bind_panics.mp panics with charging | ⟨⟨kept, swapFee, charged⟩, -, settling⟩
    · exact charging
    · exact absurd settling (settle_not_panics safe charged msg kept swapFee)
  · intro charging
    exact Outcome.bind_panics.mpr (Or.inl charging)

theorem spreadAt_nonneg {params : Params} (valid : params.Valid)
    (capPositive : 0 < params.dailyLunaDeltaCap.raw) {delta : Dec} (nonneg : Dec.zero ≤ delta)
    (within : delta ≤ params.dailyLunaDeltaCap) : Dec.zero ≤ spreadAt params delta :=
  le_trans (show (0 : ℤ) ≤ params.minSwapSpread.raw from valid.minSwapSpread)
    (spreadAt_bounds valid capPositive nonneg within).1

omit [Sdk L] in
/-- A spread that is charged panics exactly when it exceeds the amount. -/
theorem chargeSpread_panics_iff (ctx : Context L) {swapCoin : Coin} {spread : Dec}
    (nonneg : Dec.zero ≤ spread) (validDenom : validateDenom swapCoin.denom = true)
    (positive : 0 < swapCoin.amount) :
    Outcome.Panics (chargeSpread ctx swapCoin spread) ↔
      swapCoin.amount < feeAmount spread swapCoin.amount := by
  constructor
  · intro panics
    by_contra covered
    rcases chargeSpread_of_covered ctx nonneg validDenom positive (not_lt.mp covered) with
      ⟨swapFee, pool, charged, -⟩
    rcases panics with ⟨panic, failed⟩
    rw [charged] at failed
    cases failed
  · intro exceeded
    exact ⟨_, chargeSpread_of_exceeded ctx nonneg validDenom positive exceeded⟩

/-- A checked swap at positive rates panics exactly when it divides by a zero
cap or when the spread withholds more than the amount. -/
theorem handleMsgSwap_panics_iff (safe : Mint.SubtractsSafely L) {ctx : Context L} {msg : MsgSwap}
    (valid : ctx.market.Valid) (positive : RatesPositive ctx)
    (checked : msg.validateBasic = .ok ()) (askDenom : validateDenom msg.askDenom = true) :
    Outcome.Panics (handleMsgSwap ctx msg) ↔
      DividesByCap ctx msg.offerCoin msg.askDenom ∨
        Overcharges ctx msg.offerCoin msg.askDenom := by
  rcases validateBasic_eq_ok.mp checked with ⟨-, offered, different⟩
  cases quoted : quotedAmount ctx msg.offerCoin msg.askDenom with
  | none =>
      rcases getSwapCoin_of_none positive quoted false with ⟨error, refused⟩
      rw [handleMsgSwap_panics_of_unquoted different refused]
      simp [DividesByCap, Overcharges, quoted]
  | some ret =>
      have retPositive := quotedAmount_pos positive offered quoted
      have made : newCoin msg.askDenom ret = .ok ⟨msg.askDenom, ret⟩ :=
        newCoin_eq_ok.mpr ⟨askDenom, retPositive.le, rfl⟩
      have quote := getSwapCoin_of_some positive quoted false
      have deltaNonneg := dailyDelta_nonneg ctx (lunaChange msg.offerCoin ret)
      simp only [made, Except.map, Bool.false_eq_true, false_or] at quote
      rw [dividesByCap_iff quoted, overcharges_iff quoted]
      by_cases involved : InvolvesLuna msg.offerCoin.denom msg.askDenom
      · rw [if_neg (not_not.mpr involved)] at quote
        by_cases beyond : ctx.market.dailyLunaDeltaCap < dailyDelta ctx (lunaChange msg.offerCoin ret)
        · -- Beyond the cap the swap is refused.
          rw [if_pos beyond] at quote
          rw [handleMsgSwap_panics_of_unquoted different quote]
          have notWithin : ¬dailyDelta ctx (lunaChange msg.offerCoin ret) ≤
              ctx.market.dailyLunaDeltaCap := Int.not_le.mpr beyond
          refine iff_of_false (by simp) ?_
          rintro (⟨-, capZero, deltaZero⟩ | ⟨-, -, within, -⟩)
          · rw [deltaZero, capZero] at notWithin
            exact notWithin (le_refl Dec.zero.raw)
          · exact notWithin within
        · rw [if_neg beyond] at quote
          have within := Int.not_lt.mp beyond
          by_cases capZero : ctx.market.dailyLunaDeltaCap.raw = 0
          · rw [if_pos capZero] at quote
            rw [handleMsgSwap_panics_of_unquoted different quote]
            refine iff_of_true ⟨_, rfl⟩ (Or.inl ⟨involved, Dec.ext capZero, Dec.ext ?_⟩)
            rw [capZero] at within
            exact le_antisymm within deltaNonneg
          · -- Within the cap the spread decides.
            rw [if_neg capZero] at quote
            have capPositive : 0 < ctx.market.dailyLunaDeltaCap.raw :=
              lt_of_le_of_ne valid.dailyLunaDeltaCap (Ne.symm capZero)
            rw [handleMsgSwap_panics_of_quoted safe different quote,
              chargeSpread_panics_iff _ (spreadAt_nonneg valid capPositive deltaNonneg within)
                askDenom retPositive]
            constructor
            · intro exceeded
              exact Or.inr ⟨involved, fun isZero => capZero (congrArg Dec.raw isZero), within,
                exceeded⟩
            · rintro (⟨-, isZero, -⟩ | ⟨-, -, -, exceeded⟩)
              · exact absurd (congrArg Dec.raw isZero) capZero
              · exact exceeded
      · -- Without Luna nothing is charged.
        rw [if_pos involved] at quote
        rw [handleMsgSwap_panics_of_quoted safe different quote,
          chargeSpread_panics_iff _ (le_refl Dec.zero.raw) askDenom retPositive]
        refine iff_of_false ?_ ?_
        · simp only [feeAmount, Dec.mulInt, Dec.zero, zero_mul, Dec.truncateInt, Int.zero_tdiv]
          exact not_lt.mpr retPositive.le
        · rintro (⟨inside, -⟩ | ⟨inside, -⟩)
          · exact involved inside
          · exact involved inside

/-- What the handler may receive: positive rates, and a message that passed
its check and names well-formed denominations. -/
structure Submittable (params : Params) (ctx : Context L) (msg : MsgSwap) : Prop where
  market : ctx.market = params
  rates : RatesPositive ctx
  checked : msg.validateBasic = .ok ()
  offerDenom : validateDenom msg.offerCoin.denom = true
  askDenom : validateDenom msg.askDenom = true

/-- A spread of at most one is covered by the amount. -/
theorem feeAmount_le {spread : Dec} {ret : ℤ} (atMostOne : spread ≤ Dec.one) (positive : 0 < ret) :
    feeAmount spread ret ≤ ret := by
  have whole : spread.raw * ret ≤ Dec.precision * ret :=
    mul_le_mul_of_nonneg_right atMostOne positive.le
  calc feeAmount spread ret
      ≤ (Dec.precision * ret).tdiv Dec.precision := Int.tdiv_le_tdiv Dec.precision_pos whole
    _ = ret := Int.mul_tdiv_cancel_left ret Dec.precision_pos.ne'

/-- Luna and `usdr` trade one to one, and the Luna issuance did not change
from the first day to the second. -/
def parity (ledger : L) (params : Params) (height issuance : ℕ) : Context L :=
  let firstDay : Store (Denom × ℤ) ℕ := (∅ : Store (Denom × ℤ) ℕ).insert (microLunaDenom, 0) issuance
  { Context.genesis ledger (Staking.single (List.replicate 20 1) 10 single_length) with
    height := height
    market := params
    mint := { issuance := firstDay.insert (microLunaDenom, 1) issuance }
    oracle := (OracleStore.initGenesis Oracle.defaultParams).setLunaSwapRate microSDRDenom Dec.one }

/-- A swap of `usdr` for Luna. -/
def sdrForLuna (amount : ℤ) : MsgSwap := ⟨List.replicate 20 1, ⟨microSDRDenom, amount⟩, microLunaDenom⟩

theorem retAmount_parity (amount : ℤ) : retAmount amount Dec.one Dec.one = amount := by
  have scaled : (Dec.ofInt amount).mul Dec.one = Dec.ofInt amount :=
    Dec.ext (Rounding.roundHalfEven_mul_self Dec.precision_pos _)
  have divided : (Dec.ofInt amount).quotient Dec.one = Dec.ofInt amount := by
    apply Dec.ext
    have cancelled : ((Dec.ofInt amount).raw * Dec.precision * Dec.precision).tdiv Dec.one.raw =
        (Dec.ofInt amount).raw * Dec.precision :=
      Int.mul_tdiv_cancel _ Dec.precision_pos.ne'
    simp only [Dec.quotient, cancelled]
    exact Rounding.roundHalfEven_mul_self Dec.precision_pos _
  simp only [retAmount, scaled, divided]
  exact Int.mul_tdiv_cancel amount Dec.precision_pos.ne'

section Parity

variable (ledger : L) (params : Params) (height issuance : ℕ)

omit [Sdk L] in
theorem parity_prices (denom : Denom) :
    (parity ledger params height issuance).oracle.prices[denom]? =
      if microSDRDenom = denom then some Dec.one else none := by
  have lookup := Store.get_insert (∅ : Store Denom Dec) microSDRDenom denom Dec.one
  rw [Store.get_empty] at lookup
  exact lookup

omit [Sdk L] in
theorem parity_submittable {amount : ℤ} (nonneg : 0 ≤ amount) :
    Submittable params (parity ledger params height issuance) (sdrForLuna amount) where
  market := rfl
  rates := by
    intro denom price present
    rw [parity_prices] at present
    split at present
    · cases present
      exact Dec.precision_pos
    · cases present
  checked := validateBasic_eq_ok.mpr
    ⟨List.cons_ne_nil _ _, nonneg, (by decide : microSDRDenom ≠ microLunaDenom)⟩
  offerDenom := (by decide : validateDenom microSDRDenom = true)
  askDenom := (by decide : validateDenom microLunaDenom = true)

omit [Sdk L] in
theorem quotedAmount_parity {amount : ℤ} (nonzero : amount ≠ 0) :
    quotedAmount (parity ledger params height issuance) ⟨microSDRDenom, amount⟩ microLunaDenom =
      some amount := by
  refine quotedAmount_eq_some.mpr ⟨Dec.one, Dec.one, ?_, if_pos rfl,
    (retAmount_parity amount).symm, nonzero⟩
  simp only [OracleStore.getLunaSwapRate, if_neg (show microSDRDenom ≠ microLunaDenom by decide)]
  rw [parity_prices, if_pos rfl]

/-- On the second day the change of the issuance is what the swap mints. -/
theorem dailyDelta_parity (change : ℤ) (nonzero : issuance ≠ 0) :
    dailyDelta (parity ledger params blocksPerDay issuance) change =
      ⟨|(change * Dec.precision).tdiv issuance|⟩ := by
  have today : (parity ledger params blocksPerDay issuance).today = 1 := by
    change ((blocksPerDay / blocksPerDay : ℕ) : ℤ) = 1
    decide
  have secondDay : Mint.issuanceAt (parity ledger params blocksPerDay issuance) microLunaDenom 1 =
      issuance := by
    have present := Store.get_insert ((∅ : Store (Denom × ℤ) ℕ).insert (microLunaDenom, 0) issuance)
      (microLunaDenom, 1) (microLunaDenom, 1) issuance
    rw [if_pos rfl] at present
    rw [Mint.issuanceAt_eq]
    simp only [Mint.lookBack, Int.toNat_one, parity, present]
  have firstDay : Mint.issuanceAt (parity ledger params blocksPerDay issuance) microLunaDenom 0 =
      issuance := by
    have present := Store.get_insert (∅ : Store (Denom × ℤ) ℕ) (microLunaDenom, 0)
      (microLunaDenom, 0) issuance
    rw [if_pos rfl] at present
    have lookup := Store.get_insert ((∅ : Store (Denom × ℤ) ℕ).insert (microLunaDenom, 0) issuance)
      (microLunaDenom, 1) (microLunaDenom, 0) issuance
    rw [if_neg (by simp), present] at lookup
    rw [Mint.issuanceAt_eq]
    simp only [Mint.lookBack, Int.toNat_zero, parity, lookup, Option.getD_some]
  simp only [dailyDelta, today, sub_self, firstDay, secondDay]
  rw [if_neg (by simpa using nonzero), add_sub_cancel_left]

/-- With a cap of zero there is a swap that divides by it. -/
theorem parity_dividesByCap (noCap : params.dailyLunaDeltaCap = Dec.zero) :
    DividesByCap (parity ledger params 0 issuance) ⟨microSDRDenom, 1⟩ microLunaDenom := by
  have today : (parity ledger params 0 issuance).today = 0 := by
    change ((0 / blocksPerDay : ℕ) : ℤ) = 0
    decide
  refine ⟨Or.inr rfl, noCap, 1, quotedAmount_parity ledger params 0 issuance one_ne_zero, ?_⟩
  simp only [dailyDelta, today, true_or, if_true]

/-- With a maximal spread above one there is a swap that is charged more than
it returns: one that reaches the cap, scaled up until the excess is visible. -/
theorem parity_overcharges (capPositive : 0 < params.dailyLunaDeltaCap.raw)
    (aboveOne : Dec.one < params.maxSwapSpread) :
    Overcharges (parity ledger params blocksPerDay (10 ^ 36))
      ⟨microSDRDenom, params.dailyLunaDeltaCap.raw * Dec.precision⟩ microLunaDenom := by
  have nonzero : params.dailyLunaDeltaCap.raw * Dec.precision ≠ 0 :=
    (mul_pos capPositive Dec.precision_pos).ne'
  have change : lunaChange ⟨microSDRDenom, params.dailyLunaDeltaCap.raw * Dec.precision⟩
      (params.dailyLunaDeltaCap.raw * Dec.precision) =
        params.dailyLunaDeltaCap.raw * Dec.precision :=
    if_neg (show microSDRDenom ≠ microLunaDenom by decide)
  have atCap : dailyDelta (parity ledger params blocksPerDay (10 ^ 36))
      (params.dailyLunaDeltaCap.raw * Dec.precision) = params.dailyLunaDeltaCap := by
    rw [dailyDelta_parity ledger params (10 ^ 36) _ (by norm_num)]
    apply Dec.ext
    have scale : ((10 ^ 36 : ℕ) : ℤ) = Dec.precision * Dec.precision := by
      norm_num [Dec.precision]
    simp only [scale, mul_assoc]
    rw [Int.mul_tdiv_cancel _ (mul_pos Dec.precision_pos Dec.precision_pos).ne']
    exact abs_of_pos capPositive
  refine ⟨Or.inr rfl, fun isZero => capPositive.ne' (congrArg Dec.raw isZero), _,
    quotedAmount_parity ledger params blocksPerDay (10 ^ 36) nonzero, ?_, ?_⟩
  · rw [change, atCap]
    exact le_refl params.dailyLunaDeltaCap.raw
  · rw [change, atCap]
    change _ < feeAmount (spreadAt params params.dailyLunaDeltaCap) _
    rw [spreadAt_cap capPositive]
    have fee : feeAmount params.maxSwapSpread (params.dailyLunaDeltaCap.raw * Dec.precision) =
        params.maxSwapSpread.raw * params.dailyLunaDeltaCap.raw := by
      simp only [feeAmount, Dec.mulInt, Dec.truncateInt, ← mul_assoc]
      exact Int.mul_tdiv_cancel _ Dec.precision_pos.ne'
    rw [fee, mul_comm params.maxSwapSpread.raw]
    exact mul_lt_mul_of_pos_left aboveOne capPositive

end Parity

/-- Under valid parameters every swap ends with a result or an error exactly
when the cap is positive and the maximal spread is at most one; a single swap
does unless it divides by a zero cap or is charged more than it returns. -/
theorem swaps_fail_cleanly_iff [Nonempty L] (safe : Mint.SubtractsSafely L) {params : Params}
    (valid : params.Valid) :
    ((∀ (ctx : Context L) (msg : MsgSwap), Submittable params ctx msg →
          ¬Outcome.Panics (handleMsgSwap ctx msg)) ↔
        Dec.zero < params.dailyLunaDeltaCap ∧ params.maxSwapSpread ≤ Dec.one) ∧
      ∀ (ctx : Context L) (msg : MsgSwap), Submittable params ctx msg →
        (¬Outcome.Panics (handleMsgSwap ctx msg) ↔
          ¬DividesByCap ctx msg.offerCoin msg.askDenom ∧
            ¬Overcharges ctx msg.offerCoin msg.askDenom) := by
  have exactly : ∀ (ctx : Context L) (msg : MsgSwap), Submittable params ctx msg →
      (Outcome.Panics (handleMsgSwap ctx msg) ↔
        DividesByCap ctx msg.offerCoin msg.askDenom ∨
          Overcharges ctx msg.offerCoin msg.askDenom) := by
    intro ctx msg submittable
    exact handleMsgSwap_panics_iff safe (submittable.market ▸ valid) submittable.rates
      submittable.checked submittable.askDenom
  refine ⟨⟨?_, ?_⟩, ?_⟩
  · intro clean
    rcases ‹Nonempty L› with ⟨ledger⟩
    have capPositive : 0 < params.dailyLunaDeltaCap.raw := by
      apply lt_of_le_of_ne valid.dailyLunaDeltaCap
      intro isZero
      have submittable := parity_submittable ledger params 0 0 (zero_le_one : (0 : ℤ) ≤ 1)
      exact clean _ _ submittable ((exactly _ _ submittable).mpr
        (Or.inl (parity_dividesByCap ledger params 0 (Dec.ext isZero.symm))))
    refine ⟨capPositive, Int.not_lt.mp ?_⟩
    intro aboveOne
    have submittable := parity_submittable ledger params blocksPerDay (10 ^ 36)
      (mul_pos capPositive Dec.precision_pos).le
    exact clean _ _ submittable ((exactly _ _ submittable).mpr
      (Or.inr (parity_overcharges ledger params capPositive aboveOne)))
  · rintro ⟨capPositive, atMostOne⟩ ctx msg submittable panics
    rcases (exactly ctx msg submittable).mp panics with
      ⟨-, noCap, -⟩ | ⟨-, -, ret, quoted, within, exceeded⟩
    · rw [submittable.market] at noCap
      rw [noCap] at capPositive
      exact lt_irrefl (0 : ℤ) capPositive
    · have offered := (validateBasic_eq_ok.mp submittable.checked).2.1
      have retPositive := quotedAmount_pos submittable.rates offered quoted
      rw [submittable.market] at within exceeded
      have highest := (spreadAt_bounds valid capPositive (dailyDelta_nonneg ctx _) within).2
      have covered := feeAmount_le (le_trans (show _ ≤ params.maxSwapSpread.raw from highest)
        atMostOne) retPositive
      exact absurd exceeded (not_lt.mpr covered)
  · intro ctx msg submittable
    rw [exactly ctx msg submittable, not_or]

theorem book_subtractsSafely : Mint.SubtractsSafely Book := by
  intro ledger address coins
  simp only [Sdk.subtractCoins, Book.subtractCoins, Outcome.Panics]
  split
  · split <;> simp
  · simp

theorem defaultParams_valid : defaultParams.Valid :=
  ⟨by decide, by decide, by decide⟩

theorem swaps_fail_cleanly_iff_defaultParams :
    Dec.zero < defaultParams.dailyLunaDeltaCap ∧ defaultParams.maxSwapSpread ≤ Dec.one ∧
      ¬Outcome.Panics (handleMsgSwap (parity Book.empty defaultParams 0 1) (sdrForLuna 1)) := by
  have : Nonempty Book := ⟨Book.empty⟩
  have clean := (swaps_fail_cleanly_iff book_subtractsSafely defaultParams_valid).1.mpr
    ⟨by decide, by decide⟩
  exact ⟨by decide, by decide, clean _ _ (parity_submittable _ _ _ _ (by decide))⟩

/-- A cap of zero, and a maximal spread of two: both are valid parameters. -/
theorem valid_params_panic :
    (∃ params : Params, params.Valid ∧ params.dailyLunaDeltaCap = Dec.zero ∧
        Submittable params (parity Book.empty params 0 1) (sdrForLuna 1) ∧
        (handleMsgSwap (parity Book.empty params 0 1) (sdrForLuna 1)).map Prod.fst =
          .error (.panic .divisionByZero)) ∧
      ∃ params : Params, params.Valid ∧ params.maxSwapSpread = Dec.ofInt 2 ∧
        Submittable params (parity Book.empty params blocksPerDay 1000) (sdrForLuna 5) ∧
        (handleMsgSwap (parity Book.empty params blocksPerDay 1000) (sdrForLuna 5)).map Prod.fst =
          .error (.panic .negativeCoinAmount) := by
  constructor
  · refine ⟨{ defaultParams with dailyLunaDeltaCap := Dec.zero }, ⟨by decide, by decide, by decide⟩,
      rfl, parity_submittable _ _ _ _ (by decide), by decide +kernel⟩
  · refine ⟨{ defaultParams with maxSwapSpread := Dec.ofInt 2 }, ⟨by decide, by decide, by decide⟩,
      rfl, parity_submittable _ _ _ _ (by decide), by decide +kernel⟩

/-- From an empty oracle store on, stored rates are positive, and so a quote
divides by zero only when it divides by a zero cap. -/
theorem quotes_divide_only_by_cap {start ctx : Context L} {params : Oracle.Params}
    {actions : List (Oracle.Action L)} (empty : start.oracle = OracleStore.initGenesis params)
    (reached : Reaches Oracle.step start actions ctx)
    (valid : Along Oracle.step Oracle.TallyValid start actions) :
    (∀ (denom : Denom) (price : Dec), ctx.oracle.prices[denom]? = some price → Dec.zero < price) ∧
      (∀ (offerCoin : DecCoin) (askDenom : Denom),
        getSwapDecCoin ctx offerCoin askDenom ≠ .error (.panic .divisionByZero)) ∧
      ∀ (offerCoin : Coin) (askDenom : Denom) (isInternal : Bool),
        getSwapCoin ctx offerCoin askDenom isInternal ≠ .error (.panic .divisionByZero) ↔
          ¬(isInternal = false ∧ DividesByCap ctx offerCoin askDenom) := by
  have positive : RatesPositive ctx := (Oracle.reaches_pricesPositive empty reached valid).prices
  refine ⟨positive, getSwapDecCoin_ne_division positive, ?_⟩
  intro offerCoin askDenom isInternal
  exact not_congr (getSwapCoin_divides_iff positive offerCoin askDenom isInternal)

/-- A cap of zero on the chain of the oracle's short run. -/
def noCapStart : Context Book :=
  { Oracle.sampleStart with market := { defaultParams with dailyLunaDeltaCap := Dec.zero } }

/-- The short run, up to the end of the block in which the price is revealed. -/
def talliedActions : List (Oracle.Action Book) :=
  Oracle.sampleActions ++ [.endBlock Oracle.MapOrder.sorted]

theorem talliedActions_valid : Along Oracle.step Oracle.TallyValid noCapStart talliedActions := by
  decide +kernel

theorem talliedActions_quotes :
    (perform Oracle.step noCapStart talliedActions).map (fun ctx =>
      (ctx.oracle.prices[microSDRDenom]?,
        (getSwapCoin ctx ⟨microLunaDenom, 1⟩ microSDRDenom false).map Prod.fst,
        (getSwapCoin ctx ⟨microLunaDenom, 1⟩ microSDRDenom true).map Prod.fst)) =
      some (some Dec.one, .error (.panic .divisionByZero), .ok ⟨microSDRDenom, 1⟩) := by
  decide +kernel

theorem quotes_divide_only_by_cap_tallied :
    ∃ ctx : Context Book, Reaches Oracle.step noCapStart talliedActions ctx ∧
      ctx.oracle.prices[microSDRDenom]? = some Dec.one ∧
      getSwapDecCoin ctx ⟨microLunaDenom, Dec.one⟩ microSDRDenom ≠
        .error (.panic .divisionByZero) ∧
      getSwapCoin ctx ⟨microLunaDenom, 1⟩ microSDRDenom true ≠
        .error (.panic .divisionByZero) := by
  rcases Option.map_eq_some_iff.mp talliedActions_quotes with ⟨ctx, performed, quotes⟩
  have reached := reaches_of_perform performed
  rcases quotes_divide_only_by_cap rfl reached talliedActions_valid with ⟨-, decimals, coins⟩
  refine ⟨ctx, reached, (Prod.mk.inj quotes).1, decimals _ _, (coins _ _ _).mpr ?_⟩
  rintro ⟨external, -⟩
  cases external

/-- A quote for Luna divides by the cap although all rates are positive. -/
theorem zero_cap_divides :
    noCapStart.oracle = OracleStore.initGenesis noCapStart.oracle.params ∧
      noCapStart.market.Valid ∧ Along Oracle.step Oracle.TallyValid noCapStart talliedActions ∧
      ∃ ctx : Context Book, Reaches Oracle.step noCapStart talliedActions ctx ∧
        getSwapCoin ctx ⟨microLunaDenom, 1⟩ microSDRDenom false =
          .error (.panic .divisionByZero) := by
  refine ⟨rfl, ⟨by decide, by decide, by decide⟩, talliedActions_valid, ?_⟩
  rcases Option.map_eq_some_iff.mp talliedActions_quotes with ⟨ctx, performed, quotes⟩
  refine ⟨ctx, reaches_of_perform performed, ?_⟩
  have divided := (Prod.mk.inj (Prod.mk.inj quotes).2).1
  cases quote : getSwapCoin ctx ⟨microLunaDenom, 1⟩ microSDRDenom false with
  | ok done =>
      rw [quote] at divided
      cases divided
  | error failure =>
      rw [quote] at divided
      cases divided
      rfl

end TerraCore.Market
