import TerraCore.Market.Handler

/-!
# Quotes and spreads

A quote as a formula over the state that it is asked in: the amount from the
rates, the change of the Luna issuance from the snapshots, and the spread from
the change. The spread interpolates between its two bounds. Rounding cannot
overshoot them, since the bounds themselves are representable.
-/

namespace TerraCore

namespace Dec

/-- `Dec.Quo` by a divisor that is not zero. -/
def quotient (left right : Dec) : Dec :=
  ⟨chopPrecisionAndRound ((left.raw * precision * precision).tdiv right.raw)⟩

theorem quo_eq (left right : Dec) :
    left.quo right =
      if right.raw = 0 then .error (.panic .divisionByZero) else .ok (left.quotient right) := rfl

theorem quotient_mono {smaller larger divisor : Dec} (positive : 0 < divisor.raw)
    (ordered : smaller.raw ≤ larger.raw) :
    (smaller.quotient divisor).raw ≤ (larger.quotient divisor).raw := by
  apply Rounding.roundHalfEven_mono precision_pos
  apply Int.tdiv_le_tdiv positive
  have scale := precision_pos.le
  exact mul_le_mul_of_nonneg_right (mul_le_mul_of_nonneg_right ordered scale) scale

theorem zero_quotient (divisor : Dec) : (zero.quotient divisor).raw = 0 := by
  simp only [quotient, zero, zero_mul, Int.zero_tdiv]
  rfl

theorem quotient_self {divisor : Dec} (positive : 0 < divisor.raw) :
    (divisor.quotient divisor).raw = precision := by
  have cancelled : (divisor.raw * precision * precision).tdiv divisor.raw =
      precision * precision := by
    rw [mul_assoc, Int.mul_tdiv_cancel_left _ positive.ne']
  simp only [quotient, cancelled]
  exact Rounding.roundHalfEven_mul_self precision_pos precision

theorem mul_mono {smaller larger factor : Dec} (nonneg : 0 ≤ factor.raw)
    (ordered : smaller.raw ≤ larger.raw) : (smaller.mul factor).raw ≤ (larger.mul factor).raw :=
  Rounding.roundHalfEven_mono precision_pos (mul_le_mul_of_nonneg_right ordered nonneg)

theorem zero_mul_raw (factor : Dec) : (zero.mul factor).raw = 0 := by
  simp only [mul, zero, zero_mul]
  rfl

theorem one_mul_raw (factor : Dec) : (one.mul factor).raw = factor.raw := by
  simp only [mul, one]
  rw [mul_comm]
  exact Rounding.roundHalfEven_mul_self precision_pos factor.raw

end Dec

namespace Market

/-- The spread at a change of the Luna issuance, when the cap is not zero. -/
def spreadAt (params : Params) (dailyDelta : Dec) : Dec :=
  params.minSwapSpread.add ((dailyDelta.quotient params.dailyLunaDeltaCap).mul
    (params.maxSwapSpread.sub params.minSwapSpread))

theorem swapSpread_eq (params : Params) (dailyDelta : Dec) :
    swapSpread params dailyDelta =
      if params.dailyLunaDeltaCap.raw = 0 then .error (.panic .divisionByZero)
      else .ok (spreadAt params dailyDelta) := by
  simp only [swapSpread, Dec.quo_eq]
  split <;> rfl

/-- `validateParams` accepts the parameters. -/
structure Params.Valid (params : Params) : Prop where
  dailyLunaDeltaCap : Dec.zero ≤ params.dailyLunaDeltaCap
  minSwapSpread : Dec.zero ≤ params.minSwapSpread
  maxSwapSpread : params.minSwapSpread ≤ params.maxSwapSpread

variable {params : Params}

theorem Params.Valid.range_nonneg (valid : params.Valid) :
    0 ≤ (params.maxSwapSpread.sub params.minSwapSpread).raw :=
  sub_nonneg.mpr valid.maxSwapSpread

/-- The spread grows with the change. -/
theorem spreadAt_mono (valid : params.Valid) (positive : 0 < params.dailyLunaDeltaCap.raw)
    {smaller larger : Dec} (ordered : smaller ≤ larger) :
    spreadAt params smaller ≤ spreadAt params larger :=
  Int.add_le_add_left (Dec.mul_mono valid.range_nonneg (Dec.quotient_mono positive ordered)) _

theorem spreadAt_zero (params : Params) : spreadAt params Dec.zero = params.minSwapSpread := by
  have noShare : Dec.zero.quotient params.dailyLunaDeltaCap = Dec.zero :=
    Dec.ext (Dec.zero_quotient _)
  apply Dec.ext
  simp only [spreadAt, noShare, Dec.add, Dec.zero_mul_raw, add_zero]

theorem spreadAt_cap (positive : 0 < params.dailyLunaDeltaCap.raw) :
    spreadAt params params.dailyLunaDeltaCap = params.maxSwapSpread := by
  have wholeShare : params.dailyLunaDeltaCap.quotient params.dailyLunaDeltaCap = Dec.one :=
    Dec.ext (Dec.quotient_self positive)
  apply Dec.ext
  simp only [spreadAt, wholeShare, Dec.add, Dec.one_mul_raw, Dec.sub]
  ring

/-- Up to the cap the spread stays between its bounds. -/
theorem spreadAt_bounds (valid : params.Valid) (positive : 0 < params.dailyLunaDeltaCap.raw)
    {dailyDelta : Dec} (nonneg : Dec.zero ≤ dailyDelta)
    (within : dailyDelta ≤ params.dailyLunaDeltaCap) :
    params.minSwapSpread ≤ spreadAt params dailyDelta ∧
      spreadAt params dailyDelta ≤ params.maxSwapSpread := by
  constructor
  · have lowest := spreadAt_mono valid positive nonneg
    rw [spreadAt_zero] at lowest
    exact lowest
  · have highest := spreadAt_mono valid positive within
    rw [spreadAt_cap positive] at highest
    exact highest

variable {L : Type} [Sdk L]

/-- By which part of yesterday's issuance today's would differ from it after
a change; nothing is compared on the first day or without an issuance. -/
def dailyDelta (ctx : Context L) (change : ℤ) : Dec :=
  let prevIssuance := Mint.issuanceAt ctx microLunaDenom (ctx.today - 1)
  if ctx.today = 0 ∨ prevIssuance = 0 then Dec.zero
  else
    ⟨|((Mint.issuanceAt ctx microLunaDenom ctx.today + change - prevIssuance) *
      Dec.precision).tdiv prevIssuance|⟩

theorem computeLunaDelta_abs (ctx : Context L) (change : ℤ) :
    (computeLunaDelta ctx change).1.abs = dailyDelta ctx change := by
  simp only [dailyDelta]
  by_cases firstDay : ctx.today = 0
  · simp [computeLunaDelta, firstDay, Dec.abs, Dec.zero]
  · by_cases noIssuance : Mint.issuanceAt ctx microLunaDenom (ctx.today - 1) = 0
    · have previous : (Mint.getIssuance ctx microLunaDenom (ctx.today - 1)).1 = 0 := noIssuance
      simp [computeLunaDelta, firstDay, previous, noIssuance, Dec.abs, Dec.zero]
    · rw [computeLunaDelta_fst ctx change firstDay noIssuance, if_neg (by simp [firstDay, noIssuance])]
      rfl

theorem dailyDelta_nonneg (ctx : Context L) (change : ℤ) : Dec.zero ≤ dailyDelta ctx change := by
  rw [← computeLunaDelta_abs]
  exact abs_nonneg (computeLunaDelta ctx change).1.raw

/-- The amount that a swap returns before fees. -/
def retAmount (amount : ℤ) (offerRate askRate : Dec) : ℤ :=
  (((Dec.ofInt amount).mul askRate).quotient offerRate).truncateInt

/-- Luna is on one side of the swap. -/
def InvolvesLuna (offerDenom askDenom : Denom) : Prop :=
  offerDenom = microLunaDenom ∨ askDenom = microLunaDenom

instance (offerDenom askDenom : Denom) : Decidable (InvolvesLuna offerDenom askDenom) :=
  inferInstanceAs (Decidable (_ ∨ _))

/-- The quote, case by case. -/
theorem getSwapCoin_eq {ctx : Context L} {offerCoin : Coin} {askDenom : Denom}
    {offerRate askRate : Dec}
    (offerKnown : ctx.oracle.getLunaSwapRate offerCoin.denom = .ok offerRate)
    (askKnown : ctx.oracle.getLunaSwapRate askDenom = .ok askRate) (nonzero : offerRate.raw ≠ 0)
    (isInternal : Bool) :
    getSwapCoin ctx offerCoin askDenom isInternal =
      let ret := retAmount offerCoin.amount offerRate askRate
      let delta := dailyDelta ctx (lunaChange offerCoin ret)
      if ret = 0 then .error (.error (.insufficientSwapCoins offerCoin.amount))
      else if isInternal ∨ ¬InvolvesLuna offerCoin.denom askDenom then
        (newCoin askDenom ret).map fun retCoin => (retCoin, Dec.zero, ctx)
      else if ctx.market.dailyLunaDeltaCap < delta then .error (.error .exceedsDailySwapLimit)
      else if ctx.market.dailyLunaDeltaCap.raw = 0 then .error (.panic .divisionByZero)
      else (newCoin askDenom ret).map fun retCoin =>
        (retCoin, spreadAt ctx.market delta,
          (computeLunaDelta ctx (lunaChange offerCoin ret)).2) := by
  have offerOk := effectivePrice_eq_ok.mpr offerKnown
  have askOk := effectivePrice_eq_ok.mpr askKnown
  have notInvolved : (offerCoin.denom ≠ microLunaDenom ∧ askDenom ≠ microLunaDenom) ↔
      ¬InvolvesLuna offerCoin.denom askDenom := by
    simp [InvolvesLuna]
  simp only [getSwapCoin, offerOk, askOk, Dec.quo_eq, if_neg nonzero, bind, Except.bind,
    notInvolved, ← computeLunaDelta_abs, swapSpread_eq, retAmount]
  generalize (((Dec.ofInt offerCoin.amount).mul askRate).quotient offerRate).truncateInt = ret
  by_cases nothing : ret = 0
  · simp only [nothing, if_true]
  · by_cases free : isInternal = true ∨ ¬InvolvesLuna offerCoin.denom askDenom
    · simp only [nothing, free, if_true, if_false]
      cases newCoin askDenom ret <;> rfl
    · simp only [nothing, free, if_false]
      by_cases noCap : ctx.market.dailyLunaDeltaCap.raw = 0
      · simp only [noCap, if_true]
      · simp only [noCap, if_false]
        cases newCoin askDenom ret <;> rfl

omit [Sdk L] in
/-- A rate that the market knows is the rate of Luna or a stored price. -/
theorem effectivePrice_cases (ctx : Context L) (denom : Denom) :
    (∃ rate, ctx.oracle.getLunaSwapRate denom = .ok rate ∧
        effectivePrice ctx denom = .ok rate) ∨
      effectivePrice ctx denom = .error (.error (.noEffectivePrice denom)) := by
  simp only [effectivePrice]
  cases ctx.oracle.getLunaSwapRate denom with
  | ok rate => exact Or.inl ⟨rate, rfl, rfl⟩
  | error failure => exact Or.inr rfl

/-- All rates that the market can use are positive. -/
def RatesPositive (ctx : Context L) : Prop :=
  ∀ (denom : Denom) (price : Dec), ctx.oracle.prices[denom]? = some price → 0 < price.raw

omit [Sdk L] in
theorem RatesPositive.rate_pos {ctx : Context L} (positive : RatesPositive ctx) {denom : Denom}
    {rate : Dec} (known : ctx.oracle.getLunaSwapRate denom = .ok rate) : 0 < rate.raw := by
  simp only [OracleStore.getLunaSwapRate] at known
  split at known
  · cases known
    exact Dec.precision_pos
  · split at known
    · next price present =>
        cases known
        exact positive denom _ present
    · cases known

/-- The amount that a swap returns before fees, or nothing when a rate is
unknown or the offer is too small. -/
def quotedAmount (ctx : Context L) (offerCoin : Coin) (askDenom : Denom) : Option ℤ :=
  match ctx.oracle.getLunaSwapRate offerCoin.denom, ctx.oracle.getLunaSwapRate askDenom with
  | .ok offerRate, .ok askRate =>
      let ret := retAmount offerCoin.amount offerRate askRate
      if ret = 0 then none else some ret
  | _, _ => none

omit [Sdk L] in
theorem quotedAmount_eq_some {ctx : Context L} {offerCoin : Coin} {askDenom : Denom} {ret : ℤ} :
    quotedAmount ctx offerCoin askDenom = some ret ↔
      ∃ offerRate askRate, ctx.oracle.getLunaSwapRate offerCoin.denom = .ok offerRate ∧
        ctx.oracle.getLunaSwapRate askDenom = .ok askRate ∧
        ret = retAmount offerCoin.amount offerRate askRate ∧ ret ≠ 0 := by
  simp only [quotedAmount]
  cases ctx.oracle.getLunaSwapRate offerCoin.denom with
  | error failure => simp
  | ok offerRate =>
      cases ctx.oracle.getLunaSwapRate askDenom with
      | error failure => simp
      | ok askRate =>
          by_cases nothing : retAmount offerCoin.amount offerRate askRate = 0
          · simp [nothing]
          · simp only [if_neg nothing, Option.some.injEq, Except.ok.injEq]
            constructor
            · rintro rfl
              exact ⟨offerRate, askRate, rfl, rfl, rfl, nothing⟩
            · rintro ⟨_, _, rfl, rfl, rfl, -⟩
              rfl

/-- Without an amount the swap is refused. -/
theorem getSwapCoin_of_none {ctx : Context L} (positive : RatesPositive ctx) {offerCoin : Coin}
    {askDenom : Denom} (unquoted : quotedAmount ctx offerCoin askDenom = none)
    (isInternal : Bool) :
    ∃ error, getSwapCoin ctx offerCoin askDenom isInternal = .error (.error error) := by
  rcases effectivePrice_cases ctx offerCoin.denom with ⟨offerRate, offerKnown, offerOk⟩ | noOffer
  · rcases effectivePrice_cases ctx askDenom with ⟨askRate, askKnown, -⟩ | noAsk
    · have nothing : retAmount offerCoin.amount offerRate askRate = 0 := by
        by_contra nonzero
        simp [quotedAmount, offerKnown, askKnown, nonzero] at unquoted
      have quote := getSwapCoin_eq offerKnown askKnown (positive.rate_pos offerKnown).ne' isInternal
      simp only [nothing, if_true] at quote
      exact ⟨_, quote⟩
    · refine ⟨.noEffectivePrice askDenom, ?_⟩
      simp only [getSwapCoin, offerOk, noAsk, bind, Except.bind]
  · refine ⟨.noEffectivePrice offerCoin.denom, ?_⟩
    simp only [getSwapCoin, noOffer, bind, Except.bind]

/-- An amount is refused beyond the cap, charged when Luna is involved, or free. -/
theorem getSwapCoin_of_some {ctx : Context L} (positive : RatesPositive ctx) {offerCoin : Coin}
    {askDenom : Denom} {ret : ℤ} (quoted : quotedAmount ctx offerCoin askDenom = some ret)
    (isInternal : Bool) :
    getSwapCoin ctx offerCoin askDenom isInternal =
      let delta := dailyDelta ctx (lunaChange offerCoin ret)
      if isInternal ∨ ¬InvolvesLuna offerCoin.denom askDenom then
        (newCoin askDenom ret).map fun retCoin => (retCoin, Dec.zero, ctx)
      else if ctx.market.dailyLunaDeltaCap < delta then .error (.error .exceedsDailySwapLimit)
      else if ctx.market.dailyLunaDeltaCap.raw = 0 then .error (.panic .divisionByZero)
      else (newCoin askDenom ret).map fun retCoin =>
        (retCoin, spreadAt ctx.market delta,
          (computeLunaDelta ctx (lunaChange offerCoin ret)).2) := by
  rcases quotedAmount_eq_some.mp quoted with ⟨offerRate, askRate, offerKnown, askKnown, rfl, nonzero⟩
  have quote := getSwapCoin_eq offerKnown askKnown (positive.rate_pos offerKnown).ne' isInternal
  simp only [nonzero, if_false] at quote
  exact quote

/-- The swap would be charged a spread although the cap is zero. -/
def DividesByCap (ctx : Context L) (offerCoin : Coin) (askDenom : Denom) : Prop :=
  InvolvesLuna offerCoin.denom askDenom ∧ ctx.market.dailyLunaDeltaCap = Dec.zero ∧
    ∃ ret, quotedAmount ctx offerCoin askDenom = some ret ∧
      dailyDelta ctx (lunaChange offerCoin ret) = Dec.zero

theorem dividesByCap_iff {ctx : Context L} {offerCoin : Coin} {askDenom : Denom} {ret : ℤ}
    (quoted : quotedAmount ctx offerCoin askDenom = some ret) :
    DividesByCap ctx offerCoin askDenom ↔
      InvolvesLuna offerCoin.denom askDenom ∧ ctx.market.dailyLunaDeltaCap = Dec.zero ∧
        dailyDelta ctx (lunaChange offerCoin ret) = Dec.zero := by
  simp [DividesByCap, quoted]

theorem newCoin_map_ne_division {β : Type} (denom : Denom) (amount : ℤ) (f : Coin → β) :
    (newCoin denom amount).map f ≠ .error (.panic .divisionByZero) := by
  simp only [newCoin]
  split
  · split <;> simp [Except.map]
  · simp [Except.map]

/-- At positive rates nothing but a zero cap is divided by. -/
theorem getSwapCoin_divides_iff {ctx : Context L} (positive : RatesPositive ctx)
    (offerCoin : Coin) (askDenom : Denom) (isInternal : Bool) :
    getSwapCoin ctx offerCoin askDenom isInternal = .error (.panic .divisionByZero) ↔
      isInternal = false ∧ DividesByCap ctx offerCoin askDenom := by
  cases quoted : quotedAmount ctx offerCoin askDenom with
  | none =>
      rcases getSwapCoin_of_none positive quoted isInternal with ⟨error, refused⟩
      simp [refused, DividesByCap, quoted]
  | some ret =>
      rw [getSwapCoin_of_some positive quoted, dividesByCap_iff quoted]
      have nonneg := dailyDelta_nonneg ctx (lunaChange offerCoin ret)
      generalize dailyDelta ctx (lunaChange offerCoin ret) = delta at nonneg ⊢
      simp only
      by_cases free : isInternal = true ∨ ¬InvolvesLuna offerCoin.denom askDenom
      · rw [if_pos free]
        refine iff_of_false (newCoin_map_ne_division _ _ _) ?_
        rintro ⟨external, involved, -⟩
        simp [external, involved] at free
      · rw [if_neg free]
        simp only [not_or, Bool.not_eq_true, not_not] at free
        by_cases beyond : ctx.market.dailyLunaDeltaCap < delta
        · rw [if_pos beyond]
          refine iff_of_false (by simp) ?_
          rintro ⟨-, -, capZero, deltaZero⟩
          rw [capZero, deltaZero] at beyond
          exact lt_irrefl Dec.zero.raw beyond
        · rw [if_neg beyond]
          by_cases capZero : ctx.market.dailyLunaDeltaCap.raw = 0
          · rw [if_pos capZero]
            refine iff_of_true rfl ⟨free.1, free.2, Dec.ext capZero, Dec.ext ?_⟩
            have atMost := Int.not_lt.mp beyond
            rw [capZero] at atMost
            exact le_antisymm atMost nonneg
          · rw [if_neg capZero]
            refine iff_of_false (newCoin_map_ne_division _ _ _) ?_
            rintro ⟨-, -, isZero, -⟩
            exact capZero (congrArg Dec.raw isZero)

omit [Sdk L] in
/-- At positive rates the conversion of decimal coins never divides by zero. -/
theorem getSwapDecCoin_ne_division {ctx : Context L} (positive : RatesPositive ctx)
    (offerCoin : DecCoin) (askDenom : Denom) :
    getSwapDecCoin ctx offerCoin askDenom ≠ .error (.panic .divisionByZero) := by
  rcases effectivePrice_cases ctx offerCoin.denom with ⟨offerRate, offerKnown, offerOk⟩ | noOffer
  · rcases effectivePrice_cases ctx askDenom with ⟨askRate, -, askOk⟩ | noAsk
    · have nonzero : offerRate.raw ≠ 0 := (positive.rate_pos offerKnown).ne'
      simp only [getSwapDecCoin, offerOk, askOk, Dec.quo_eq, if_neg nonzero, bind, Except.bind]
      split
      · simp
      · simp only [newDecCoinFromDec]
        split
        · split <;> simp
        · simp
    · simp [getSwapDecCoin, offerOk, noAsk, bind, Except.bind]
  · simp [getSwapDecCoin, noOffer, bind, Except.bind]

/-- What a spread withholds from an amount. -/
def feeAmount (spread : Dec) (ret : ℤ) : ℤ := (spread.mulInt ret).truncateInt

theorem feeAmount_nonneg {spread : Dec} {ret : ℤ} (nonneg : Dec.zero ≤ spread)
    (positive : 0 < ret) : 0 ≤ feeAmount spread ret :=
  Int.tdiv_nonneg (mul_nonneg nonneg positive.le) Dec.precision_pos.le

omit [Sdk L] in
/-- Up to the whole of the amount, the fee moves from the swapped coin to the
swap fee pool. -/
theorem chargeSpread_of_covered (ctx : Context L) {swapCoin : Coin} {spread : Dec}
    (nonneg : Dec.zero ≤ spread) (validDenom : validateDenom swapCoin.denom = true)
    (positive : 0 < swapCoin.amount)
    (covered : feeAmount spread swapCoin.amount ≤ swapCoin.amount) :
    ∃ (swapFee : Option Coin) (swapFeePool : Option Coins),
      chargeSpread ctx swapCoin spread =
          .ok (⟨swapCoin.denom, swapCoin.amount - feeAmount spread swapCoin.amount⟩, swapFee,
            { ctx with oracle := { ctx.oracle with swapFeePool } }) ∧
        ∀ denom, (swapFeePool.getD Coins.empty).amountOf denom =
          ctx.oracle.getSwapFeePool.amountOf denom +
            Mint.only swapCoin.denom (feeAmount spread swapCoin.amount) denom := by
  have feeNonneg := feeAmount_nonneg nonneg positive
  simp only [chargeSpread]
  by_cases charged : Dec.zero < spread ∧ 0 < (spread.mulInt swapCoin.amount).truncateInt
  · simp only [if_pos charged]
    have made : newCoin swapCoin.denom (spread.mulInt swapCoin.amount).truncateInt =
        .ok ⟨swapCoin.denom, feeAmount spread swapCoin.amount⟩ :=
      newCoin_eq_ok.mpr ⟨validDenom, feeNonneg, rfl⟩
    rcases Coins.ofCoin_isOk validDenom feeNonneg with ⟨fees, collected⟩
    have subtracted : swapCoin.sub ⟨swapCoin.denom, feeAmount spread swapCoin.amount⟩ =
        .ok ⟨swapCoin.denom, swapCoin.amount - feeAmount spread swapCoin.amount⟩ := by
      simp only [Coin.sub]
      rw [if_neg (by omega)]
    refine ⟨_, _, by simp only [made, collected, subtracted, bind, Except.bind]; rfl, ?_⟩
    intro denom
    rw [Option.getD_some, Coins.amountOf_add, Coins.amountOf_ofCoin collected denom]
    rfl
  · simp only [if_neg charged]
    -- Without a positive spread there is no fee either.
    have noFee : feeAmount spread swapCoin.amount = 0 := by
      by_contra nonzero
      have feePositive : 0 < feeAmount spread swapCoin.amount :=
        lt_of_le_of_ne feeNonneg (Ne.symm nonzero)
      refine charged ⟨?_, feePositive⟩
      apply lt_of_le_of_ne (show (0 : ℤ) ≤ spread.raw from nonneg)
      intro isZero
      apply nonzero
      simp [feeAmount, Dec.mulInt, Dec.truncateInt, ← isZero]
    refine ⟨none, ctx.oracle.swapFeePool, by rw [noFee, sub_zero]; rfl, ?_⟩
    intro denom
    simp [noFee, Mint.only, OracleStore.getSwapFeePool]

omit [Sdk L] in
/-- A fee beyond the amount makes the subtraction panic. -/
theorem chargeSpread_of_exceeded (ctx : Context L) {swapCoin : Coin} {spread : Dec}
    (nonneg : Dec.zero ≤ spread) (validDenom : validateDenom swapCoin.denom = true)
    (positive : 0 < swapCoin.amount)
    (exceeded : swapCoin.amount < feeAmount spread swapCoin.amount) :
    chargeSpread ctx swapCoin spread = .error (.panic .negativeCoinAmount) := by
  have feeNonneg := feeAmount_nonneg nonneg positive
  have feePositive : 0 < (spread.mulInt swapCoin.amount).truncateInt := positive.trans exceeded
  have spreadPositive : Dec.zero < spread := by
    apply lt_of_le_of_ne (show (0 : ℤ) ≤ spread.raw from nonneg)
    intro isZero
    simp [Dec.mulInt, Dec.truncateInt, ← isZero] at feePositive
  have made : newCoin swapCoin.denom (spread.mulInt swapCoin.amount).truncateInt =
      .ok ⟨swapCoin.denom, feeAmount spread swapCoin.amount⟩ :=
    newCoin_eq_ok.mpr ⟨validDenom, feeNonneg, rfl⟩
  rcases Coins.ofCoin_isOk validDenom feeNonneg with ⟨fees, collected⟩
  have subtracted : swapCoin.sub ⟨swapCoin.denom, feeAmount spread swapCoin.amount⟩ =
      .error (.panic .negativeCoinAmount) := by
    simp only [Coin.sub]
    rw [if_pos (by omega)]
  simp only [chargeSpread, if_pos (And.intro spreadPositive feePositive), made, collected,
    subtracted, bind, Except.bind]

end Market

end TerraCore
