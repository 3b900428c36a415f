import TerraCore.Mint.Accounting
import TerraCore.Oracle.Keeper

/-!
# Market keeper

The exchange rates of the oracle turn an offered coin into an asked one. A
swap that involves Luna also pays a spread, which grows with the change of the
Luna issuance over the day.
-/

namespace TerraCore

structure DecCoin where
  denom : Denom
  amount : Dec
deriving DecidableEq

def newDecCoinFromDec (denom : Denom) (amount : Dec) : Outcome DecCoin :=
  if validateDenom denom then
    if amount < Dec.zero then .error (.panic .negativeCoinAmount) else .ok ⟨denom, amount⟩
  else .error (.panic .invalidDenom)

theorem newDecCoinFromDec_of_nonneg {denom : Denom} {amount : Dec}
    (validDenom : validateDenom denom = true) (nonneg : 0 ≤ amount.raw) :
    newDecCoinFromDec denom amount = .ok ⟨denom, amount⟩ := by
  have notNegative : ¬amount < Dec.zero := not_lt.mpr nonneg
  unfold newDecCoinFromDec
  rw [if_pos validDenom, if_neg notNegative]

namespace Market

variable {L : Type} [Sdk L]

/-- `Keeper.ComputeLunaDelta`: there is no limit on the first day. -/
def computeLunaDelta (ctx : Context L) (change : ℤ) : Dec × Context L :=
  let curDay := ctx.today
  if curDay = 0 then (Dec.zero, ctx)
  else
    let (prevIssuance, ctx) := Mint.getIssuance ctx microLunaDenom (curDay - 1)
    if prevIssuance ≠ 0 then
      let (curIssuance, ctx) := Mint.getIssuance ctx microLunaDenom curDay
      let postSwapIssuance : ℤ := curIssuance + change
      ((Dec.ofInt (postSwapIssuance - prevIssuance)).quoInt64 prevIssuance, ctx)
    else (Dec.zero, ctx)

/-- The oracle's rate, with the error that the market reports for a missing one. -/
def effectivePrice (ctx : Context L) (denom : Denom) : Outcome Dec :=
  match ctx.oracle.getLunaSwapRate denom with
  | .ok rate => .ok rate
  | .error _ => .error (.error (.noEffectivePrice denom))

/-- The spread at a given change of the Luna issuance. -/
def swapSpread (params : Params) (dailyDelta : Dec) : Outcome Dec := do
  let share ← dailyDelta.quo params.dailyLunaDeltaCap
  pure (params.minSwapSpread.add (share.mul (params.maxSwapSpread.sub params.minSwapSpread)))

/-- The Luna that a swap which involves Luna burns or mints. -/
def lunaChange (offerCoin : Coin) (retAmount : ℤ) : ℤ :=
  if offerCoin.denom = microLunaDenom then -offerCoin.amount else retAmount

def getSwapCoin (ctx : Context L) (offerCoin : Coin) (askDenom : Denom) (isInternal : Bool) :
    Outcome (Coin × Dec × Context L) := do
  let offerRate ← effectivePrice ctx offerCoin.denom
  let askRate ← effectivePrice ctx askDenom
  let exact ← ((Dec.ofInt offerCoin.amount).mul askRate).quo offerRate
  let retAmount := exact.truncateInt
  if retAmount = 0 then .error (.error (.insufficientSwapCoins offerCoin.amount))
  else if isInternal ∨ (offerCoin.denom ≠ microLunaDenom ∧ askDenom ≠ microLunaDenom) then
    let retCoin ← newCoin askDenom retAmount
    pure (retCoin, Dec.zero, ctx)
  else
    let (dailyDelta, after) := computeLunaDelta ctx (lunaChange offerCoin retAmount)
    let dailyDelta := dailyDelta.abs
    if ctx.market.dailyLunaDeltaCap < dailyDelta then .error (.error .exceedsDailySwapLimit)
    else
      let spread ← swapSpread ctx.market dailyDelta
      let retCoin ← newCoin askDenom retAmount
      pure (retCoin, spread, after)

def getSwapDecCoin (ctx : Context L) (offerCoin : DecCoin) (askDenom : Denom) :
    Outcome DecCoin := do
  let offerRate ← effectivePrice ctx offerCoin.denom
  let askRate ← effectivePrice ctx askDenom
  let retAmount ← (offerCoin.amount.mul askRate).quo offerRate
  if retAmount ≤ Dec.zero then
    .error (.error (.insufficientSwapCoins offerCoin.amount.truncateInt))
  else newDecCoinFromDec askDenom retAmount

theorem computeLunaDelta_changes (ctx : Context L) (change : ℤ) :
    Mint.Changes 0 0 0 ctx (computeLunaDelta ctx change).2 := by
  unfold computeLunaDelta
  simp only
  split
  · exact Mint.Changes.refl ctx
  · have first := Mint.getIssuance_changes ctx microLunaDenom
      (by omega : ctx.today - 1 ≤ ctx.today)
    split
    · have second := Mint.getIssuance_changes
        (Mint.getIssuance ctx microLunaDenom (ctx.today - 1)).2 microLunaDenom
        (le_of_eq first.today.symm)
      exact (first.trans second).of_eq (by simp) (by simp) rfl
    · exact first

theorem computeLunaDelta_frame (ctx : Context L) (change : ℤ) :
    ∃ mint, (computeLunaDelta ctx change).2 = { ctx with mint } := by
  simp only [computeLunaDelta]
  split
  · exact ⟨ctx.mint, rfl⟩
  · split
    · exact ⟨_, rfl⟩
    · exact ⟨_, rfl⟩

/-- After the first day the delta compares the issuance after the swap with the
issuance of the day before. -/
theorem computeLunaDelta_fst (ctx : Context L) (change : ℤ) (notFirst : ctx.today ≠ 0)
    (someIssuance : Mint.issuanceAt ctx microLunaDenom (ctx.today - 1) ≠ 0) :
    (computeLunaDelta ctx change).1 =
      (Dec.ofInt (Mint.issuanceAt ctx microLunaDenom ctx.today + change -
        Mint.issuanceAt ctx microLunaDenom (ctx.today - 1))).quoInt64
          (Mint.issuanceAt ctx microLunaDenom (ctx.today - 1)) := by
  have current := Mint.issuanceAt_getIssuance ctx microLunaDenom microLunaDenom (ctx.today - 1)
    ctx.today
  have previous : (Mint.getIssuance ctx microLunaDenom (ctx.today - 1)).1 ≠ 0 := someIssuance
  simp only [computeLunaDelta, if_neg notFirst, if_pos previous]
  rw [← current]
  rfl

/-- The amount that a swap returns before fees. -/
structure SwapQuote (ctx : Context L) (offerCoin : Coin) (askDenom : Denom) (retCoin : Coin)
    (offerRate askRate exact : Dec) : Prop where
  offerRate_eq : ctx.oracle.getLunaSwapRate offerCoin.denom = .ok offerRate
  askRate_eq : ctx.oracle.getLunaSwapRate askDenom = .ok askRate
  exact_eq : ((Dec.ofInt offerCoin.amount).mul askRate).quo offerRate = .ok exact
  denom : retCoin.denom = askDenom
  amount : retCoin.amount = exact.truncateInt
  positive : 0 < retCoin.amount

omit [Sdk L] in
theorem effectivePrice_eq_ok {ctx : Context L} {denom : Denom} {rate : Dec} :
    effectivePrice ctx denom = .ok rate ↔ ctx.oracle.getLunaSwapRate denom = .ok rate := by
  unfold effectivePrice
  cases ctx.oracle.getLunaSwapRate denom <;> simp

/-- A successful quote follows from the rates, and only reads the chain. -/
theorem getSwapCoin_eq_ok {ctx after : Context L} {offerCoin retCoin : Coin} {askDenom : Denom}
    {isInternal : Bool} {spread : Dec}
    (done : getSwapCoin ctx offerCoin askDenom isInternal = .ok (retCoin, spread, after)) :
    (∃ offerRate askRate exact, SwapQuote ctx offerCoin askDenom retCoin offerRate askRate exact) ∧
      (∃ mint, after = { ctx with mint }) ∧ Mint.Changes 0 0 0 ctx after := by
  rcases Outcome.bind_eq_ok.mp done with ⟨offerRate, offerOk, done⟩
  rcases Outcome.bind_eq_ok.mp done with ⟨askRate, askOk, done⟩
  rcases Outcome.bind_eq_ok.mp done with ⟨exact, exactOk, done⟩
  have quote : ∀ {coin : Coin}, exact.truncateInt ≠ 0 →
      newCoin askDenom exact.truncateInt = .ok coin →
      ∃ offerRate askRate exact, SwapQuote ctx offerCoin askDenom coin offerRate askRate exact := by
    intro coin nonzero made
    rcases newCoin_eq_ok.mp made with ⟨-, nonneg, rfl⟩
    exact ⟨offerRate, askRate, exact, effectivePrice_eq_ok.mp offerOk,
      effectivePrice_eq_ok.mp askOk, exactOk, rfl, rfl, lt_of_le_of_ne nonneg (Ne.symm nonzero)⟩
  simp only at done
  split at done
  · cases done
  · next nonzero =>
      split at done
      · rcases Outcome.bind_eq_ok.mp done with ⟨coin, made, done⟩
        cases done
        exact ⟨quote nonzero made, ⟨ctx.mint, rfl⟩, Mint.Changes.refl ctx⟩
      · split at done
        · cases done
        · rcases Outcome.bind_eq_ok.mp done with ⟨_, -, done⟩
          rcases Outcome.bind_eq_ok.mp done with ⟨coin, made, done⟩
          cases done
          exact ⟨quote nonzero made, computeLunaDelta_frame ctx _, computeLunaDelta_changes ctx _⟩

/-- A quote for the treasury reads the rates only. -/
theorem getSwapCoin_internal {ctx after : Context L} {offerCoin retCoin : Coin} {askDenom : Denom}
    {spread : Dec} (done : getSwapCoin ctx offerCoin askDenom true = .ok (retCoin, spread, after)) :
    after = ctx := by
  rcases Outcome.bind_eq_ok.mp done with ⟨offerRate, -, done⟩
  rcases Outcome.bind_eq_ok.mp done with ⟨askRate, -, done⟩
  rcases Outcome.bind_eq_ok.mp done with ⟨exact, -, done⟩
  simp only [true_or, if_true] at done
  split at done
  · cases done
  · rcases Outcome.bind_eq_ok.mp done with ⟨_, -, done⟩
    cases done
    rfl

/-- A swap that involves Luna keeps the daily change of its issuance within the cap. -/
theorem getSwapCoin_within_cap {ctx after : Context L} {offerCoin retCoin : Coin}
    {askDenom : Denom} {spread : Dec}
    (done : getSwapCoin ctx offerCoin askDenom false = .ok (retCoin, spread, after))
    (involved : offerCoin.denom = microLunaDenom ∨ askDenom = microLunaDenom) :
    (computeLunaDelta ctx (lunaChange offerCoin retCoin.amount)).1.abs ≤
      ctx.market.dailyLunaDeltaCap := by
  rcases Outcome.bind_eq_ok.mp done with ⟨offerRate, -, done⟩
  rcases Outcome.bind_eq_ok.mp done with ⟨askRate, -, done⟩
  rcases Outcome.bind_eq_ok.mp done with ⟨exact, -, done⟩
  have charged : ¬((false : Bool) = true ∨
      (offerCoin.denom ≠ microLunaDenom ∧ askDenom ≠ microLunaDenom)) := by
    simp only [Bool.false_eq_true, false_or]
    tauto
  simp only [if_neg charged] at done
  split at done
  · cases done
  · split at done
    · cases done
    · next within =>
        rcases Outcome.bind_eq_ok.mp done with ⟨_, -, done⟩
        rcases Outcome.bind_eq_ok.mp done with ⟨coin, made, done⟩
        cases done
        rcases newCoin_eq_ok.mp made with ⟨-, -, rfl⟩
        exact Int.not_lt.mp within

omit [Sdk L] in
/-- Luna is converted into another coin, or an error says why it is not. -/
theorem getSwapDecCoin_luna (ctx : Context L) (amount : Dec) {askDenom : Denom}
    (validDenom : validateDenom askDenom = true) :
    (∃ error, getSwapDecCoin ctx ⟨microLunaDenom, amount⟩ askDenom = .error (.error error)) ∨
      ∃ coin, getSwapDecCoin ctx ⟨microLunaDenom, amount⟩ askDenom = .ok coin ∧
        coin.denom = askDenom ∧ 0 ≤ coin.amount.raw := by
  have lunaRate : effectivePrice ctx microLunaDenom = .ok Dec.one :=
    effectivePrice_eq_ok.mpr (if_pos rfl)
  unfold getSwapDecCoin
  rw [lunaRate]
  simp only [bind, Except.bind]
  cases rate : effectivePrice ctx askDenom with
  | error failure =>
      left
      unfold effectivePrice at rate
      split at rate
      · cases rate
      · cases rate
        exact ⟨_, rfl⟩
  | ok askRate =>
      -- The rate of Luna is one, so that the division succeeds.
      obtain ⟨retAmount, quoted⟩ : ∃ retAmount, (amount.mul askRate).quo Dec.one = .ok retAmount :=
        ⟨_, if_neg (by decide)⟩
      simp only [quoted]
      split
      · exact Or.inl ⟨_, rfl⟩
      · next positive =>
          right
          have nonneg : 0 ≤ retAmount.raw := (not_le.mp positive).le
          exact ⟨_, newDecCoinFromDec_of_nonneg validDenom nonneg, rfl, nonneg⟩

end Market

end TerraCore
