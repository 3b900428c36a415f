import TerraCore.Market.Cycle
import TerraCore.Market.Spread

/-!
# What coins are worth

At fixed rates of the oracle every amount of coins has a worth in Luna, and a
coin without a rate is worth nothing. A swap returns coins that are worth at
most what was offered, except that the rounding of the quote may add half of
the last digit of the rate.
-/

namespace TerraCore.Market

/-- What one unit of a denomination is worth in Luna. -/
def unitWorth (oracle : OracleStore) (denom : Denom) : ℚ :=
  match oracle.getLunaSwapRate denom with
  | .ok rate => Dec.precision / rate.raw
  | .error _ => 0

/-- The denominations that have a rate. -/
def priced (oracle : OracleStore) : Finset Denom :=
  insert microLunaDenom oracle.prices.keys.toFinset

/-- What some amounts are worth together. -/
def worth (oracle : OracleStore) (amounts : Denom → ℤ) : ℚ :=
  ∑ denom ∈ priced oracle, amounts denom * unitWorth oracle denom

variable {oracle : OracleStore}

theorem unitWorth_of_rate {denom : Denom} {rate : Dec}
    (known : oracle.getLunaSwapRate denom = .ok rate) :
    unitWorth oracle denom = Dec.precision / rate.raw := by
  simp only [unitWorth, known]

theorem unitWorth_of_not_priced {denom : Denom} (absent : denom ∉ priced oracle) :
    unitWorth oracle denom = 0 := by
  simp only [priced, Finset.mem_insert, List.mem_toFinset, not_or] at absent
  have noPrice : oracle.prices[denom]? = none := by
    cases found : oracle.prices[denom]? with
    | none => rfl
    | some price => exact absurd ((Store.mem_keys_iff _ _).mpr ⟨price, found⟩) absent.2
  simp [unitWorth, OracleStore.getLunaSwapRate, absent.1, noPrice]

/-- Only the prices matter. -/
theorem worth_congr {other : OracleStore} (samePrices : other.prices = oracle.prices)
    (amounts : Denom → ℤ) : worth other amounts = worth oracle amounts := by
  simp only [worth, priced, unitWorth, OracleStore.getLunaSwapRate, samePrices]

@[simp]
theorem worth_zero : worth oracle (fun _ => 0) = 0 := by
  simp [worth]

theorem worth_add (first second : Denom → ℤ) :
    worth oracle (fun denom => first denom + second denom) =
      worth oracle first + worth oracle second := by
  simp [worth, add_mul, Finset.sum_add_distrib]

theorem worth_sub (first second : Denom → ℤ) :
    worth oracle (fun denom => first denom - second denom) =
      worth oracle first - worth oracle second := by
  simp [worth, sub_mul, Finset.sum_sub_distrib]

theorem worth_only (denom : Denom) (amount : ℤ) :
    worth oracle (Mint.only denom amount) = amount * unitWorth oracle denom := by
  have single (other : Denom) : (Mint.only denom amount other : ℚ) * unitWorth oracle other =
      if denom = other then amount * unitWorth oracle denom else 0 := by
    unfold Mint.only
    split
    · next same => rw [same]
    · simp
  simp only [worth, single, Finset.sum_ite_eq]
  split
  · rfl
  · next absent => simp [unitWorth_of_not_priced absent]

variable {L : Type} {ctx : Context L}

theorem RatesPositive.unitWorth_nonneg (positive : RatesPositive ctx) (denom : Denom) :
    0 ≤ unitWorth ctx.oracle denom := by
  cases known : ctx.oracle.getLunaSwapRate denom with
  | error failure => simp [unitWorth, known]
  | ok rate =>
      have ratePositive := positive.rate_pos known
      rw [unitWorth_of_rate known]
      apply div_nonneg
      · exact_mod_cast Dec.precision_pos.le
      · exact_mod_cast ratePositive.le

theorem RatesPositive.worth_nonneg (positive : RatesPositive ctx) {amounts : Denom → ℤ}
    (nonneg : ∀ denom, 0 ≤ amounts denom) : 0 ≤ worth ctx.oracle amounts := by
  apply Finset.sum_nonneg
  intro denom _
  apply mul_nonneg
  · exact_mod_cast nonneg denom
  · exact positive.unitWorth_nonneg denom

/-- What the rounding of one quote may add, in Luna: half of the last digit of the asked rate. -/
def roundingWorth (oracle : OracleStore) (denom : Denom) : ℚ :=
  unitWorth oracle denom / (2 * Dec.precision)

/-- A swap returns at most the worth of the offer and the rounding. -/
theorem SwapQuote.worth_le {offerCoin retCoin : Coin} {askDenom : Denom}
    {offerRate askRate exact : Dec} (positive : RatesPositive ctx)
    (quote : SwapQuote ctx offerCoin askDenom retCoin offerRate askRate exact) :
    retCoin.amount * unitWorth ctx.oracle askDenom ≤
      offerCoin.amount * unitWorth ctx.oracle offerCoin.denom +
        roundingWorth ctx.oracle askDenom := by
  have offerPositive := positive.rate_pos quote.offerRate_eq
  have askPositive := positive.rate_pos quote.askRate_eq
  have bound : (2 * Dec.precision * offerRate.raw * retCoin.amount : ℚ) ≤
      2 * Dec.precision * offerCoin.amount * askRate.raw + offerRate.raw := by
    exact_mod_cast quote.bound offerPositive
  have offerPositive : (0 : ℚ) < offerRate.raw := by exact_mod_cast offerPositive
  have askPositive : (0 : ℚ) < askRate.raw := by exact_mod_cast askPositive
  have precisionPositive : (0 : ℚ) < Dec.precision := by exact_mod_cast Dec.precision_pos
  rw [roundingWorth, unitWorth_of_rate quote.offerRate_eq, unitWorth_of_rate quote.askRate_eq]
  have scale : (0 : ℚ) < 2 * offerRate.raw * askRate.raw := by positivity
  apply le_of_mul_le_mul_right _ scale
  calc retCoin.amount * (Dec.precision / askRate.raw) * (2 * offerRate.raw * askRate.raw)
      = (2 * Dec.precision * offerRate.raw * retCoin.amount : ℚ) := by
        field_simp
    _ ≤ 2 * Dec.precision * offerCoin.amount * askRate.raw + offerRate.raw := bound
    _ = (offerCoin.amount * (Dec.precision / offerRate.raw) +
          Dec.precision / askRate.raw / (2 * Dec.precision)) *
            (2 * offerRate.raw * askRate.raw) := by
        field_simp

end TerraCore.Market
