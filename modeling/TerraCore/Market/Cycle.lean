import TerraCore.Genesis
import TerraCore.Market.Keeper

/-!
# Swapping around a cycle

The rounding of `Mul` and `Quo` can make one swap return slightly more than
the exact quotient of the rates. The excess is at most half of the last digit,
and as long as the rates are not too far apart the excesses of a whole cycle
stay below one unit, so that no sequence of swaps at fixed prices ends with
more of the first denomination than it started with.
-/

namespace TerraCore.Market

variable {L : Type} [Sdk L]

/-- Multiplying an integer amount by a rate is exact. -/
theorem mul_ofInt_raw (amount : ℤ) (rate : Dec) :
    ((Dec.ofInt amount).mul rate).raw = amount * rate.raw := by
  unfold Dec.mul Dec.ofInt Dec.chopPrecisionAndRound
  have rearranged : amount * Dec.precision * rate.raw = amount * rate.raw * Dec.precision := by
    ring
  simp only
  rw [rearranged]
  exact Rounding.roundHalfEven_mul_self Dec.precision_pos _

omit [Sdk L] in
/-- One swap returns at most half of the last digit more than the exact quotient. -/
theorem SwapQuote.bound {ctx : Context L} {offerCoin retCoin : Coin} {askDenom : Denom}
    {offerRate askRate exact : Dec}
    (quote : SwapQuote ctx offerCoin askDenom retCoin offerRate askRate exact)
    (offerPositive : 0 < offerRate.raw) :
    2 * Dec.precision * offerRate.raw * retCoin.amount ≤
      2 * Dec.precision * offerCoin.amount * askRate.raw + offerRate.raw := by
  have precisionPos := Dec.precision_pos
  obtain ⟨scaled, scaledEq⟩ : ∃ scaled, scaled =
      offerCoin.amount * askRate.raw * Dec.precision * Dec.precision := ⟨_, rfl⟩
  obtain ⟨quotient, quotientEq⟩ : ∃ quotient, quotient = scaled.tdiv offerRate.raw := ⟨_, rfl⟩
  have exactRaw : exact.raw = Dec.chopPrecisionAndRound quotient := by
    have computed := quote.exact_eq
    unfold Dec.quo at computed
    rw [if_neg offerPositive.ne', mul_ofInt_raw, ← scaledEq, ← quotientEq] at computed
    exact (congrArg Dec.raw (Except.ok.inj computed)).symm
  -- The returned amount is at least one, so that the quotient is positive.
  have exactNonneg : 0 ≤ exact.raw := by
    by_contra negative
    have nonpos : exact.raw.tdiv Dec.precision ≤ 0 :=
      Rounding.tdiv_nonpos (by omega) precisionPos.le
    have amount := quote.amount
    have positive := quote.positive
    unfold Dec.truncateInt at amount
    omega
  have truncated : retCoin.amount * Dec.precision ≤ exact.raw := by
    rw [quote.amount, Dec.truncateInt, Int.tdiv_eq_ediv_of_nonneg exactNonneg]
    exact Int.ediv_mul_le _ precisionPos.ne'
  have rounded : 2 * (exact.raw * Dec.precision) ≤ 2 * quotient + Dec.precision := by
    rw [exactRaw]
    exact (Rounding.roundHalfEven_error quotient precisionPos).1
  have one : Dec.precision ≤ exact.raw := by
    nlinarith [quote.positive]
  have quotientPos : 0 < quotient := by
    have precisionLarge : 1 < Dec.precision := by decide
    nlinarith
  have scaledNonneg : 0 ≤ scaled := by
    by_contra negative
    have : scaled.tdiv offerRate.raw ≤ 0 :=
      Rounding.tdiv_nonpos (by omega) offerPositive.le
    omega
  have divided : quotient * offerRate.raw ≤ scaled := by
    rw [quotientEq, Int.tdiv_eq_ediv_of_nonneg scaledNonneg]
    exact Int.ediv_mul_le _ offerPositive.ne'
  have combined : 2 * Dec.precision * offerRate.raw * retCoin.amount * Dec.precision ≤
      (2 * Dec.precision * offerCoin.amount * askRate.raw + offerRate.raw) * Dec.precision := by
    calc 2 * Dec.precision * offerRate.raw * retCoin.amount * Dec.precision
        = 2 * offerRate.raw * Dec.precision * (retCoin.amount * Dec.precision) := by ring
      _ ≤ 2 * offerRate.raw * Dec.precision * exact.raw := by gcongr
      _ = offerRate.raw * (2 * (exact.raw * Dec.precision)) := by ring
      _ ≤ offerRate.raw * (2 * quotient + Dec.precision) := by gcongr
      _ = 2 * (quotient * offerRate.raw) + offerRate.raw * Dec.precision := by ring
      _ ≤ 2 * scaled + offerRate.raw * Dec.precision := by gcongr
      _ = (2 * Dec.precision * offerCoin.amount * askRate.raw + offerRate.raw) *
            Dec.precision := by
          rw [scaledEq]
          ring
  exact le_of_mul_le_mul_right combined precisionPos

/-- A sequence of swaps at fixed rates. Each state may differ from the others
in everything but the rates, and each amount is at most what the swap before it
returned. -/
structure SwapCycle (L : Type) [Sdk L] (length : ℕ) where
  denoms : ℕ → Denom
  rate : Denom → Dec
  amounts : ℕ → ℤ
  ctx : ℕ → Context L
  isInternal : ℕ → Bool
  closed : denoms length = denoms 0
  offerRate : ∀ i < length, (ctx i).oracle.getLunaSwapRate (denoms i) = .ok (rate (denoms i))
  askRate : ∀ i < length,
    (ctx i).oracle.getLunaSwapRate (denoms (i + 1)) = .ok (rate (denoms (i + 1)))
  positive : ∀ i ≤ length, 0 < (rate (denoms i)).raw
  comparable : ∀ i ≤ length,
    length * (rate (denoms 0)).raw ≤ 10 ^ 18 * (rate (denoms i)).raw
  swapped : ∀ i < length, ∃ retCoin spread after,
    getSwapCoin (ctx i) ⟨denoms i, amounts i⟩ (denoms (i + 1)) (isInternal i) =
        .ok (retCoin, spread, after) ∧ amounts (i + 1) ≤ retCoin.amount

/-- After `i` swaps the value in the first denomination has grown by at most
`i / (2 * length)`; the inequality is multiplied out. -/
theorem SwapCycle.value_le {length : ℕ} (cycle : SwapCycle L length) {i : ℕ} (within : i ≤ length) :
    2 * length * (cycle.rate (cycle.denoms 0)).raw * cycle.amounts i ≤
      (2 * length * cycle.amounts 0 + i) * (cycle.rate (cycle.denoms i)).raw := by
  induction i with
  | zero =>
      apply le_of_eq
      push_cast
      ring
  | succ i ih =>
      have before := ih (by omega)
      rcases cycle.swapped i (by omega) with ⟨retCoin, spread, after, done, atMost⟩
      rcases getSwapCoin_eq_ok done with ⟨⟨offerRate, askRate, exact, quote⟩, -⟩
      have offerRateEq : cycle.rate (cycle.denoms i) = offerRate :=
        Except.ok.inj ((cycle.offerRate i (by omega)).symm.trans quote.offerRate_eq)
      have askRateEq : cycle.rate (cycle.denoms (i + 1)) = askRate :=
        Except.ok.inj ((cycle.askRate i (by omega)).symm.trans quote.askRate_eq)
      subst offerRateEq askRateEq
      have offerPositive := cycle.positive i (by omega)
      have askPositive := cycle.positive (i + 1) within
      have firstPositive := cycle.positive 0 (by omega)
      have comparable : length * (cycle.rate (cycle.denoms 0)).raw ≤
          Dec.precision * (cycle.rate (cycle.denoms (i + 1))).raw :=
        cycle.comparable (i + 1) within
      have bound := quote.bound offerPositive
      simp only at bound
      generalize (cycle.rate (cycle.denoms 0)).raw = first at *
      generalize (cycle.rate (cycle.denoms i)).raw = offer at *
      generalize (cycle.rate (cycle.denoms (i + 1))).raw = ask at *
      have precisionPos := Dec.precision_pos
      generalize Dec.precision = precision at *
      have lengthNonneg : (0 : ℤ) ≤ length := Int.natCast_nonneg _
      have combined : precision * offer * (2 * length * first * cycle.amounts (i + 1)) ≤
          precision * offer * ((2 * length * cycle.amounts 0 + (i + 1 : ℕ)) * ask) := by
        calc precision * offer * (2 * length * first * cycle.amounts (i + 1))
            ≤ precision * offer * (2 * length * first * retCoin.amount) := by gcongr
          _ = length * first * (2 * precision * offer * retCoin.amount) := by ring
          _ ≤ length * first * (2 * precision * cycle.amounts i * ask + offer) := by gcongr
          _ = precision * ask * (2 * length * first * cycle.amounts i) +
                length * first * offer := by ring
          _ ≤ precision * ask * ((2 * length * cycle.amounts 0 + i) * offer) +
                precision * ask * offer := by gcongr
          _ = precision * offer * ((2 * length * cycle.amounts 0 + (i + 1 : ℕ)) * ask) := by
              push_cast
              ring
      exact le_of_mul_le_mul_left combined (mul_pos precisionPos offerPositive)

/-- No cycle of swaps at fixed prices makes a profit. -/
theorem swap_cycle_no_profit {length : ℕ} (someSwap : 1 ≤ length) (cycle : SwapCycle L length) :
    cycle.amounts length ≤ cycle.amounts 0 := by
  have value := cycle.value_le le_rfl
  have firstPositive := cycle.positive 0 (by omega)
  rw [cycle.closed] at value
  have lengthPos : (0 : ℤ) < length := by exact_mod_cast someSwap
  have doubled : (length * (cycle.rate (cycle.denoms 0)).raw) * (2 * cycle.amounts length) ≤
      (length * (cycle.rate (cycle.denoms 0)).raw) * (2 * cycle.amounts 0 + 1) := by
    calc (length * (cycle.rate (cycle.denoms 0)).raw) * (2 * cycle.amounts length)
        = 2 * length * (cycle.rate (cycle.denoms 0)).raw * cycle.amounts length := by ring
      _ ≤ (2 * length * cycle.amounts 0 + length) * (cycle.rate (cycle.denoms 0)).raw := value
      _ = (length * (cycle.rate (cycle.denoms 0)).raw) * (2 * cycle.amounts 0 + 1) := by ring
  have undoubled := le_of_mul_le_mul_left doubled (mul_pos lengthPos firstPositive)
  omega

/-- A chain on its first day on which one Luna is worth two SDR. -/
def sampleMarket : Context Book :=
  { Context.genesis Book.empty (Staking.single (List.replicate 20 1) 10 single_length) with
    oracle := (OracleStore.initGenesis Oracle.defaultParams).setLunaSwapRate microSDRDenom
      (Dec.withPrec 2 0) }

/-- Luna is swapped for twice as many SDR and back. -/
def sampleCycle : SwapCycle Book 2 where
  denoms i := if i % 2 = 0 then microLunaDenom else microSDRDenom
  rate denom := if denom = microLunaDenom then Dec.one else Dec.withPrec 2 0
  amounts i := if i % 2 = 0 then 10 else 20
  ctx _ := sampleMarket
  isInternal _ := false
  closed := rfl
  offerRate := by decide +kernel
  askRate := by decide +kernel
  positive := by decide +kernel
  comparable := by decide +kernel
  swapped := by
    intro i within
    interval_cases i
    · exact ⟨⟨microSDRDenom, 20⟩, Dec.withPrec 2 2, sampleMarket, rfl, by decide⟩
    · exact ⟨⟨microLunaDenom, 10⟩, Dec.withPrec 2 2, sampleMarket, rfl, by decide⟩

theorem swap_cycle_no_profit_sample : 1 ≤ 2 ∧ sampleCycle.amounts 2 ≤ sampleCycle.amounts 0 :=
  ⟨by decide, swap_cycle_no_profit (by decide) sampleCycle⟩

end TerraCore.Market
