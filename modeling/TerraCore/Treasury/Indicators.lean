import TerraCore.Market.Spread
import TerraCore.Treasury.Rates

/-!
# Indicators as formulas

An indicator is computed while the keepers fill in what they have not stored
yet. Here each one is a formula over the state in which it is first asked for:
the tax proceeds and the seigniorage of an epoch, at the rates of the oracle.
Summing an indicator over a window of epochs sums the formula, up to the first
epoch for which it fails.
-/

namespace TerraCore.Treasury

variable {L : Type}

/-- What an amount is worth in SDR: nothing without rates, or when the result is not positive. -/
def worth (ctx : Context L) (coin : DecCoin) : Dec :=
  match ctx.oracle.getLunaSwapRate coin.denom, ctx.oracle.getLunaSwapRate microSDRDenom with
  | .ok offerRate, .ok askRate =>
      let retAmount := (coin.amount.mul askRate).quotient offerRate
      if retAmount ≤ Dec.zero then Dec.zero else retAmount
  | _, _ => Dec.zero

/-- SDR has a rate, and that of another denomination is zero. -/
structure ZeroRate (ctx : Context L) (denom : Denom) : Prop where
  other : denom ≠ microSDRDenom
  rate : ctx.oracle.getLunaSwapRate denom = .ok Dec.zero
  priced : ctx.oracle.prices[microSDRDenom]? ≠ none

instance (ctx : Context L) (denom : Denom) : Decidable (ZeroRate ctx denom) :=
  decidable_of_iff (denom ≠ microSDRDenom ∧ ctx.oracle.getLunaSwapRate denom = .ok Dec.zero ∧
      ctx.oracle.prices[microSDRDenom]? ≠ none)
    ⟨fun ⟨other, rate, priced⟩ => ⟨other, rate, priced⟩,
      fun zeroRate => ⟨zeroRate.other, zeroRate.rate, zeroRate.priced⟩⟩

theorem getLunaSwapRate_microSDR (store : OracleStore) :
    (∃ rate, store.getLunaSwapRate microSDRDenom = .ok rate) ↔
      store.prices[microSDRDenom]? ≠ none := by
  have notLuna : microSDRDenom ≠ microLunaDenom := by decide
  simp only [OracleStore.getLunaSwapRate, if_neg notLuna]
  cases store.prices[microSDRDenom]? <;> simp

theorem worth_nonneg (ctx : Context L) (coin : DecCoin) : 0 ≤ (worth ctx coin).raw := by
  simp only [worth]
  split
  · split
    · exact le_refl Dec.zero.raw
    · next positive => exact (not_le.mp positive).le
  · exact le_refl Dec.zero.raw

/-- The conversion divides by a zero rate. -/
theorem getSwapDecCoin_of_zeroRate {ctx : Context L} {coin : DecCoin}
    (zeroRate : ZeroRate ctx coin.denom) :
    Market.getSwapDecCoin ctx coin microSDRDenom = .error (.panic .divisionByZero) := by
  rcases (getLunaSwapRate_microSDR ctx.oracle).mpr zeroRate.priced with ⟨askRate, askKnown⟩
  have offerOk := Market.effectivePrice_eq_ok.mpr zeroRate.rate
  have askOk := Market.effectivePrice_eq_ok.mpr askKnown
  simp only [Market.getSwapDecCoin, offerOk, askOk, Dec.quo_eq, bind, Except.bind]
  rfl

/-- Otherwise it returns what the coin is worth, or an error when that is nothing. -/
theorem getSwapDecCoin_of_not_zeroRate {ctx : Context L} {coin : DecCoin}
    (other : coin.denom ≠ microSDRDenom) (notZero : ¬ZeroRate ctx coin.denom) :
    Market.getSwapDecCoin ctx coin microSDRDenom = .ok ⟨microSDRDenom, worth ctx coin⟩ ∨
      ((∃ error, Market.getSwapDecCoin ctx coin microSDRDenom = .error (.error error)) ∧
        worth ctx coin = Dec.zero) := by
  have unknown {denom : Denom} (missing : Market.effectivePrice ctx denom =
      .error (.error (.noEffectivePrice denom))) (rate : Dec) :
      ctx.oracle.getLunaSwapRate denom ≠ .ok rate := by
    intro known
    rw [Market.effectivePrice_eq_ok.mpr known] at missing
    cases missing
  rcases Market.effectivePrice_cases ctx coin.denom with ⟨offerRate, offerKnown, offerOk⟩ | noOffer
  · rcases Market.effectivePrice_cases ctx microSDRDenom with ⟨askRate, askKnown, askOk⟩ | noAsk
    · have nonzero : offerRate.raw ≠ 0 := by
        intro isZero
        have rateZero : offerRate = Dec.zero := Dec.ext isZero
        rw [rateZero] at offerKnown
        exact notZero ⟨other, offerKnown, (getLunaSwapRate_microSDR ctx.oracle).mp ⟨_, askKnown⟩⟩
      simp only [Market.getSwapDecCoin, offerOk, askOk, Dec.quo_eq, if_neg nonzero, bind,
        Except.bind, worth, offerKnown, askKnown]
      split
      · exact Or.inr ⟨⟨_, rfl⟩, rfl⟩
      · next positive =>
          exact Or.inl (newDecCoinFromDec_of_nonneg (by decide) (not_le.mp positive).le)
    · refine Or.inr ⟨⟨.noEffectivePrice microSDRDenom, ?_⟩, ?_⟩
      · simp only [Market.getSwapDecCoin, offerOk, noAsk, bind, Except.bind]
      · simp only [worth]
        split
        · next askKnown => exact absurd askKnown (unknown noAsk _)
        · rfl
  · refine Or.inr ⟨⟨.noEffectivePrice coin.denom, ?_⟩, ?_⟩
    · simp only [Market.getSwapDecCoin, noOffer, bind, Except.bind]
    · simp only [worth]
      split
      · next offerKnown _ => exact absurd offerKnown (unknown noOffer _)
      · rfl

/-- What a coin of the tax proceeds is worth in SDR. -/
def coinWorth (ctx : Context L) (coin : Coin) : Dec :=
  if coin.denom = microSDRDenom then Dec.ofInt coin.amount
  else worth ctx ⟨coin.denom, Dec.ofInt coin.amount⟩

/-- What the tax proceeds of an epoch are worth in SDR. -/
def taxWorth (ctx : Context L) (epoch : ℤ) : Dec :=
  ⟨((peekTaxProceeds ctx epoch).toList.map fun coin => (coinWorth ctx coin).raw).sum⟩

/-- Tax was paid in the epoch in a denomination whose rate is zero. -/
def ZeroPriced (ctx : Context L) (epoch : ℤ) : Prop :=
  ∃ coin ∈ (peekTaxProceeds ctx epoch).toList, ZeroRate ctx coin.denom

instance (ctx : Context L) (epoch : ℤ) : Decidable (ZeroPriced ctx epoch) :=
  inferInstanceAs (Decidable (∃ coin ∈ _, _))

/-- Whether tax was paid at a zero rate depends on the rates and the proceeds. -/
theorem zeroPriced_congr {ctx other : Context L} (sameOracle : other.oracle = ctx.oracle)
    (sameProceeds : other.treasury.taxProceeds = ctx.treasury.taxProceeds) (epoch : ℤ) :
    ZeroPriced other epoch ↔ ZeroPriced ctx epoch := by
  have sameRate (denom : Denom) : ZeroRate other denom ↔ ZeroRate ctx denom := by
    constructor
    · rintro ⟨notSDR, rate, priced⟩
      rw [sameOracle] at rate priced
      exact ⟨notSDR, rate, priced⟩
    · rintro ⟨notSDR, rate, priced⟩
      rw [← sameOracle] at rate priced
      exact ⟨notSDR, rate, priced⟩
  simp only [ZeroPriced, peekTaxProceeds, sameProceeds, sameRate]

theorem coinWorth_nonneg (ctx : Context L) {coin : Coin} (nonneg : 0 ≤ coin.amount) :
    0 ≤ (coinWorth ctx coin).raw := by
  simp only [coinWorth]
  split
  · exact mul_nonneg nonneg Dec.precision_pos.le
  · exact worth_nonneg ctx _

theorem taxWorth_nonneg (ctx : Context L) (epoch : ℤ) : 0 ≤ (taxWorth ctx epoch).raw := by
  have positive := ((isValid_iff _).mp (peekTaxProceeds ctx epoch).valid).2
  apply List.sum_nonneg
  intro value valueMem
  rcases List.mem_map.mp valueMem with ⟨coin, coinMem, rfl⟩
  exact coinWorth_nonneg ctx (positive coin coinMem).le

theorem addTaxReward_of_zeroRate {ctx : Context L} {coin : Coin}
    (zeroRate : ZeroRate ctx coin.denom) (taxReward : Dec) :
    addTaxReward ctx taxReward coin = .error (.panic .divisionByZero) := by
  have divides := getSwapDecCoin_of_zeroRate
    (show ZeroRate ctx (⟨coin.denom, Dec.ofInt coin.amount⟩ : DecCoin).denom from zeroRate)
  simp only [addTaxReward, if_pos zeroRate.other, divides]

theorem addTaxReward_of_not_zeroRate {ctx : Context L} {coin : Coin}
    (notZero : ¬ZeroRate ctx coin.denom) (taxReward : Dec) :
    addTaxReward ctx taxReward coin = .ok (taxReward.add (coinWorth ctx coin)) := by
  by_cases isSDR : coin.denom = microSDRDenom
  · simp only [addTaxReward, coinWorth, isSDR, ne_eq, not_true_eq_false, if_false, if_true]
  · have swapped := @getSwapDecCoin_of_not_zeroRate L ctx ⟨coin.denom, Dec.ofInt coin.amount⟩
      isSDR notZero
    simp only [addTaxReward, coinWorth, ne_eq, isSDR, not_false_eq_true, if_true, if_false]
    rcases swapped with done | ⟨⟨error, failed⟩, nothing⟩
    · simp only [done]
    · simp only [failed, nothing, Dec.add, Dec.zero, add_zero]

/-- The loop over the coins of an epoch adds up their worth, or meets a zero rate. -/
theorem foldlM_addTaxReward (ctx : Context L) (coins : List Coin) (taxReward : Dec) :
    coins.foldlM (addTaxReward ctx) taxReward =
      if ∃ coin ∈ coins, ZeroRate ctx coin.denom then .error (.panic .divisionByZero)
      else .ok (taxReward.add ⟨(coins.map fun coin => (coinWorth ctx coin).raw).sum⟩) := by
  induction coins generalizing taxReward with
  | nil => simp [pure, Except.pure, Dec.add]
  | cons coin coins ih =>
      rw [List.foldlM_cons]
      by_cases zeroRate : ZeroRate ctx coin.denom
      · rw [addTaxReward_of_zeroRate zeroRate, if_pos ⟨coin, List.mem_cons_self, zeroRate⟩]
        rfl
      · rw [addTaxReward_of_not_zeroRate zeroRate]
        change coins.foldlM (addTaxReward ctx) (taxReward.add (coinWorth ctx coin)) = _
        rw [ih]
        simp [zeroRate, Dec.add, add_assoc]

theorem taxRewardsForEpoch_eq (ctx : Context L) (epoch : ℤ) :
    taxRewardsForEpoch ctx epoch =
      if ZeroPriced ctx epoch then .error (.panic .divisionByZero)
      else .ok (taxWorth ctx epoch, ctx) := by
  have folded := foldlM_addTaxReward ctx (peekTaxProceeds ctx epoch).toList Dec.zero
  by_cases zeroPriced : ZeroPriced ctx epoch
  · rw [if_pos (show ∃ coin ∈ _, _ from zeroPriced)] at folded
    simp only [taxRewardsForEpoch, folded, if_pos zeroPriced]
    rfl
  · have added : Dec.zero.add (taxWorth ctx epoch) = taxWorth ctx epoch := Dec.ext (zero_add _)
    rw [if_neg (show ¬∃ coin ∈ _, _ from zeroPriced)] at folded
    simp only [taxRewardsForEpoch, folded, if_neg zeroPriced]
    exact congrArg (fun reward => Except.ok (reward, ctx)) added

/-- The epochs that the loop visits from an epoch downwards. -/
def visited (oldest latest : ℤ) : Finset ℤ :=
  ((Finset.range (latest + 1).toNat).image fun epoch : ℕ => (epoch : ℤ)).filter (oldest < ·)

theorem mem_visited {oldest latest epoch : ℤ} :
    epoch ∈ visited oldest latest ↔ 0 ≤ epoch ∧ oldest < epoch ∧ epoch ≤ latest := by
  simp only [visited, Finset.mem_filter, Finset.mem_image, Finset.mem_range]
  constructor
  · rintro ⟨⟨index, below, rfl⟩, recent⟩
    omega
  · rintro ⟨nonneg, recent, past⟩
    exact ⟨⟨epoch.toNat, by omega, by omega⟩, recent⟩

theorem visited_eq_empty {oldest latest : ℤ} (outside : ¬(0 ≤ latest ∧ oldest < latest)) :
    visited oldest latest = ∅ := by
  apply Finset.eq_empty_of_forall_notMem
  intro epoch isVisited
  rw [mem_visited] at isVisited
  omega

theorem visited_eq_insert {oldest latest : ℤ} (inWindow : 0 ≤ latest ∧ oldest < latest) :
    visited oldest latest = insert latest (visited oldest (latest - 1)) := by
  ext epoch
  simp only [Finset.mem_insert, mem_visited]
  omega

theorem notMem_visited_pred (oldest latest : ℤ) : latest ∉ visited oldest (latest - 1) := by
  rw [mem_visited]
  omega

/-- The epochs of a window that ends with the current one. -/
def window (ctx : Context L) (epochs : ℤ) : Finset ℤ :=
  visited (ctx.getEpoch - epochs) ctx.getEpoch

/-- While an invariant holds, the indicator has a given outcome for each of some
epochs. A value comes with a context in which the invariant holds for the epoch before. -/
structure Computes (epochs : Finset ℤ) (indicatorFunction : Indicator L)
    (invariant : ℤ → Context L → Prop) (outcome : ℤ → Outcome Dec) : Prop where
  value : ∀ {i : ℤ} {ctx : Context L} {value : Dec}, i ∈ epochs → invariant i ctx →
    outcome i = .ok value →
      ∃ after, indicatorFunction ctx i = .ok (value, after) ∧ invariant (i - 1) after
  failure : ∀ {i : ℤ} {ctx : Context L} {failure : Failure}, i ∈ epochs → invariant i ctx →
    outcome i = .error failure → indicatorFunction ctx i = .error failure

namespace Computes

variable {epochs : Finset ℤ} {indicatorFunction : Indicator L}
  {invariant : ℤ → Context L → Prop} {outcome : ℤ → Outcome Dec} {oldest : ℤ}

/-- With a value for each epoch the loop returns their sum. -/
theorem sumEpochs_of_values (computes : Computes epochs indicatorFunction invariant outcome)
    {value : ℤ → Dec} {remaining : ℕ} {i : ℤ} (sum : Dec) {ctx : Context L}
    (enough : i + 1 ≤ remaining) (included : visited oldest i ⊆ epochs) (holds : invariant i ctx)
    (values : ∀ epoch ∈ visited oldest i, outcome epoch = .ok (value epoch)) :
    ∃ last after, sumEpochs indicatorFunction oldest remaining i sum ctx =
        .ok (⟨sum.raw + ∑ epoch ∈ visited oldest i, (value epoch).raw⟩, last, after) ∧
      invariant last after ∧ last ≤ i ∧ ∀ epoch ∈ visited oldest i, last < epoch := by
  induction remaining generalizing i sum ctx with
  | zero =>
      have nothing : visited oldest i = ∅ := visited_eq_empty (by omega)
      refine ⟨i, ctx, ?_, holds, le_rfl, by simp [nothing]⟩
      simp [sumEpochs, nothing]
  | succ remaining ih =>
      rw [sumEpochs]
      split
      · next inWindow =>
          rw [visited_eq_insert inWindow] at included values ⊢
          rcases computes.value (included (Finset.mem_insert_self _ _)) holds
            (values i (Finset.mem_insert_self _ _)) with ⟨middle, first, holdsNext⟩
          have earlier : visited oldest (i - 1) ⊆ epochs :=
            (Finset.subset_insert _ _).trans included
          rcases ih (sum.add (value i)) (by omega) earlier holdsNext fun epoch isVisited =>
            values epoch (Finset.mem_insert_of_mem isVisited) with
            ⟨last, after, done, holdsLast, lastLe, below⟩
          refine ⟨last, after, ?_, holdsLast, by omega, ?_⟩
          · rw [first]
            change sumEpochs indicatorFunction oldest remaining (i - 1) (sum.add (value i)) middle = _
            rw [done, Finset.sum_insert (notMem_visited_pred _ _)]
            simp only [Dec.add, add_assoc]
          · intro epoch isVisited
            rcases Finset.mem_insert.mp isVisited with rfl | earlier
            · omega
            · exact below epoch earlier
      · next outside =>
          have nothing := visited_eq_empty outside
          refine ⟨i, ctx, ?_, holds, le_rfl, by simp [nothing]⟩
          simp [nothing]

/-- Otherwise it fails as one of the epochs does. -/
theorem sumEpochs_of_failure (computes : Computes epochs indicatorFunction invariant outcome)
    {remaining : ℕ} {i : ℤ} (sum : Dec) {ctx : Context L} (enough : i + 1 ≤ remaining)
    (included : visited oldest i ⊆ epochs) (holds : invariant i ctx)
    (fails : ∃ epoch ∈ visited oldest i, ∃ failure, outcome epoch = .error failure) :
    ∃ epoch ∈ visited oldest i, ∃ failure, outcome epoch = .error failure ∧
      sumEpochs indicatorFunction oldest remaining i sum ctx = .error failure := by
  induction remaining generalizing i sum ctx with
  | zero =>
      rcases fails with ⟨epoch, isVisited, -⟩
      rw [mem_visited] at isVisited
      omega
  | succ remaining ih =>
      have inWindow : 0 ≤ i ∧ oldest < i := by
        rcases fails with ⟨epoch, isVisited, -⟩
        rw [mem_visited] at isVisited
        omega
      rw [sumEpochs, if_pos inWindow]
      rw [visited_eq_insert inWindow] at included fails ⊢
      have isEpoch := included (Finset.mem_insert_self _ _)
      cases here : outcome i with
      | error failure =>
          refine ⟨i, Finset.mem_insert_self _ _, failure, here, ?_⟩
          rw [computes.failure isEpoch holds here]
          rfl
      | ok value =>
          rcases computes.value isEpoch holds here with ⟨middle, first, holdsNext⟩
          have later : ∃ epoch ∈ visited oldest (i - 1), ∃ failure,
              outcome epoch = .error failure := by
            rcases fails with ⟨epoch, isVisited, failure, failed⟩
            rcases Finset.mem_insert.mp isVisited with rfl | earlier
            · rw [here] at failed
              cases failed
            · exact ⟨epoch, earlier, failure, failed⟩
          rcases ih (sum.add value) (by omega)
            ((Finset.subset_insert _ _).trans included) holdsNext later with
            ⟨epoch, isVisited, failure, failed, done⟩
          refine ⟨epoch, Finset.mem_insert_of_mem isVisited, failure, failed, ?_⟩
          rw [first]
          exact done

variable {ctx : Context L} {epochCount : ℤ}

theorem sumIndicator_of_values
    (computes : Computes (window ctx epochCount) indicatorFunction invariant outcome)
    {value : ℤ → Dec} (holds : invariant ctx.getEpoch ctx)
    (values : ∀ epoch ∈ window ctx epochCount, outcome epoch = .ok (value epoch)) :
    ∃ last after, sumIndicator ctx epochCount indicatorFunction =
        .ok (⟨∑ epoch ∈ window ctx epochCount, (value epoch).raw⟩, after) ∧
      invariant last after ∧ ∀ epoch ∈ window ctx epochCount, last < epoch := by
  rcases computes.sumEpochs_of_values Dec.zero (Int.self_le_toNat _) (Finset.Subset.refl _) holds
    values with
    ⟨last, after, done, holdsLast, -, below⟩
  refine ⟨last, after, ?_, holdsLast, below⟩
  simp only [sumIndicator, done]
  simp only [Dec.zero, zero_add]
  rfl

theorem sumIndicator_of_failure
    (computes : Computes (window ctx epochCount) indicatorFunction invariant outcome)
    (holds : invariant ctx.getEpoch ctx)
    (fails : ∃ epoch ∈ window ctx epochCount, ∃ failure, outcome epoch = .error failure) :
    ∃ epoch ∈ window ctx epochCount, ∃ failure, outcome epoch = .error failure ∧
      sumIndicator ctx epochCount indicatorFunction = .error failure := by
  rcases computes.sumEpochs_of_failure Dec.zero (Int.self_le_toNat _) (Finset.Subset.refl _) holds
    fails with
    ⟨epoch, inWindow, failure, failed, done⟩
  refine ⟨epoch, inWindow, failure, failed, ?_⟩
  simp only [sumIndicator, done]
  rfl

/-- The average divides by the number of epochs, unless there is none. -/
theorem rollingAverageIndicator_of_values
    (computes : Computes (window ctx epochCount) indicatorFunction invariant outcome)
    {value : ℤ → Dec} (holds : invariant ctx.getEpoch ctx)
    (values : ∀ epoch ∈ window ctx epochCount, outcome epoch = .ok (value epoch)) :
    ∃ average last after,
      rollingAverageIndicator ctx epochCount indicatorFunction = .ok (average, after) ∧
        invariant last after := by
  rcases computes.sumEpochs_of_values Dec.zero (Int.self_le_toNat _) (Finset.Subset.refl _) holds
    values with
    ⟨last, after, done, holdsLast, -, -⟩
  simp only [rollingAverageIndicator, done, Dec.quoInt, bind, Except.bind]
  split
  · exact ⟨_, last, after, rfl, holdsLast⟩
  · exact ⟨_, last, after, rfl, holdsLast⟩

theorem rollingAverageIndicator_of_failure
    (computes : Computes (window ctx epochCount) indicatorFunction invariant outcome)
    (holds : invariant ctx.getEpoch ctx)
    (fails : ∃ epoch ∈ window ctx epochCount, ∃ failure, outcome epoch = .error failure) :
    ∃ epoch ∈ window ctx epochCount, ∃ failure, outcome epoch = .error failure ∧
      rollingAverageIndicator ctx epochCount indicatorFunction = .error failure := by
  rcases computes.sumEpochs_of_failure Dec.zero (Int.self_le_toNat _) (Finset.Subset.refl _) holds
    fails with
    ⟨epoch, inWindow, failure, failed, done⟩
  refine ⟨epoch, inWindow, failure, failed, ?_⟩
  simp only [rollingAverageIndicator, done]
  rfl

end Computes

theorem searchRewardWeight_congr {weights other : Store ℤ Dec} (wanted : ℤ) (remaining : ℕ) {e : ℤ}
    (same : ∀ epoch ≤ e, weights[epoch]? = other[epoch]?) :
    searchRewardWeight weights wanted remaining e = searchRewardWeight other wanted remaining e := by
  induction remaining generalizing e with
  | zero => rfl
  | succ remaining ih =>
      have earlier : searchRewardWeight weights wanted remaining (e - 1) =
          searchRewardWeight other wanted remaining (e - 1) :=
        ih fun epoch before => same epoch (by omega)
      rw [searchRewardWeight, searchRewardWeight, same e le_rfl, earlier]

/-- The weight of an epoch depends on what is stored up to it. -/
theorem getRewardWeight_congr {ctx other : Context L} {epoch : ℤ}
    (same : ∀ earlier ≤ epoch,
      ctx.treasury.rewardWeights[earlier]? = other.treasury.rewardWeights[earlier]?) :
    (getRewardWeight ctx epoch).1 = (getRewardWeight other epoch).1 := by
  have searched := searchRewardWeight_congr epoch (epoch + 1).toNat same
  simp only [getRewardWeight, same epoch le_rfl, searched]
  split <;> rfl

/-- A weight that was read is stored. -/
theorem getRewardWeight_get (ctx : Context L) (epoch other : ℤ) :
    (getRewardWeight ctx epoch).2.treasury.rewardWeights[other]? =
      if other = epoch then some ((getRewardWeight ctx epoch).1.getD Dec.zero)
      else ctx.treasury.rewardWeights[other]? := by
  cases stored : ctx.treasury.rewardWeights[epoch]? with
  | some weight =>
      simp only [getRewardWeight, stored]
      split
      · next here => rw [here, stored, Option.getD_some]
      · rfl
  | none =>
      simp only [getRewardWeight, stored]
      rw [Store.get_insert]
      simp only [eq_comm]

section Seigniorage

variable [Sdk L]

/-- What the indicators read, apart from the reward weights, is the same. -/
structure Steady (before after : Context L) : Prop where
  height : after.height = before.height
  oracle : after.oracle = before.oracle
  taxProceeds : after.treasury.taxProceeds = before.treasury.taxProceeds
  issuance : ∀ day, Mint.issuanceAt after microLunaDenom day =
    Mint.issuanceAt before microLunaDenom day

namespace Steady

variable {before middle after : Context L}

theorem trans (first : Steady before middle) (second : Steady middle after) :
    Steady before after :=
  ⟨second.height.trans first.height, second.oracle.trans first.oracle,
    second.taxProceeds.trans first.taxProceeds,
    fun day => (second.issuance day).trans (first.issuance day)⟩

theorem getRewardWeight (ctx : Context L) (epoch : ℤ) :
    Steady ctx (getRewardWeight ctx epoch).2 := by
  rcases getRewardWeight_frame ctx epoch with ⟨rewardWeights, frame⟩
  rw [frame]
  exact ⟨rfl, rfl, rfl, fun _ => rfl⟩

theorem getIssuance (ctx : Context L) (day : ℤ) :
    Steady ctx (Mint.getIssuance ctx microLunaDenom day).2 :=
  ⟨rfl, rfl, rfl, fun other => Mint.issuanceAt_getIssuance ctx _ _ day other⟩

theorem peekEpochSeigniorage (ctx : Context L) (epoch : ℤ) :
    Steady ctx (Mint.peekEpochSeigniorage ctx epoch).2 :=
  (getIssuance ctx _).trans (getIssuance _ _)

theorem getEpoch_eq (steady : Steady before after) : after.getEpoch = before.getEpoch := by
  simp only [Context.getEpoch, steady.height]

theorem window_eq (steady : Steady before after) (epochCount : ℤ) :
    window after epochCount = window before epochCount := by
  simp only [window, steady.getEpoch_eq]

theorem worth_eq (steady : Steady before after) (coin : DecCoin) :
    worth after coin = worth before coin := by
  simp only [worth, steady.oracle]

theorem taxRewardsForEpoch_eq (steady : Steady before after) (epoch : ℤ) :
    taxRewardsForEpoch after epoch =
      if ZeroPriced before epoch then .error (.panic .divisionByZero)
      else .ok (taxWorth before epoch, after) := by
  have samePriced := zeroPriced_congr steady.oracle steady.taxProceeds epoch
  have sameWorth : taxWorth after epoch = taxWorth before epoch := by
    simp only [taxWorth, coinWorth, peekTaxProceeds, steady.taxProceeds, steady.worth_eq]
  rw [Treasury.taxRewardsForEpoch_eq, sameWorth]
  simp only [samePriced]

theorem peekEpochSeigniorage_eq (steady : Steady before after) (epoch : ℤ) :
    (Mint.peekEpochSeigniorage after epoch).1 = (Mint.peekEpochSeigniorage before epoch).1 := by
  have sameToday : after.today = before.today := by
    simp only [Context.today, steady.height]
  rw [Mint.peekEpochSeigniorage_fst, Mint.peekEpochSeigniorage_fst]
  simp only [sameToday, steady.issuance]

end Steady

/-- The weight of an epoch, once that of the current epoch has been read. -/
def weightIn (ctx : Context L) (epoch : ℤ) : Option Dec :=
  (getRewardWeight (getRewardWeight ctx ctx.getEpoch).2 epoch).1

/-- The part of the seigniorage of an epoch that is a reward, if its weight was set. -/
def rewardAmount (ctx : Context L) (epoch : ℤ) : Option Dec :=
  (weightIn ctx epoch).map fun weight => weight.mulInt (Mint.peekEpochSeigniorage ctx epoch).1

/-- The reward of the epoch is the amount of a coin. -/
def Payable (ctx : Context L) (epoch : ℤ) : Prop :=
  ∃ amount ∈ rewardAmount ctx epoch, Dec.zero ≤ amount

instance (ctx : Context L) (epoch : ℤ) : Decidable (Payable ctx epoch) :=
  inferInstanceAs (Decidable (∃ amount ∈ _, _))

/-- What the seigniorage rewards of an epoch are worth in SDR. -/
def seigniorageWorth (ctx : Context L) (epoch : ℤ) : Dec :=
  worth ctx ⟨microLunaDenom, (rewardAmount ctx epoch).getD Dec.zero⟩

/-- The outcome of `SeigniorageRewardsForEpoch`. -/
def seigniorageOutcome (ctx : Context L) (epoch : ℤ) : Outcome Dec :=
  match rewardAmount ctx epoch with
  | some amount =>
      if amount < Dec.zero then .error (.panic .negativeCoinAmount)
      else .ok (worth ctx ⟨microLunaDenom, amount⟩)
  | none => .error (.panic .nilDec)

theorem seigniorageOutcome_of_payable {ctx : Context L} {epoch : ℤ} (payable : Payable ctx epoch) :
    seigniorageOutcome ctx epoch = .ok (seigniorageWorth ctx epoch) := by
  rcases payable with ⟨amount, isAmount, nonneg⟩
  have notNegative : ¬amount < Dec.zero := Int.not_lt.mpr nonneg
  simp only [seigniorageOutcome, seigniorageWorth, Option.mem_def.mp isAmount, if_neg notNegative,
    Option.getD_some]

/-- Without a payable reward the call panics, but not because of a division. -/
theorem seigniorageOutcome_of_not_payable {ctx : Context L} {epoch : ℤ}
    (notPayable : ¬Payable ctx epoch) :
    ∃ failure, seigniorageOutcome ctx epoch = .error failure ∧
      failure ≠ .panic .divisionByZero := by
  simp only [seigniorageOutcome]
  split
  · next amount isAmount =>
      split
      · exact ⟨_, rfl, by simp⟩
      · next notNegative =>
          exact absurd ⟨amount, isAmount, Int.not_lt.mp notNegative⟩ notPayable
  · exact ⟨_, rfl, by simp⟩

omit [Sdk L] in
/-- Luna can always be converted: its rate is one. -/
theorem seigniorageInSDR_eq (ctx : Context L) (rewardAmt : Dec) :
    seigniorageInSDR ctx rewardAmt =
      if rewardAmt < Dec.zero then .error (.panic .negativeCoinAmount)
      else .ok (worth ctx ⟨microLunaDenom, rewardAmt⟩) := by
  have notZero : ¬ZeroRate ctx microLunaDenom := by
    rintro ⟨-, rate, -⟩
    cases rate
  by_cases negative : rewardAmt < Dec.zero
  · have refused : newDecCoinFromDec microLunaDenom rewardAmt =
        .error (.panic .negativeCoinAmount) := by
      simp only [newDecCoinFromDec, if_pos negative]
      rfl
    simp only [seigniorageInSDR, refused, if_pos negative]
    rfl
  · have made := newDecCoinFromDec_of_nonneg (show validateDenom microLunaDenom = true by decide)
      (Int.not_lt.mp negative)
    simp only [seigniorageInSDR, made, if_neg negative, bind, Except.bind]
    have notSDR : microLunaDenom ≠ microSDRDenom := by decide
    rcases @getSwapDecCoin_of_not_zeroRate L ctx ⟨microLunaDenom, rewardAmt⟩ notSDR notZero with
      done | ⟨⟨error, failed⟩, nothing⟩
    · simp only [done]
      rfl
    · simp only [failed, nothing]
      rfl

theorem seigniorageRewardsForEpoch_eq {ctx now : Context L} (steady : Steady ctx now) {epoch : ℤ}
    (sameWeight : (getRewardWeight now epoch).1 = weightIn ctx epoch) :
    seigniorageRewardsForEpoch now epoch = (seigniorageOutcome ctx epoch).map fun reward =>
      (reward, (getRewardWeight (Mint.peekEpochSeigniorage now epoch).2 epoch).2) := by
  have readWeight : (getRewardWeight (Mint.peekEpochSeigniorage now epoch).2 epoch).1 =
      weightIn ctx epoch := by
    rw [← sameWeight]
    exact getRewardWeight_congr fun _ _ => rfl
  have steadyNow := (steady.trans (Steady.peekEpochSeigniorage now epoch)).trans
    (Steady.getRewardWeight (Mint.peekEpochSeigniorage now epoch).2 epoch)
  simp only [seigniorageRewardsForEpoch, readWeight, seigniorageOutcome, rewardAmount]
  cases weightIn ctx epoch with
  | none => rfl
  | some weight =>
      simp only [Option.map_some, seigniorageInSDR_eq, steady.peekEpochSeigniorage_eq,
        steadyNow.worth_eq]
      split <;> rfl

/-- The sum over the epochs down to one: the weights from there on are not touched
yet, and those that were passed are stored. -/
structure Passed (ctx : Context L) (i : ℤ) (now : Context L) : Prop where
  steady : Steady ctx now
  ahead : ∀ epoch ≤ i, now.treasury.rewardWeights[epoch]? =
    (getRewardWeight ctx ctx.getEpoch).2.treasury.rewardWeights[epoch]?
  behind : ∀ epoch, i < epoch → epoch ≤ ctx.getEpoch →
    now.treasury.rewardWeights[epoch]? = weightIn ctx epoch

theorem Passed.start (ctx : Context L) :
    Passed ctx (getRewardWeight ctx ctx.getEpoch).2.getEpoch
      (getRewardWeight ctx ctx.getEpoch).2 := by
  have steady := Steady.getRewardWeight ctx ctx.getEpoch
  refine ⟨steady, fun _ _ => rfl, ?_⟩
  intro epoch after past
  rw [steady.getEpoch_eq] at after
  omega

theorem seigniorageRewardsForEpoch_computes (ctx : Context L) (epochs : Finset ℤ) :
    Computes epochs seigniorageRewardsForEpoch (Passed ctx) (seigniorageOutcome ctx) := by
  have sameWeight {i : ℤ} {now : Context L} (passed : Passed ctx i now) :
      (getRewardWeight now i).1 = weightIn ctx i :=
    getRewardWeight_congr passed.ahead
  constructor
  · intro i now reward _ passed isReward
    have call := seigniorageRewardsForEpoch_eq passed.steady (sameWeight passed)
    rw [isReward] at call
    refine ⟨_, call, (passed.steady.trans (Steady.peekEpochSeigniorage now i)).trans
      (Steady.getRewardWeight _ i), ?_, ?_⟩
    · intro epoch before
      rw [getRewardWeight_get, if_neg (by omega)]
      exact passed.ahead epoch (by omega)
    · intro epoch after past
      rw [getRewardWeight_get]
      split
      · next here =>
          -- A weight that was never set would have been stored as zero, but is a panic.
          cases weight : weightIn ctx i with
          | none => simp [seigniorageOutcome, rewardAmount, weight] at isReward
          | some found =>
              have readWeight : (getRewardWeight (Mint.peekEpochSeigniorage now i).2 i).1 =
                  some found := by
                rw [← weight, ← sameWeight passed]
                exact getRewardWeight_congr fun _ _ => rfl
              rw [readWeight, here, weight, Option.getD_some]
      · exact passed.behind epoch (by omega) past
  · intro i now failure _ passed fails
    rw [seigniorageRewardsForEpoch_eq passed.steady (sameWeight passed), fails]
    rfl

/-- The weights of some epochs are stored. -/
structure Stored (ctx : Context L) (epochs : Finset ℤ) (now : Context L) : Prop where
  steady : Steady ctx now
  weights : ∀ epoch ∈ epochs, now.treasury.rewardWeights[epoch]? = weightIn ctx epoch

/-- The outcome of `MiningRewardForEpoch` for a payable reward. -/
def miningOutcome (ctx : Context L) (epoch : ℤ) : Outcome Dec :=
  if ZeroPriced ctx epoch then .error (.panic .divisionByZero)
  else .ok ((taxWorth ctx epoch).add (seigniorageWorth ctx epoch))

theorem miningRewardForEpoch_eq {ctx now : Context L} {epochs : Finset ℤ}
    (stored : Stored ctx epochs now) {epoch : ℤ} (isEpoch : epoch ∈ epochs)
    (payable : Payable ctx epoch) :
    miningRewardForEpoch now epoch = (miningOutcome ctx epoch).map fun reward =>
      (reward, (Mint.peekEpochSeigniorage now epoch).2) := by
  rcases payable with ⟨amount, isAmount, nonneg⟩
  rcases Option.map_eq_some_iff.mp isAmount with ⟨weight, isWeight, -⟩
  have present : now.treasury.rewardWeights[epoch]? = some weight :=
    (stored.weights epoch isEpoch).trans isWeight
  have read : (getRewardWeight now epoch).1 = weightIn ctx epoch := by
    simp only [getRewardWeight, present, isWeight]
  have untouched : (getRewardWeight (Mint.peekEpochSeigniorage now epoch).2 epoch).2 =
      (Mint.peekEpochSeigniorage now epoch).2 := by
    have samePresent : (Mint.peekEpochSeigniorage now epoch).2.treasury.rewardWeights[epoch]? =
        some weight := present
    simp only [getRewardWeight, samePresent]
  have seigniorage := seigniorageRewardsForEpoch_eq stored.steady read
  rw [seigniorageOutcome_of_payable ⟨amount, isAmount, nonneg⟩, untouched] at seigniorage
  simp only [miningRewardForEpoch, stored.steady.taxRewardsForEpoch_eq, miningOutcome]
  by_cases zeroPriced : ZeroPriced ctx epoch
  · simp only [if_pos zeroPriced]
    rfl
  · simp only [if_neg zeroPriced, bind, Except.bind, seigniorage]
    rfl

theorem miningRewardForEpoch_computes {ctx : Context L} {epochs : Finset ℤ}
    (payable : ∀ epoch ∈ epochs, Payable ctx epoch) :
    Computes epochs miningRewardForEpoch (fun _ => Stored ctx epochs) (miningOutcome ctx) := by
  constructor
  · intro i now reward isEpoch stored isReward
    have call := miningRewardForEpoch_eq stored isEpoch (payable i isEpoch)
    rw [isReward] at call
    exact ⟨_, call, stored.steady.trans (Steady.peekEpochSeigniorage now i), stored.weights⟩
  · intro i now failure isEpoch stored fails
    rw [miningRewardForEpoch_eq stored isEpoch (payable i isEpoch), fails]
    rfl

end Seigniorage

/-- The outcome of `TRL` when tokens are bonded. -/
def trlOutcome (ctx : Context L) (epoch : ℤ) : Outcome Dec :=
  if ZeroPriced ctx epoch then .error (.panic .divisionByZero)
  else .ok ((taxWorth ctx epoch).quoInt64 ctx.staking.bondedTokens)

theorem trl_computes {ctx : Context L} (bonded : 0 < ctx.staking.bondedTokens)
    (epochs : Finset ℤ) : Computes epochs trl (fun _ now => now = ctx) (trlOutcome ctx) := by
  have call (i : ℤ) : trl ctx i = (trlOutcome ctx i).map fun perLuna => (perLuna, ctx) := by
    have nonzero : (ctx.staking.bondedTokens : ℤ) ≠ 0 := by omega
    simp only [trl, unitLunaIndicator, taxRewardsForEpoch_eq, trlOutcome]
    by_cases zeroPriced : ZeroPriced ctx i
    · simp only [if_pos zeroPriced]
      rfl
    · simp only [if_neg zeroPriced, bind, Except.bind, Dec.quoInt, if_neg nonzero]
      rfl
  constructor
  · rintro i now perLuna - rfl isPerLuna
    exact ⟨now, by rw [call, isPerLuna]; rfl, rfl⟩
  · rintro i now failure - rfl fails
    rw [call, fails]
    rfl

end TerraCore.Treasury
