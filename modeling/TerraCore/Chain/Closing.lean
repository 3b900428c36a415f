import TerraCore.Chain.Shadow

/-!
# Ends of blocks in two states

The end blockers also treat two states that are `Apart` alike, and keep the gap
between them. The oracle counts the swap fees that it pays out without putting
them into an account, but fees of a denomination are only collected once it has
a snapshot. The budget and the treasury read the issuance of Luna, which is the
same in both states.
-/

namespace TerraCore.Chain

open Lockstep Mint

variable {L : Type} [Sdk L] {denom : Denom} {gap : ℤ} {excused : Prop} {late early : Context L}

theorem related_mustSucceed {α β : Type} {relation : α → β → Prop} {left : Outcome α}
    {right : Outcome β} (both : Related relation left right) :
    Related relation (mustSucceed left) (mustSucceed right) := by
  cases both with
  | ok related => exact .ok related
  | error failure =>
      cases failure with
      | error error => exact .error _
      | panic panic => exact .error _

/-- Coins outside of the accounts have changed. -/
theorem Apart.withLedger (apart : Apart denom gap excused late early) {ledger : L}
    (sameSupply : supply ledger denom = supply late.ledger denom) :
    Apart denom gap excused { late with ledger } { early with ledger } := by
  have framed := @Apart.framed L _ denom gap excused late early { late with ledger } excused apart
    rfl rfl sameSupply apart.fees
  rcases apart.frame with ⟨mint, rfl⟩
  exact framed

theorem Apart.withTreasury (apart : Apart denom gap excused late early) (treasury : TreasuryStore) :
    Apart denom gap excused { late with treasury } { early with treasury } := by
  have framed := @Apart.framed L _ denom gap excused late early { late with treasury } excused apart
    rfl rfl rfl apart.fees
  rcases apart.frame with ⟨mint, rfl⟩
  exact framed

/-- The oracle has changed, and still no fees wait for a denomination without a snapshot. -/
theorem Apart.withOracle (apart : Apart denom gap excused late early) {oracle : OracleStore}
    (fees : oracle.getSwapFeePool.amountOf denom ≠ 0 → HasSnapshot late denom ∨ excused) :
    Apart denom gap excused { late with oracle } { early with oracle } := by
  have framed := @Apart.framed L _ denom gap excused late early { late with oracle } excused apart
    rfl rfl rfl fees
  rcases apart.frame with ⟨mint, rfl⟩
  exact framed

theorem Apart.oracle (apart : Apart denom gap excused late early) :
    early.oracle = late.oracle := by
  rcases apart.frame with ⟨mint, rfl⟩
  rfl

theorem Apart.ledger (apart : Apart denom gap excused late early) :
    early.ledger = late.ledger := by
  rcases apart.frame with ⟨mint, rfl⟩
  rfl

theorem Apart.treasury (apart : Apart denom gap excused late early) :
    early.treasury = late.treasury := by
  rcases apart.frame with ⟨mint, rfl⟩
  rfl

theorem supply_addCollectedFees (ledger : L) (fees : Coins) (each : Denom) :
    supply (Sdk.addCollectedFees ledger fees) each = supply ledger each := by
  have moved := (Sdk.addCollectedFees_moves ledger fees).supply each
  simp only [creditedTotal_nil, add_zero, sub_zero] at moved
  exact_mod_cast moved

theorem supply_allocateTokens (ledger : L) (validator : Address) (tokens : Coins) (each : Denom) :
    supply (Sdk.allocateTokensToValidator ledger validator tokens) each = supply ledger each := by
  have moved := (Sdk.allocateTokensToValidator_moves ledger validator tokens).supply each
  simp only [creditedTotal_nil, add_zero, sub_zero] at moved
  exact_mod_cast moved

/-- States that are apart while the rewards are paid; the oracle is not touched. -/
def Paying (denom : Denom) (gap : ℤ) (oracle : OracleStore) (left right : Context L) : Prop :=
  Apart denom gap False left right ∧ left.oracle = oracle

theorem payClaim_related {oracle : OracleStore} (accmFeePool : Coins) (weightSum : ℕ)
    (claim : Address × ℕ) {left right : Context L × Coins}
    (paying : Paying denom gap oracle left.1 right.1 ∧ right.2 = left.2) :
    Related (fun a b => Paying denom gap oracle a.1 b.1 ∧ b.2 = a.2)
      (Oracle.payClaim accmFeePool weightSum left claim)
      (Oracle.payClaim accmFeePool weightSum right claim) := by
  rcases left with ⟨lateCtx, distributed⟩
  rcases right with ⟨earlyCtx, earlyDistributed⟩
  rcases paying with ⟨⟨apart, sameOracle⟩, sameCoins⟩
  simp only at apart sameOracle sameCoins
  subst sameCoins
  rcases apart.frame with ⟨mint, rfl⟩
  refine (Related.same _).bind ?_
  rintro rewards _ rfl
  refine .ok ⟨⟨apart.withLedger ?_, sameOracle⟩, rfl⟩
  split
  · exact supply_allocateTokens _ _ _ _
  · exact supply_addCollectedFees _ _ _

/-- A fee is counted: of another denomination, or of one that has a snapshot. -/
theorem countFee_related {oracle : OracleStore} {feeCoin : Coin}
    (isFee : feeCoin ∈ oracle.getSwapFeePool.toList) {left right : Context L}
    (paying : Paying denom gap oracle left right) :
    Related (Paying denom gap oracle)
      (mustSucceed (Mint.changeIssuance left feeCoin.denom feeCoin.amount))
      (mustSucceed (Mint.changeIssuance right feeCoin.denom feeCoin.amount)) := by
  rcases paying with ⟨apart, sameOracle⟩
  have positive := ((isValid_iff _).mp oracle.getSwapFeePool.valid).2 feeCoin isFee
  have counted : Related (Apart denom gap False)
      (Mint.changeIssuance left feeCoin.denom feeCoin.amount)
      (Mint.changeIssuance right feeCoin.denom feeCoin.amount) := by
    by_cases here : feeCoin.denom = denom
    · have waiting : left.oracle.getSwapFeePool.amountOf denom ≠ 0 := by
        rw [sameOracle, Coins.amountOf, ← here, Coins.amountOf_of_mem oracle.getSwapFeePool.proper isFee]
        exact positive.ne'
      have snapshot := (apart.fees waiting).resolve_right id
      rw [here]
      exact apart.changeIssuance_of_snapshot snapshot positive.le
    · exact apart.changeIssuance here feeCoin.amount
  refine related_mustSucceed (counted.returned.mono ?_)
  rintro afterLate afterEarly ⟨afterApart, changed⟩
  exact ⟨afterApart, by rw [changeIssuance_frame changed]; exact sameOracle⟩

theorem Apart.doleOutRewards (apart : Apart denom gap False late early) (weightSum : ℕ) :
    Related (Apart denom gap False)
      (Oracle.doleOutRewards late late.oracle.getSwapFeePool weightSum)
      (Oracle.doleOutRewards early late.oracle.getSwapFeePool weightSum) := by
  have start : Paying denom gap late.oracle late early := ⟨apart, rfl⟩
  simp only [Oracle.doleOutRewards, apart.oracle]
  refine (Related.foldlM (fun claim _ left right paying => payClaim_related _ weightSum claim paying)
    (⟨start, rfl⟩ : Paying denom gap late.oracle (late, Coins.empty).1 (early, Coins.empty).1 ∧
      (early, Coins.empty).2 = (late, Coins.empty).2)).bind ?_
  rintro ⟨paidLate, distributed⟩ ⟨paidEarly, _⟩ ⟨⟨paidApart, paidOracle⟩, rfl⟩
  refine (Related.same _).bind ?_
  rintro leftFee _ rfl
  have leftOver : Paying denom gap late.oracle
      (if leftFee.toList ≠ [] then
        { paidLate with ledger := Sdk.addCollectedFees paidLate.ledger leftFee } else paidLate)
      (if leftFee.toList ≠ [] then
        { paidEarly with ledger := Sdk.addCollectedFees paidEarly.ledger leftFee }
        else paidEarly) := by
    split
    · rw [paidApart.ledger]
      exact ⟨paidApart.withLedger (supply_addCollectedFees _ _ _), paidOracle⟩
    · exact ⟨paidApart, paidOracle⟩
  refine (Related.foldlM (fun feeCoin isFee left right paying => countFee_related isFee paying)
    leftOver).bind ?_
  rintro countedLate countedEarly ⟨countedApart, countedOracle⟩
  have noFees : countedLate.oracle.clearSwapFeePool.getSwapFeePool.amountOf denom ≠ 0 →
      HasSnapshot countedLate denom ∨ False :=
    fun waiting => absurd rfl waiting
  rcases countedApart.frame with ⟨mint, rfl⟩
  exact .ok (countedApart.withOracle noFees)

theorem Apart.rewardPrevBallotWinners (apart : Apart denom gap False late early) :
    Related (Apart denom gap False) (Oracle.rewardPrevBallotWinners late)
      (Oracle.rewardPrevBallotWinners early) := by
  have doled := apart.doleOutRewards (Oracle.claimWeightSum late.oracle)
  have finish (paidLate paidEarly : Context L) (paidApart : Apart denom gap False paidLate paidEarly) :
      Related (Apart denom gap False)
        (.ok { paidLate with oracle := paidLate.oracle.clearClaimPool } : Outcome (Context L))
        (.ok { paidEarly with oracle := paidEarly.oracle.clearClaimPool }) := by
    have sameFees : paidLate.oracle.clearClaimPool.getSwapFeePool.amountOf denom ≠ 0 →
        HasSnapshot paidLate denom ∨ False := paidApart.fees
    rcases paidApart.frame with ⟨mint, rfl⟩
    exact .ok (paidApart.withOracle sameFees)
  have finished := finish late early apart
  rcases apart.frame with ⟨mint, rfl⟩
  simp only [Oracle.rewardPrevBallotWinners]
  split
  · split
    · exact doled.bind finish
    · exact finished
  · exact .ok apart

/-- The tags of the ballots. -/
theorem tallyBallot_reframed (mint : MintStore) (entry : Denom × Oracle.PriceBallot)
    (state : Tags × Context L) :
    Oracle.tallyBallot (state.1, { state.2 with mint }) entry =
      ((Oracle.tallyBallot state entry).1,
        { (Oracle.tallyBallot state entry).2 with mint }) := by
  simp only [Oracle.tallyBallot]
  split <;> rfl

theorem tallyPeriod_reframed (mint : MintStore) (order : Oracle.MapOrder) (ctx : Context L) :
    Oracle.tallyPeriod order { ctx with mint } =
      ((Oracle.tallyPeriod order ctx).1, { (Oracle.tallyPeriod order ctx).2 with mint }) := by
  have folded (entries : List (Denom × Oracle.PriceBallot)) (state : Tags × Context L) :
      entries.foldl Oracle.tallyBallot (state.1, { state.2 with mint }) =
        ((entries.foldl Oracle.tallyBallot state).1,
          { (entries.foldl Oracle.tallyBallot state).2 with mint }) := by
    induction entries generalizing state with
    | nil => rfl
    | cons entry entries ih =>
        rw [List.foldl_cons, List.foldl_cons, tallyBallot_reframed, ih]
  have tallied := folded (order.visit ctx.oracle.collectVotes.toList)
    ([], { ctx with oracle := ctx.oracle.deletePrices ctx.oracle.getActiveDenoms })
  simp only [Oracle.tallyPeriod]
  simp only at tallied
  rw [tallied]

theorem Apart.oracleEndBlocker (apart : Apart denom gap False late early)
    (order : Oracle.MapOrder) :
    Related (Beside denom gap False) (Oracle.endBlocker order late)
      (Oracle.endBlocker order early) := by
  have rewarded := apart.rewardPrevBallotWinners
  rcases apart.frame with ⟨mint, rfl⟩
  refine (Related.same _).bind ?_
  rintro last _ rfl
  split
  · refine rewarded.bind ?_
    intro paidLate paidEarly paidApart
    have sameFees : (Oracle.tallied order paidLate).getSwapFeePool.amountOf denom ≠ 0 →
        HasSnapshot paidLate denom ∨ False := paidApart.fees
    rcases paidApart.frame with ⟨mint, rfl⟩
    have talliedApart := paidApart.withOracle sameFees
    have sameTags := tallyPeriod_reframed mint order paidLate
    have sameStore := Oracle.tallyPeriod_snd order paidLate
    refine .ok ⟨?_, ?_⟩
    · rw [sameTags]
    · rw [sameTags]
      simp only [sameStore]
      exact talliedApart
  · exact .ok ⟨rfl, apart⟩

theorem Apart.peekEpochSeigniorage (apart : Apart denom gap excused late early)
    (notLuna : denom ≠ microLunaDenom) (epoch : ℤ) :
    Beside denom gap excused (Mint.peekEpochSeigniorage late epoch)
      (Mint.peekEpochSeigniorage early epoch) := by
  have daysNonneg : 0 ≤ ((blocksPerEpoch / blocksPerDay : ℕ) : ℤ) := Int.natCast_nonneg _
  have nonneg := today_nonneg late
  simp only [Mint.peekEpochSeigniorage, apart.today]
  generalize ((blocksPerEpoch / blocksPerDay : ℕ) : ℤ) = days at daysNonneg ⊢
  generalize lastEq : (if late.today < (epoch + 1) * days - 1 then late.today
    else (epoch + 1) * days - 1) = lastDay
  generalize prevEq : (if lastDay - days < 0 then 0 else lastDay - days) = prevDay
  have lastPast : lastDay ≤ late.today := by
    rw [← lastEq]
    split <;> omega
  have prevPast : prevDay ≤ late.today := by
    rw [← prevEq]
    split <;> omega
  rcases apart.getIssuance notLuna.symm prevPast with ⟨previousEq, previousApart⟩
  rcases previousApart.getIssuance notLuna.symm lastPast with ⟨currentEq, currentApart⟩
  refine ⟨?_, currentApart⟩
  simp only [previousEq, currentEq]

theorem Apart.getRewardWeight (apart : Apart denom gap excused late early) (epoch : ℤ) :
    Beside denom gap excused (Treasury.getRewardWeight late epoch)
      (Treasury.getRewardWeight early epoch) := by
  rcases apart.frame with ⟨mint, rfl⟩
  simp only [Treasury.getRewardWeight]
  split
  · exact ⟨rfl, apart⟩
  · exact ⟨rfl, apart.withTreasury _⟩

theorem Apart.rewardPool (apart : Apart denom gap excused late early)
    (notLuna : denom ≠ microLunaDenom) :
    Related (Beside denom gap excused) (Budget.rewardPool late) (Budget.rewardPool early) := by
  have sameEpoch : early.getEpoch = late.getEpoch := by
    rw [Context.getEpoch, Context.getEpoch, apart.height]
  rcases apart.getRewardWeight late.getEpoch with ⟨sameWeight, weightApart⟩
  rcases weightApart.peekEpochSeigniorage notLuna late.getEpoch with ⟨samePool, poolApart⟩
  simp only [Budget.rewardPool, sameEpoch, sameWeight, samePool]
  split
  · exact .ok ⟨rfl, poolApart⟩
  · exact .error _

theorem Apart.payRewards (apart : Apart denom gap excused late early)
    (notLuna : denom ≠ microLunaDenom) (pool : Dec) :
    Related (Apart denom gap excused) (Budget.payRewards late pool)
      (Budget.payRewards early pool) := by
  have samePool : Budget.rewardPoolCoin early pool = Budget.rewardPoolCoin late pool := by
    rcases apart.frame with ⟨mint, rfl⟩
    rfl
  simp only [Budget.payRewards, samePool, apart.budget]
  split
  · refine (Related.same _).bind ?_
    rintro coin _ rfl
    refine Related.foldlM ?_ apart
    intro claim _ left right paying
    refine (Related.same _).bind ?_
    rintro share _ rfl
    refine (Related.same _).bind ?_
    rintro reward _ rfl
    exact related_mustSucceed ((paying.mint notLuna claim.1 reward).mono fun _ _ both => both.1)
  · exact .ok apart

theorem Apart.budgetEndBlocker (apart : Apart denom gap excused late early)
    (notLuna : denom ≠ microLunaDenom) :
    Related (Beside denom gap excused) (Budget.endBlocker late) (Budget.endBlocker early) := by
  have decided : Apart denom gap excused (Budget.decidePhase late) (Budget.decidePhase early) := by
    rcases apart.frame with ⟨mint, rfl⟩
    exact apart.withBudget _
  have weighed {left right : Context L} (both : Apart denom gap excused left right) :
      Related (Apart denom gap excused) (Budget.weighPhase left) (Budget.weighPhase right) := by
    rcases both.frame with ⟨mint, rfl⟩
    refine (Related.same _).bind ?_
    rintro last _ rfl
    refine .ok ?_
    split
    · exact both.withBudget _
    · exact both
  have rewarded {left right : Context L} (both : Apart denom gap excused left right) :
      Related (Apart denom gap excused) (Budget.rewardPhase left) (Budget.rewardPhase right) := by
    have pool := both.rewardPool notLuna
    rcases both.frame with ⟨mint, rfl⟩
    refine (Related.same _).bind ?_
    rintro last _ rfl
    split
    · refine pool.bind ?_
      rintro ⟨_, poolLate⟩ ⟨amount, poolEarly⟩ ⟨rfl, poolApart⟩
      refine (poolApart.payRewards notLuna amount).bind ?_
      intro paidLate paidEarly paidApart
      rcases paidApart.frame with ⟨mint, rfl⟩
      exact .ok (paidApart.withBudget _)
    · exact .ok both
  refine (weighed decided).bind ?_
  intro weighedLate weighedEarly weighedApart
  refine (rewarded weighedApart).bind ?_
  intro rewardedLate rewardedEarly rewardedApart
  exact .ok ⟨rfl, rewardedApart⟩

/-- An indicator that treats states that are apart alike. -/
def Shadowed (denom : Denom) (gap : ℤ) (indicatorFunction : Treasury.Indicator L) : Prop :=
  ∀ {late early : Context L} (epoch : ℤ), Apart denom gap False late early →
    Related (Beside denom gap False) (indicatorFunction late epoch) (indicatorFunction early epoch)

theorem taxRewardsForEpoch_shadowed :
    Shadowed denom gap (Treasury.taxRewardsForEpoch : Treasury.Indicator L) := by
  intro late early epoch apart
  rcases apart.frame with ⟨mint, rfl⟩
  refine (Related.same _).bind ?_
  rintro rewards _ rfl
  exact .ok ⟨rfl, apart⟩

theorem seigniorageRewardsForEpoch_shadowed (notLuna : denom ≠ microLunaDenom) :
    Shadowed denom gap (Treasury.seigniorageRewardsForEpoch : Treasury.Indicator L) := by
  intro late early epoch apart
  rcases apart.peekEpochSeigniorage notLuna epoch with ⟨samePool, poolApart⟩
  rcases poolApart.getRewardWeight epoch with ⟨sameWeight, weightApart⟩
  have sameOracle := weightApart.oracle
  simp only [Treasury.seigniorageRewardsForEpoch, samePool, sameWeight]
  split
  · have sameReward (amount : Dec) : Treasury.seigniorageInSDR
        (Treasury.getRewardWeight (Mint.peekEpochSeigniorage early epoch).2 epoch).2 amount =
          Treasury.seigniorageInSDR
            (Treasury.getRewardWeight (Mint.peekEpochSeigniorage late epoch).2 epoch).2 amount := by
      rcases weightApart.frame with ⟨mint, frame⟩
      rw [frame]
      rfl
    rw [sameReward]
    refine (Related.same _).bind ?_
    rintro reward _ rfl
    exact .ok ⟨rfl, weightApart⟩
  · exact .error _

theorem miningRewardForEpoch_shadowed (notLuna : denom ≠ microLunaDenom) :
    Shadowed denom gap (Treasury.miningRewardForEpoch : Treasury.Indicator L) := by
  intro late early epoch apart
  refine (taxRewardsForEpoch_shadowed epoch apart).bind ?_
  rintro ⟨_, taxLate⟩ ⟨taxRewards, taxEarly⟩ ⟨rfl, taxApart⟩
  refine (seigniorageRewardsForEpoch_shadowed notLuna epoch taxApart).bind ?_
  rintro ⟨_, rewardLate⟩ ⟨rewards, rewardEarly⟩ ⟨rfl, rewardApart⟩
  exact .ok ⟨rfl, rewardApart⟩

theorem trl_shadowed : Shadowed denom gap (Treasury.trl : Treasury.Indicator L) := by
  intro late early epoch apart
  refine (taxRewardsForEpoch_shadowed epoch apart).bind ?_
  rintro ⟨_, taxLate⟩ ⟨taxRewards, taxEarly⟩ ⟨rfl, taxApart⟩
  have sameStaking : taxEarly.staking = taxLate.staking := taxApart.staking
  simp only [sameStaking]
  refine (Related.same _).bind ?_
  rintro perLuna _ rfl
  exact .ok ⟨rfl, taxApart⟩

theorem sumEpochs_shadowed {indicatorFunction : Treasury.Indicator L}
    (shadowed : Shadowed denom gap indicatorFunction) (oldest : ℤ) (remaining : ℕ) (i : ℤ)
    (sum : Dec) {late early : Context L} (apart : Apart denom gap False late early) :
    Related (fun left right => right.1 = left.1 ∧ Beside denom gap False left.2 right.2)
      (Treasury.sumEpochs indicatorFunction oldest remaining i sum late)
      (Treasury.sumEpochs indicatorFunction oldest remaining i sum early) := by
  induction remaining generalizing i sum late early with
  | zero => exact .ok ⟨rfl, rfl, apart⟩
  | succ remaining ih =>
      rw [Treasury.sumEpochs, Treasury.sumEpochs]
      split
      · refine (shadowed i apart).bind ?_
        rintro ⟨_, nextLate⟩ ⟨value, nextEarly⟩ ⟨rfl, nextApart⟩
        exact ih (i - 1) (sum.add value) nextApart
      · exact .ok ⟨rfl, rfl, apart⟩

theorem Apart.getEpoch (apart : Apart denom gap excused late early) :
    early.getEpoch = late.getEpoch := by
  rw [Context.getEpoch, Context.getEpoch, apart.height]

theorem Apart.sumIndicator (apart : Apart denom gap False late early)
    {indicatorFunction : Treasury.Indicator L} (shadowed : Shadowed denom gap indicatorFunction)
    (epochs : ℤ) :
    Related (Beside denom gap False) (Treasury.sumIndicator late epochs indicatorFunction)
      (Treasury.sumIndicator early epochs indicatorFunction) := by
  simp only [Treasury.sumIndicator, apart.getEpoch]
  refine (sumEpochs_shadowed shadowed _ _ _ _ apart).bind ?_
  rintro ⟨_, _, summedLate⟩ ⟨sum, last, summedEarly⟩ ⟨rfl, rfl, summedApart⟩
  exact .ok ⟨rfl, summedApart⟩

theorem Apart.rollingAverageIndicator (apart : Apart denom gap False late early)
    {indicatorFunction : Treasury.Indicator L} (shadowed : Shadowed denom gap indicatorFunction)
    (epochs : ℤ) :
    Related (Beside denom gap False)
      (Treasury.rollingAverageIndicator late epochs indicatorFunction)
      (Treasury.rollingAverageIndicator early epochs indicatorFunction) := by
  simp only [Treasury.rollingAverageIndicator, apart.getEpoch]
  refine (sumEpochs_shadowed shadowed _ _ _ _ apart).bind ?_
  rintro ⟨_, _, summedLate⟩ ⟨sum, last, summedEarly⟩ ⟨rfl, rfl, summedApart⟩
  simp only
  split
  · exact .ok ⟨rfl, summedApart⟩
  · refine (Related.same _).bind ?_
    rintro average _ rfl
    exact .ok ⟨rfl, summedApart⟩

theorem Apart.updateTaxPolicy (apart : Apart denom gap False late early) :
    Related (Beside denom gap False) (Treasury.updateTaxPolicy late)
      (Treasury.updateTaxPolicy early) := by
  have target : Related (fun left right => right.1 = left.1 ∧ Beside denom gap False left.2 right.2)
      (Treasury.taxTarget late) (Treasury.taxTarget early) := by
    have read := apart.withTreasury (Treasury.getTaxRate late late.getEpoch).2.treasury
    rcases apart.frame with ⟨mint, rfl⟩
    have yearly := read.rollingAverageIndicator trl_shadowed late.treasury.params.windowLong
    refine yearly.bind ?_
    rintro ⟨_, yearLate⟩ ⟨tlYear, yearEarly⟩ ⟨rfl, yearApart⟩
    refine (yearApart.rollingAverageIndicator trl_shadowed late.treasury.params.windowShort).bind ?_
    rintro ⟨_, monthLate⟩ ⟨tlMonth, monthEarly⟩ ⟨rfl, monthApart⟩
    simp only
    split
    · exact .ok ⟨rfl, rfl, monthApart⟩
    · refine (Related.same _).bind ?_
      rintro newTaxRate _ rfl
      exact .ok ⟨rfl, rfl, monthApart⟩
  simp only [Treasury.updateTaxPolicy, apart.treasury]
  refine target.bind ?_
  rintro ⟨_, _, nextLate⟩ ⟨old, new, nextEarly⟩ ⟨rfl, rfl, nextApart⟩
  simp only at nextApart ⊢
  rcases nextApart.frame with ⟨mint, rfl⟩
  exact .ok ⟨rfl, nextApart.withTreasury _⟩

theorem Apart.updateRewardPolicy (apart : Apart denom gap False late early)
    (notLuna : denom ≠ microLunaDenom) :
    Related (Beside denom gap False) (Treasury.updateRewardPolicy late)
      (Treasury.updateRewardPolicy early) := by
  have target : Related (fun left right => right.1 = left.1 ∧ Beside denom gap False left.2 right.2)
      (Treasury.rewardTarget late) (Treasury.rewardTarget early) := by
    rcases apart.getRewardWeight late.getEpoch with ⟨sameWeight, weightApart⟩
    simp only [Treasury.rewardTarget, apart.getEpoch, apart.treasury, sameWeight]
    refine (weightApart.sumIndicator (seigniorageRewardsForEpoch_shadowed notLuna) _).bind ?_
    rintro ⟨_, firstLate⟩ ⟨seigniorageSum, firstEarly⟩ ⟨rfl, firstApart⟩
    refine (firstApart.sumIndicator (miningRewardForEpoch_shadowed notLuna) _).bind ?_
    rintro ⟨_, secondLate⟩ ⟨totalSum, secondEarly⟩ ⟨rfl, secondApart⟩
    simp only
    split
    · refine (Related.same _).bind ?_
      rintro oldWeight _ rfl
      exact .ok ⟨rfl, rfl, secondApart⟩
    · refine (Related.same _).bind ?_
      rintro sb _ rfl
      refine (Related.same _).bind ?_
      rintro factor _ rfl
      refine (Related.same _).bind ?_
      rintro oldWeight _ rfl
      exact .ok ⟨rfl, rfl, secondApart⟩
  simp only [Treasury.updateRewardPolicy, apart.treasury]
  refine target.bind ?_
  rintro ⟨_, _, nextLate⟩ ⟨old, new, nextEarly⟩ ⟨rfl, rfl, nextApart⟩
  simp only at nextApart ⊢
  rcases nextApart.frame with ⟨mint, rfl⟩
  exact .ok ⟨rfl, nextApart.withTreasury _⟩

theorem Apart.treasuryEndBlocker (apart : Apart denom gap False late early)
    (notLuna : denom ≠ microLunaDenom) :
    Related (Beside denom gap False) (Treasury.endBlocker late) (Treasury.endBlocker early) := by
  have taxed := apart.updateTaxPolicy
  rcases apart.frame with ⟨mint, rfl⟩
  refine (Related.same _).bind ?_
  rintro last _ rfl
  split
  · have sameProbation : Treasury.IsProbationPeriod { late with mint } ↔
        Treasury.IsProbationPeriod late := Iff.rfl
    simp only [sameProbation]
    split
    · exact .ok ⟨rfl, apart⟩
    · refine taxed.bind ?_
      rintro ⟨_, taxLate⟩ ⟨taxRate, taxEarly⟩ ⟨rfl, taxApart⟩
      refine (taxApart.updateRewardPolicy notLuna).bind ?_
      rintro ⟨_, rewardLate⟩ ⟨rewardWeight, rewardEarly⟩ ⟨rfl, rewardApart⟩
      exact .ok ⟨rfl, rewardApart⟩
  · exact .ok ⟨rfl, apart⟩

end TerraCore.Chain
