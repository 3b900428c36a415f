import TerraCore.Budget.Executors

/-!
# What the rewards add up to

At the end of an epoch a claim of weight `w` among claims of total weight `W`
receives `⌊P * w / W⌋` of a reward pool `P`. The amount is computed with a
product, a truncated quotient and a truncation, which together round once. The
rewards never exceed the pool and leave less than one coin for each claim. To
whom they are minted depends on whether the address of the claim can be read
back.
-/

namespace TerraCore.Budget

open Transition

variable {L : Type} [Sdk L]

/-- The reward pool in Luna, converted to SDR at the oracle's rate if there is one. -/
def convertedPool (ctx : Context L) : DecCoin :=
  match ctx.oracle.prices[microSDRDenom]? with
  | some rate => ⟨microSDRDenom, (epochReward ctx).mul rate⟩
  | none => ⟨microLunaDenom, epochReward ctx⟩

theorem quo_one (value : Dec) : value.quo Dec.one = .ok value := by
  have nonzero : Dec.one.raw ≠ 0 := by decide
  have scaled : (value.raw * Dec.precision * Dec.precision).tdiv Dec.one.raw =
      value.raw * Dec.precision :=
    Int.mul_tdiv_cancel _ nonzero
  rw [Dec.quo, if_neg nonzero, scaled, Dec.chopPrecisionAndRound,
    Rounding.roundHalfEven_mul_self Dec.precision_pos]

omit [Sdk L] in
theorem effectivePrice_sdr (ctx : Context L) :
    Market.effectivePrice ctx microSDRDenom =
      match ctx.oracle.prices[microSDRDenom]? with
      | some rate => .ok rate
      | none => .error (.error (.noEffectivePrice microSDRDenom)) := by
  have notLuna : microSDRDenom ≠ microLunaDenom := by decide
  unfold Market.effectivePrice OracleStore.getLunaSwapRate
  rw [if_neg notLuna]
  cases ctx.oracle.prices[microSDRDenom]? with
  | none => rfl
  | some rate => rfl

theorem rewardPoolCoin_eq {ctx : Context L} (lunaPositive : Dec.zero < epochReward ctx)
    (positive : Dec.zero < (convertedPool ctx).amount) :
    rewardPoolCoin ctx (epochReward ctx) = .ok (convertedPool ctx) := by
  have lunaRate : Market.effectivePrice ctx microLunaDenom = .ok Dec.one :=
    Market.effectivePrice_eq_ok.mpr (if_pos rfl)
  have sdrRate := effectivePrice_sdr ctx
  have lunaPool := newDecCoinFromDec_of_nonneg (by decide : validateDenom microLunaDenom = true)
    (le_of_lt lunaPositive)
  unfold convertedPool at positive ⊢
  unfold rewardPoolCoin
  rw [lunaPool]
  simp only [bind, Except.bind, Market.getSwapDecCoin, lunaRate, sdrRate]
  cases rate : ctx.oracle.prices[microSDRDenom]? with
  | none => rfl
  | some price =>
      simp only [rate] at positive
      have notSmall : ¬(epochReward ctx).mul price ≤ Dec.zero := by
        rw [Dec.le_def, not_le]
        exact positive
      have sdrPool := newDecCoinFromDec_of_nonneg (by decide : validateDenom microSDRDenom = true)
        (le_of_lt positive)
      simp only [quo_one, if_neg notSmall, sdrPool]

/-- The share of a claim in the pool: `⌊P * w / W⌋`. -/
def poolShare (pool : DecCoin) (claims : Store Address ℤ) (weight : ℤ) : ℤ :=
  pool.amount.raw * weight / (claimTotal claims * Dec.precision)

/-- What all claims receive. -/
def sharesTotal (pool : DecCoin) (claims : Store Address ℤ) : ℤ :=
  Store.sum (fun _ weight => poolShare pool claims weight) claims

/-- The truncations of the computed reward amount to one. -/
theorem rewardAmt_eq {pool : DecCoin} {claims : Store Address ℤ} {weight : ℤ}
    (poolNonneg : 0 ≤ pool.amount.raw) (weightNonneg : 0 ≤ weight)
    (totalPos : 0 < claimTotal claims) :
    rewardAmt pool (claimTotal claims) weight = poolShare pool claims weight := by
  have productNonneg : 0 ≤ pool.amount.raw * weight := mul_nonneg poolNonneg weightNonneg
  have quotientNonneg : 0 ≤ pool.amount.raw * weight / claimTotal claims :=
    Int.ediv_nonneg productNonneg totalPos.le
  simp only [rewardAmt, Dec.truncateInt, Dec.quoInt64, Dec.mulInt, poolShare]
  rw [Int.tdiv_eq_ediv_of_nonneg productNonneg, Int.tdiv_eq_ediv_of_nonneg quotientNonneg,
    Int.ediv_ediv_of_nonneg totalPos.le]

section Bounds

variable (pool : DecCoin) {claims : Store Address ℤ} (totalPos : 0 < claimTotal claims)

include totalPos

theorem sharesTotal_le : sharesTotal pool claims * Dec.precision ≤ pool.amount.raw := by
  have divisorPos : 0 < claimTotal claims * Dec.precision := mul_pos totalPos Dec.precision_pos
  have bound := Rounding.sum_ediv_mul_le pool.amount.raw divisorPos (claims.toList.map Prod.snd)
  rw [List.map_map] at bound
  have sumEq : (claims.toList.map Prod.snd).sum = claimTotal claims := rfl
  have totalEq : (claims.toList.map ((fun weight => pool.amount.raw * weight /
      (claimTotal claims * Dec.precision)) ∘ Prod.snd)).sum = sharesTotal pool claims := rfl
  rw [sumEq, totalEq] at bound
  refine le_of_mul_le_mul_right ?_ totalPos
  calc sharesTotal pool claims * Dec.precision * claimTotal claims
    _ = sharesTotal pool claims * (claimTotal claims * Dec.precision) := by ring
    _ ≤ pool.amount.raw * claimTotal claims := bound

theorem lt_sharesTotal :
    pool.amount.raw < (sharesTotal pool claims + claims.toList.length) * Dec.precision := by
  have divisorPos : 0 < claimTotal claims * Dec.precision := mul_pos totalPos Dec.precision_pos
  have bound := Rounding.add_length_le_sum_ediv pool.amount.raw divisorPos
    (claims.toList.map Prod.snd)
  rw [List.map_map, List.length_map] at bound
  have sumEq : (claims.toList.map Prod.snd).sum = claimTotal claims := rfl
  have totalEq : (claims.toList.map ((fun weight => pool.amount.raw * weight /
      (claimTotal claims * Dec.precision)) ∘ Prod.snd)).sum = sharesTotal pool claims := rfl
  rw [sumEq, totalEq] at bound
  have someClaim : 0 < claims.toList.length := by
    apply List.length_pos_of_ne_nil
    intro noClaim
    rw [← sumEq, noClaim] at totalPos
    exact absurd totalPos (by decide)
  refine lt_of_mul_lt_mul_right ?_ totalPos.le
  calc pool.amount.raw * claimTotal claims
    _ < pool.amount.raw * claimTotal claims + claims.toList.length := by omega
    _ ≤ (sharesTotal pool claims + claims.toList.length) *
        (claimTotal claims * Dec.precision) := bound
    _ = (sharesTotal pool claims + claims.toList.length) * Dec.precision *
        claimTotal claims := by ring

end Bounds

theorem payClaim_supply {pool : DecCoin} {weightSum : ℤ} {before after : Context L}
    {claim : Address × ℤ} (done : payClaim pool weightSum before claim = .ok after)
    (denom : Denom) :
    (supply after.ledger denom : ℤ) = supply before.ledger denom +
      Mint.only pool.denom (rewardAmt pool weightSum claim.2) denom := by
  rcases Outcome.bind_eq_ok.mp done with ⟨share, divided, done⟩
  rcases Outcome.bind_eq_ok.mp done with ⟨coin, made, done⟩
  simp only [Dec.quoInt] at divided
  split at divided
  · cases divided
  · cases divided
    rcases newCoin_eq_ok.mp made with ⟨-, -, rfl⟩
    rcases Mint.mint_writes (mustSucceed_eq_ok.mp done) with ⟨ledger, mint, moves, rfl⟩
    rw [moves.supply denom]
    simp only [creditedTotal_cons, creditedTotal_nil, amountOf_cons, amountOf_nil, add_zero,
      sub_zero, Mint.only]
    rfl

theorem payClaims_supply {pool : DecCoin} {weightSum : ℤ} {claims : List (Address × ℤ)}
    {before after : Context L}
    (done : claims.foldlM (payClaim pool weightSum) before = .ok after) (denom : Denom) :
    (supply after.ledger denom : ℤ) = supply before.ledger denom +
      Mint.only pool.denom (claims.map fun claim => rewardAmt pool weightSum claim.2).sum
        denom := by
  induction claims generalizing before with
  | nil =>
      cases done
      simp [Mint.only]
  | cons claim claims ih =>
      rw [List.foldlM_cons] at done
      rcases Outcome.bind_eq_ok.mp done with ⟨middle, first, rest⟩
      rw [ih rest, payClaim_supply first, List.map_cons, List.sum_cons, add_assoc]
      congr 1
      simp only [Mint.only]
      split
      · rfl
      · rfl

/-- No claim is paid to an address that is not read back. -/
theorem claimPool_ne_of_unreadable {store : BudgetStore} {recipient : Address}
    (unreadable : readBack recipient ≠ recipient) {claim : Address × ℤ}
    (listed : claim ∈ store.claimPool) : claim.1 ≠ recipient := by
  rcases List.mem_map.mp listed with ⟨entry, -, rfl⟩
  intro same
  have readEq : readBack entry.1 = recipient := same
  apply unreadable
  rw [readBack_eq_self_iff, ← readEq]
  by_cases readable : Readable entry.1
  · have same := (readBack_eq_self_iff entry.1).mpr readable.symm
    rw [same]
    exact readable.symm
  · right
    simp [readBack, accAddressFromBech32, readable]

/-- The balance of a claimant grows by its share exactly when all addresses are read back. -/
theorem payClaims_shares_iff {pool : DecCoin} {store : BudgetStore} {before after : Context L}
    (poolNonneg : 0 ≤ pool.amount.raw) (totalPos : 0 < claimTotal store.claims)
    (weightsNonneg : ∀ (recipient : Address) (weight : ℤ),
      store.claims[recipient]? = some weight → 0 ≤ weight)
    (sharesPos : ∀ (recipient : Address) (weight : ℤ),
      store.claims[recipient]? = some weight → 0 < poolShare pool store.claims weight)
    (done : store.claimPool.foldlM (payClaim pool (claimWeightSum store)) before = .ok after) :
    (∀ (recipient : Address) (weight : ℤ), store.claims[recipient]? = some weight →
        (Ledger.balance after.ledger recipient pool.denom : ℤ) =
          Ledger.balance before.ledger recipient pool.denom +
            poolShare pool store.claims weight) ↔
      ∀ (recipient : Address) (weight : ℤ), store.claims[recipient]? = some weight →
        readBack recipient = recipient := by
  constructor
  · intro paid recipient weight present
    by_contra unreadable
    have received := payClaims_balance done recipient pool.denom
    have nothing : (store.claimPool.map fun claim => if claim.1 = recipient then
        Mint.only pool.denom (rewardAmt pool (claimWeightSum store) claim.2) pool.denom
      else 0).sum = 0 := by
      apply List.sum_eq_zero
      intro amount listed
      rcases List.mem_map.mp listed with ⟨claim, claimMem, rfl⟩
      exact if_neg (claimPool_ne_of_unreadable unreadable claimMem)
    have share := sharesPos recipient weight present
    rw [nothing, paid recipient weight present] at received
    omega
  · intro readable recipient weight present
    rw [payClaims_balance done recipient pool.denom, sum_claimPool pool readable, claimedReward,
      present]
    have weightNonneg := weightsNonneg recipient weight present
    simp [Mint.only, rewardAmt_eq poolNonneg weightNonneg totalPos]

theorem claimPool_rewards {pool : DecCoin} {store : BudgetStore}
    (poolNonneg : 0 ≤ pool.amount.raw) (totalPos : 0 < claimTotal store.claims)
    (weightsNonneg : ∀ (recipient : Address) (weight : ℤ),
      store.claims[recipient]? = some weight → 0 ≤ weight) :
    (store.claimPool.map fun claim => rewardAmt pool (claimWeightSum store) claim.2).sum =
      sharesTotal pool store.claims := by
  rw [claimWeightSum_eq]
  simp only [BudgetStore.claimPool, List.map_map, sharesTotal, Store.sum]
  congr 1
  apply List.map_congr_left
  intro claim listed
  have present := (Store.mem_toList_iff store.claims claim).mp listed
  exact rewardAmt_eq poolNonneg (weightsNonneg claim.1 claim.2 present) totalPos

/-- At the end of an epoch at which no reward rounds to zero, the end blocker
mints the shares of all claims. Together they are at most the pool and miss it
by less than one coin for each claim. Every claimant receives its own share
exactly when no claim is recorded for an address of another length. -/
theorem payout_exact_iff {ctx : Context L} {rewardWeight : Dec}
    (votePeriod : ctx.budget.params.votePeriod ≠ 0) (last : ctx.LastBlock blocksPerEpoch)
    (found : (Treasury.getRewardWeight ctx ctx.getEpoch).1 = some rewardWeight)
    (lunaPositive : Dec.zero < epochReward ctx)
    (positive : Dec.zero < (convertedPool ctx).amount)
    (weightsNonneg : ∀ (recipient : Address) (weight : ℤ),
      (reweighed ctx).claims[recipient]? = some weight → 0 ≤ weight)
    (totalPos : 0 < claimTotal (reweighed ctx).claims)
    (noneZero : ∀ (recipient : Address) (weight : ℤ),
      (reweighed ctx).claims[recipient]? = some weight →
        poolShare (convertedPool ctx) (reweighed ctx).claims weight ≠ 0) :
    ∃ tags after, endBlocker ctx = .ok (tags, after) ∧
      (∀ denom, (supply after.ledger denom : ℤ) = supply ctx.ledger denom +
        Mint.only (convertedPool ctx).denom
          (sharesTotal (convertedPool ctx) (reweighed ctx).claims) denom) ∧
      sharesTotal (convertedPool ctx) (reweighed ctx).claims * Dec.precision ≤
        (convertedPool ctx).amount.raw ∧
      (convertedPool ctx).amount.raw <
        (sharesTotal (convertedPool ctx) (reweighed ctx).claims +
          (reweighed ctx).claims.toList.length) * Dec.precision ∧
      ((∀ (recipient : Address) (weight : ℤ), (reweighed ctx).claims[recipient]? = some weight →
          (Ledger.balance after.ledger recipient (convertedPool ctx).denom : ℤ) =
            Ledger.balance ctx.ledger recipient (convertedPool ctx).denom +
              poolShare (convertedPool ctx) (reweighed ctx).claims weight) ↔
        ∀ (recipient : Address) (weight : ℤ), (reweighed ctx).claims[recipient]? = some weight →
          recipient.length = addrLen ∨ recipient = []) := by
  have poolNonneg : 0 ≤ (convertedPool ctx).amount.raw := le_of_lt positive
  have divisorPos : 0 < claimTotal (reweighed ctx).claims * Dec.precision :=
    mul_pos totalPos Dec.precision_pos
  have sharesPos : ∀ (recipient : Address) (weight : ℤ),
      (reweighed ctx).claims[recipient]? = some weight →
        0 < poolShare (convertedPool ctx) (reweighed ctx).claims weight := by
    intro recipient weight present
    have productNonneg := mul_nonneg poolNonneg (weightsNonneg recipient weight present)
    exact lt_of_le_of_ne (Int.ediv_nonneg productNonneg divisorPos.le)
      (noneZero recipient weight present).symm
  have pooled := rewardPoolCoin_eq lunaPositive positive
  have payable : SharesPositive (reweighed ctx).claims (convertedPool ctx).amount := by
    intro recipient weight present
    have share := sharesPos recipient weight present
    have weightNonneg := weightsNonneg recipient weight present
    have computed := rewardAmt_eq poolNonneg weightNonneg totalPos
    rw [← computed] at share
    refine ⟨lt_of_le_of_ne weightNonneg ?_, (share_pos_iff poolNonneg weightNonneg totalPos).mp share⟩
    rintro rfl
    exact noneZero recipient 0 present (by simp [poolShare])
  rcases (endBlocker_pays_iff votePeriod weightsNonneg found).mpr (by simp [pooled, payable]) with
    ⟨tags, after, done⟩
  rcases endBlocker_pays last done with
    ⟨read, paid, sameLedger, sameOracle, sameBudget, paying, paidLedger, -⟩
  simp only [payRewards, rewardPoolCoin_congr sameOracle, if_pos lunaPositive, pooled, bind,
    Except.bind, sameBudget] at paying
  refine ⟨tags, after, done, ?_, sharesTotal_le _ totalPos, lt_sharesTotal _ totalPos, ?_⟩
  · intro denom
    rw [paidLedger, payClaims_supply paying denom, sameLedger,
      claimPool_rewards poolNonneg totalPos weightsNonneg]
  · rw [paidLedger, ← sameLedger,
      payClaims_shares_iff poolNonneg totalPos weightsNonneg sharesPos paying]
    simp only [readBack_eq_self_iff]

theorem claims_of_toList {claims : Store Address ℤ} {entries : List (Address × ℤ)}
    (listed : claims.toList = entries) :
    claimTotal claims = (entries.map Prod.snd).sum ∧
      ∀ (recipient : Address) (weight : ℤ),
        claims[recipient]? = some weight ↔ (recipient, weight) ∈ entries := by
  subst listed
  exact ⟨rfl, fun recipient weight => (Store.mem_toList_iff claims (recipient, weight)).symm⟩

/-- The rewards of an epoch with two claims. -/
theorem paying_pool :
    (reweighed paying).claims.toList = [(List.replicate 20 4, 40), (List.replicate 20 5, 30)] ∧
      convertedPool paying = ⟨microLunaDenom, Dec.ofInt 95⟩ := by
  constructor <;> decide +kernel

/-- The shares of 40 and 30 in a pool of 95 coins are rounded down, and one coin is left over. -/
theorem payout_exact_iff_proper :
    ∃ (tags : Tags) (after : Context Book), endBlocker paying = .ok (tags, after) ∧
      poolShare (convertedPool paying) (reweighed paying).claims 40 = 54 ∧
      poolShare (convertedPool paying) (reweighed paying).claims 30 = 40 ∧
      (Ledger.balance after.ledger (List.replicate 20 4 : Address) microLunaDenom : ℤ) =
        Ledger.balance paying.ledger (List.replicate 20 4 : Address) microLunaDenom + 54 ∧
      (Ledger.balance after.ledger (List.replicate 20 5 : Address) microLunaDenom : ℤ) =
        Ledger.balance paying.ledger (List.replicate 20 5 : Address) microLunaDenom + 40 := by
  rcases paying_pool with ⟨listed, pool⟩
  rcases claims_of_toList listed with ⟨total, stored⟩
  have larger : poolShare (convertedPool paying) (reweighed paying).claims 40 = 54 := by
    rw [pool, poolShare, total]
    decide
  have smaller : poolShare (convertedPool paying) (reweighed paying).claims 30 = 40 := by
    rw [pool, poolShare, total]
    decide
  -- The claims are these two.
  have each {P : Address → ℤ → Prop} (first : P (List.replicate 20 4) 40)
      (second : P (List.replicate 20 5) 30) (recipient : Address) (weight : ℤ)
      (present : (reweighed paying).claims[recipient]? = some weight) : P recipient weight := by
    have entry := (stored recipient weight).mp present
    simp only [List.mem_cons, List.not_mem_nil, or_false, Prod.mk.injEq] at entry
    rcases entry with ⟨rfl, rfl⟩ | ⟨rfl, rfl⟩
    · exact first
    · exact second
  have found : (Treasury.getRewardWeight paying paying.getEpoch).1 = some (Dec.withPrec 5 2) := by
    decide +kernel
  rcases payout_exact_iff (by decide +kernel) paying_lastBlock found (by decide +kernel)
      (by rw [pool]; decide) (each (by decide) (by decide)) (by rw [total]; decide)
      (each (by rw [larger]; decide) (by rw [smaller]; decide)) with
    ⟨tags, after, done, -, -, -, paidIff⟩
  have addressed : ∀ (recipient : Address) (weight : ℤ),
      (reweighed paying).claims[recipient]? = some weight →
        recipient.length = addrLen ∨ recipient = [] := each (Or.inl rfl) (Or.inl rfl)
  have paid := paidIff.mpr addressed
  have first := paid _ _ ((stored (List.replicate 20 4) 40).mpr (by decide))
  have second := paid _ _ ((stored (List.replicate 20 5) 30).mpr (by decide))
  rw [larger, pool] at first
  rw [smaller, pool] at second
  exact ⟨tags, after, done, larger, smaller, first, second⟩

/-- The rewards of an epoch whose only claim is recorded for one byte. -/
theorem short_pool :
    (reweighed (endingFor [7])).claims.toList = [([7], 10)] ∧
      convertedPool (endingFor [7]) = ⟨microLunaDenom, Dec.ofInt 95⟩ := by
  constructor <;> decide +kernel

/-- The executor has one byte: the whole pool of 95 coins is its share, and it
receives nothing. -/
theorem short_executor_misses_share :
    Reaches step sampleStart (epochActions [7]) (endingFor [7]) ∧
      (endingFor [7]).LastBlock blocksPerEpoch ∧
      (reweighed (endingFor [7])).claims.toList = [([7], 10)] ∧
      convertedPool (endingFor [7]) = ⟨microLunaDenom, Dec.ofInt 95⟩ ∧
      poolShare (convertedPool (endingFor [7])) (reweighed (endingFor [7])).claims 10 = 95 ∧
      ∃ (tags : Tags) (after : Context Book), endBlocker (endingFor [7]) = .ok (tags, after) ∧
        ¬∀ (recipient : Address) (weight : ℤ),
          (reweighed (endingFor [7])).claims[recipient]? = some weight →
            (Ledger.balance after.ledger recipient (convertedPool (endingFor [7])).denom : ℤ) =
              Ledger.balance (endingFor [7]).ledger recipient
                (convertedPool (endingFor [7])).denom +
              poolShare (convertedPool (endingFor [7])) (reweighed (endingFor [7])).claims
                weight := by
  rcases short_pool with ⟨listed, pool⟩
  rcases claims_of_toList listed with ⟨total, stored⟩
  have share : poolShare (convertedPool (endingFor [7])) (reweighed (endingFor [7])).claims 10 =
      95 := by
    rw [pool, poolShare, total]
    decide
  refine ⟨reaches_endingFor epochRuns_short, endingFor_lastBlock, listed, pool, share, ?_⟩
  rcases settlement_eq_some settlement_short with ⟨tags, after, ended, -, held, -⟩
  refine ⟨tags, after, ended, ?_⟩
  intro paid
  have received := paid [7] 10 ((stored [7] 10).mpr (by decide))
  rw [share, pool, held] at received
  omega

end TerraCore.Budget
