import TerraCore.Oracle.Run

/-!
# Positive prices

The weighted median falls through to zero when nobody with power voted. A
ballot of that kind cannot pass: the threshold lies above a third, and a third
of two tokens already rounds to one. What passes has the power of some
validator behind it, and its median is the price of a checked vote.
-/

namespace TerraCore.Oracle

open Transition

/-- `validateParams` accepts the parameters. -/
structure Params.Valid (params : Params) : Prop where
  votePeriod : 0 < params.votePeriod
  voteThreshold : Dec.withPrec 33 2 < params.voteThreshold
  oracleRewardBand : Dec.zero ≤ params.oracleRewardBand

instance (params : Params) : Decidable params.Valid :=
  decidable_of_iff (0 < params.votePeriod ∧ Dec.withPrec 33 2 < params.voteThreshold ∧
    Dec.zero ≤ params.oracleRewardBand)
    ⟨fun checks => ⟨checks.1, checks.2.1, checks.2.2⟩,
      fun valid => ⟨valid.votePeriod, valid.voteThreshold, valid.oracleRewardBand⟩⟩

/-- A ballot that passes has power. -/
theorem power_pos_of_passing {totalBondedTokens ballotPower : ℕ} {voteThreshold : Dec}
    (aboveThird : Dec.withPrec 33 2 < voteThreshold) (bonded : 2 ≤ totalBondedTokens)
    (passing : BallotIsPassing totalBondedTokens voteThreshold ballotPower) : 0 < ballotPower := by
  have atLeast : (33 * 10 ^ 16 + 1) * 2 ≤ voteThreshold.raw * totalBondedTokens := by
    have threshold : 33 * 10 ^ 16 + 1 ≤ voteThreshold.raw := aboveThird
    have tokens : (2 : ℤ) ≤ totalBondedTokens := by exact_mod_cast bonded
    exact mul_le_mul threshold tokens (by norm_num) (by omega)
  have rounded := Rounding.roundHalfEven_mono Dec.precision_pos atLeast
  have least : Rounding.roundHalfEven ((33 * 10 ^ 16 + 1) * 2) Dec.precision = 1 := by
    decide +kernel
  have needed : Rounding.roundHalfEven (voteThreshold.raw * totalBondedTokens) Dec.precision ≤
      ballotPower := passing
  omega

/-- Only votes of validators have power. -/
theorem exists_validator_of_power_pos (staking : Staking) {ballot : PriceBallot}
    (hasPower : 0 < power staking ballot) : ∃ vote ∈ ballot, (vote.getPower staking).isSome := by
  by_contra nobody
  have noPower : ∀ value ∈ ballot.map (votePower staking), value = 0 := by
    intro value valueMem
    rcases List.mem_map.mp valueMem with ⟨vote, voteMem, rfl⟩
    cases found : vote.getPower staking with
    | none => simp [votePower, found]
    | some bonded => exact absurd ⟨vote, voteMem, by simp [found]⟩ nobody
  rw [power_eq_sum, List.sum_eq_zero noPower] at hasPower
  exact lt_irrefl 0 hasPower

variable {L : Type} [Sdk L]

/-- The median of a ballot that passes is the price of one of its votes. -/
theorem weightedMedian_voted {ctx : Context L} (valid : ctx.oracle.params.Valid)
    (bonded : 2 ≤ ctx.staking.bondedTokens) {ballot : PriceBallot} (passes : Passes ctx ballot) :
    ∃ vote ∈ ballot, weightedMedian ctx.staking L ballot = vote.price := by
  have hasPower := power_pos_of_passing valid.voteThreshold bonded passes
  have someone := exists_validator_of_power_pos ctx.staking hasPower
  rcases (weightedMedian_isWeightedMedian ctx.staking L someone).voted with
    ⟨vote, voteMem, -, priceEq⟩
  exact ⟨vote, voteMem, priceEq.symm⟩

/-- All prices in the store are positive, those of the votes included. -/
structure PricesPositive (store : OracleStore) : Prop where
  votes : ∀ (key : Denom × Address) vote, store.votes[key]? = some vote → 0 < vote.price.raw
  prices : ∀ (denom : Denom) price, store.prices[denom]? = some price → 0 < price.raw

theorem pricesPositive_initGenesis (params : Params) :
    PricesPositive (OracleStore.initGenesis params) := by
  constructor
  · intro key vote present
    exact absurd ((Store.get_empty key).symm.trans present) (by simp)
  · intro denom price present
    exact absurd ((Store.get_empty denom).symm.trans present) (by simp)

/-- At a tally the parameters are valid and at least two tokens are bonded. -/
def TallyValid (ctx : Context L) (action : Action L) : Prop :=
  ∀ order, action = .endBlock order → ctx.LastBlock ctx.oracle.params.votePeriod →
    ctx.oracle.params.Valid ∧ 2 ≤ ctx.staking.bondedTokens

instance decidableTallyValid (ctx : Context L) : (action : Action L) →
    Decidable (TallyValid ctx action)
  | .endBlock order =>
      decidable_of_iff (ctx.LastBlock ctx.oracle.params.votePeriod →
        ctx.oracle.params.Valid ∧ 2 ≤ ctx.staking.bondedTokens) (by simp [TallyValid])
  | .pricePrevote _ => .isTrue (by simp [TallyValid])
  | .priceVote _ => .isTrue (by simp [TallyValid])
  | .delegateFeederPermission _ => .isTrue (by simp [TallyValid])
  | .elsewhere _ => .isTrue (by simp [TallyValid])

/-- A tally of positive votes stores positive prices. -/
theorem tallied_pricesPositive (order : MapOrder) {ctx : Context L}
    (valid : ctx.oracle.params.Valid) (bonded : 2 ≤ ctx.staking.bondedTokens)
    (votes : ∀ (key : Denom × Address) vote,
      ctx.oracle.votes[key]? = some vote → 0 < vote.price.raw) :
    PricesPositive (tallied order ctx) := by
  constructor
  · intro key vote present
    rw [tallied_votes] at present
    exact absurd ((Store.get_empty key).symm.trans present) (by simp)
  · intro denom price present
    rw [get_tallied_prices] at present
    split at present
    · next passes =>
        cases present
        rcases weightedMedian_voted valid bonded passes.2 with ⟨vote, voteMem, priceEq⟩
        rw [priceEq]
        exact votes _ vote ((ctx.oracle.mem_voteList_iff vote).mp (List.mem_filter.mp voteMem).1)
    · cases present

/-- Only a tally writes prices. -/
theorem step_prices {ctx next : Context L} {action : Action L}
    (taken : step ctx action = some next)
    (noTally : ∀ order, action = .endBlock order →
      ¬ctx.LastBlock ctx.oracle.params.votePeriod) :
    next.oracle.prices = ctx.oracle.prices := by
  cases action with
  | pricePrevote msg =>
      cases taken
      rcases ctx.deliver_cases (deliverPricePrevote ctx msg) with ⟨result, done⟩ | ⟨_, same⟩
      · rw [(handleMsgPricePrevote_eq_ok (deliverPricePrevote_eq_ok done).2).2.2]
        rfl
      · rw [same]
  | priceVote msg =>
      cases taken
      rcases ctx.deliver_cases (deliverPriceVote ctx msg) with ⟨result, done⟩ | ⟨_, same⟩
      · rcases handleMsgPriceVote_eq_ok (deliverPriceVote_eq_ok done).2 with
          ⟨prevote, -, -, -, -, nextEq⟩
        rw [nextEq]
        rfl
      · rw [same]
  | delegateFeederPermission msg =>
      cases taken
      rcases ctx.deliver_cases (deliverDelegateFeederPermission ctx msg) with
        ⟨result, done⟩ | ⟨_, same⟩
      · rcases Outcome.bind_eq_ok.mp done with ⟨_, -, handled⟩
        rw [handleMsgDelegateFeederPermission_eq_ok handled]
        rfl
      · rw [same]
  | endBlock order =>
      rcases endBlock_cases taken with ⟨-, ⟨-, same⟩ | ⟨last, -⟩⟩
      · rw [same]
      · exact absurd last (noTally order rfl)
  | elsewhere change =>
      cases taken
      rfl

theorem price_pos_of_validateBasic {msg : MsgPriceVote} (valid : msg.validateBasic = .ok ()) :
    0 < msg.price.raw := by
  rcases MsgPriceVote.validateBasic_eq_ok.mp valid with ⟨-, -, -, positive, -⟩
  exact positive

/-- Outside of a tally the only vote that is added is a checked one. -/
theorem step_votesPositive {ctx next : Context L} {action : Action L}
    (positive : PricesPositive ctx.oracle) (taken : step ctx action = some next)
    (key : Denom × Address) (vote : PriceVote)
    (present : next.oracle.votes[key]? = some vote) : 0 < vote.price.raw := by
  cases step_effect taken with
  | kept _ keeps =>
      rw [keeps.votes] at present
      exact positive.votes key vote present
  | prevoted _ _ _ nextEq =>
      subst nextEq
      exact positive.votes key vote present
  | @voted msg _ prevote accepted _ _ _ _ nextEq =>
      subst nextEq
      rcases accepted with ⟨result, done⟩
      rcases Store.cases_get_insert present with ⟨-, rfl⟩ | ⟨-, stored⟩
      · exact price_pos_of_validateBasic (deliverPriceVote_eq_ok done).1
      · exact positive.votes key vote stored
  | ended _ _ oracleEq =>
      rw [oracleEq] at present
      exact positive.votes key vote present
  | periodEnded _ _ _ _ oracleEq =>
      rw [oracleEq, tallied_votes] at present
      exact absurd ((Store.get_empty key).symm.trans present) (by simp)

/-- No step stores a price that is not positive. -/
theorem step_pricesPositive {ctx next : Context L} {action : Action L}
    (positive : PricesPositive ctx.oracle) (valid : TallyValid ctx action)
    (taken : step ctx action = some next) : PricesPositive next.oracle := by
  by_cases tally : ∃ order, action = .endBlock order ∧
      ctx.LastBlock ctx.oracle.params.votePeriod
  · rcases tally with ⟨order, rfl, last⟩
    rcases endBlock_cases taken with
      ⟨-, ⟨notLast, -⟩ | ⟨-, paid, -, stakingEq, rewarded, oracleEq⟩⟩
    · exact absurd last notLast
    · rcases valid order rfl last with ⟨params, bonded⟩
      rcases settled_frame ctx.oracle with ⟨votesEq, paramsEq, -, -⟩
      rw [oracleEq]
      apply tallied_pricesPositive
      · rw [rewarded, paramsEq]
        exact params
      · rw [stakingEq]
        exact bonded
      · rw [rewarded, votesEq]
        exact positive.votes
  · refine ⟨step_votesPositive positive taken, ?_⟩
    rw [step_prices taken fun order isEnd last => tally ⟨order, isEnd, last⟩]
    exact positive.prices

/-- From an empty store on, every stored price is positive. -/
theorem reaches_pricesPositive {start ctx : Context L} {params : Params}
    {actions : List (Action L)} (empty : start.oracle = OracleStore.initGenesis params)
    (reached : Reaches step start actions ctx) (valid : Along step TallyValid start actions) :
    PricesPositive ctx.oracle := by
  apply reached.invariant_of_along (fun state => PricesPositive state.oracle) _ valid
  · rw [empty]
    exact pricesPositive_initGenesis params
  · intro before action after positive tallyValid taken
    exact step_pricesPositive positive tallyValid taken

end TerraCore.Oracle
