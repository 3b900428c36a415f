import TerraCore.Oracle.Claims
import TerraCore.Oracle.Expiry
import TerraCore.Oracle.Median
import TerraCore.Oracle.OneVote
import TerraCore.Oracle.Prices

/-!
# What honest validators achieve

Commit and reveal, the uniqueness of votes and the weighted median together are
to give the validators who tell the truth the last word. In every run, if honest
validators had prices between two bounds accepted in a vote period, hold enough
power for the ballot to pass and outweigh everybody else who voted by more than
one unit, then a price between the bounds is stored at the end of the period, and
it stays in force for the whole next one.
-/

namespace TerraCore.Oracle

open Transition

def honestPower (staking : Staking) (honest : Finset Address) : ℕ :=
  ∑ validator ∈ honest, bonded staking validator

/-- Voters with prices in a range, of whom each votes once, have their power counted in it. -/
theorem honestPower_le_powerWithin {staking : Staking} {ballot : PriceBallot} {lower upper : Dec}
    {honest : Finset Address} (once : (ballot.map PriceVote.voter).Nodup)
    (voted : ∀ validator ∈ honest, ∃ vote ∈ ballot, vote.voter = validator ∧
      lower ≤ vote.price ∧ vote.price ≤ upper) :
    honestPower staking honest ≤ powerWithin staking ballot lower upper := by
  let within := ballot.filter fun vote => lower ≤ vote.price ∧ vote.price ≤ upper
  have distinct : (within.map PriceVote.voter).Nodup :=
    once.sublist (List.filter_sublist.map PriceVote.voter)
  have included : honest ⊆ (within.map PriceVote.voter).toFinset := by
    intro validator validatorMem
    rcases voted validator validatorMem with ⟨vote, voteMem, rfl, atLeast, atMost⟩
    rw [List.mem_toFinset]
    refine List.mem_map_of_mem (List.mem_filter.mpr ⟨voteMem, ?_⟩)
    exact decide_eq_true ⟨atLeast, atMost⟩
  calc honestPower staking honest
      ≤ ∑ validator ∈ (within.map PriceVote.voter).toFinset, bonded staking validator :=
        Finset.sum_le_sum_of_subset included
    _ = ((within.map PriceVote.voter).map (bonded staking)).sum :=
        List.sum_toFinset _ distinct
    _ = powerWithin staking ballot lower upper := by
        rw [powerWithin, power_eq_sum, List.map_map]
        rfl

/-- Prices below a range are not in it. -/
theorem powerBelow_add_powerWithin_le (staking : Staking) (ballot : PriceBallot)
    (lower upper : Dec) :
    powerBelow staking ballot lower + powerWithin staking ballot lower upper ≤
      power staking ballot := by
  simp only [powerBelow, powerWithin, power_eq_sum]
  induction ballot with
  | nil => simp
  | cons vote ballot ih =>
      simp only [List.filter_cons, List.map_cons, List.sum_cons]
      by_cases below : vote.price < lower
      · have outside : ¬(lower ≤ vote.price ∧ vote.price ≤ upper) :=
          fun within => absurd within.1 (Dec.not_le.mpr below)
        simp only [below, outside, decide_true, decide_false, if_true, Bool.false_eq_true, if_false,
          List.map_cons, List.sum_cons]
        omega
      · by_cases inside : lower ≤ vote.price ∧ vote.price ≤ upper
        · simp only [below, inside, decide_true, decide_false, if_true, Bool.false_eq_true, if_false,
            List.map_cons, List.sum_cons, and_self]
          omega
        · simp only [below, inside, decide_false, Bool.false_eq_true, if_false]
          omega

/-- Voters that outweigh all others by more than one unit of power decide the median. -/
theorem median_within {staking : Staking} (L : Type) [Sdk L] {ballot : PriceBallot}
    {lower upper : Dec}
    (margin : power staking ballot + 1 < 2 * powerWithin staking ballot lower upper) :
    lower ≤ weightedMedian staking L ballot ∧ weightedMedian staking L ballot ≤ upper := by
  have apart := powerBelow_add_powerWithin_le staking ballot lower upper
  refine (majority_decides_iff staking L (by omega)).mpr (Or.inl ?_)
  omega

variable {L : Type} [Sdk L]

/-- The run has accepted a price of the validator in the vote period that is now going on. -/
structure Voted (denom : Denom) (lower upper : Dec) (validator : Address) (start ctx : Context L)
    (actions : List (Action L)) where
  msg : MsgPriceVote
  earlier : List (Action L)
  later : List (Action L)
  actions_eq : actions = earlier ++ .priceVote msg :: later
  revealing : Context L
  revealed : Context L
  reaches : Reaches step start earlier revealing
  accepted : ∃ result, deliverPriceVote revealing msg = .ok (result, revealed)
  reachesEnd : Reaches step revealed later ctx
  on : msg.denom = denom ∧ msg.validator = validator
  within : lower ≤ msg.price ∧ msg.price ≤ upper
  samePeriod : (ctx.height : ℤ) / ctx.oracle.params.votePeriod =
    (revealing.height : ℤ) / ctx.oracle.params.votePeriod

theorem reaches_votePeriod {start ctx : Context L} {actions : List (Action L)}
    (reached : Reaches step start actions ctx) :
    ctx.oracle.params.votePeriod = start.oracle.params.votePeriod :=
  reached.invariant (fun state => state.oracle.params.votePeriod = start.oracle.params.votePeriod)
    (fun _ _ _ same taken => (step_votePeriod taken).trans same) rfl

/-- An accepted price waits in the store for the end of the period. -/
theorem Voted.stored {denom : Denom} {lower upper : Dec} {validator : Address}
    {start ctx : Context L} {actions : List (Action L)}
    (voted : Voted denom lower upper validator start ctx actions)
    (positive : 0 < ctx.oracle.params.votePeriod) :
    ∃ vote ∈ ctx.oracle.ballot denom, vote.voter = validator ∧ lower ≤ vote.price ∧
      vote.price ≤ upper := by
  rcases voted.accepted with ⟨result, done⟩
  have handled := (deliverPriceVote_eq_ok done).2
  have period : ctx.oracle.params.votePeriod = voted.revealing.oracle.params.votePeriod := by
    rcases handleMsgPriceVote_eq_ok handled with ⟨_, -, -, -, -, revealedEq⟩
    rw [reaches_votePeriod voted.reachesEnd, revealedEq]
    rfl
  have samePeriod := voted.samePeriod
  rw [period] at positive samePeriod
  have kept := (one_vote_per_period positive handled voted.reachesEnd samePeriod).1
  refine ⟨⟨voted.msg.price, voted.msg.denom, voted.msg.validator⟩, ?_, voted.on.2, voted.within⟩
  refine List.mem_filter.mpr ⟨(OracleStore.mem_voteList_iff _ _).mpr kept, ?_⟩
  exact decide_eq_true voted.on.1

/-- A price stays stored until the period ends. -/
theorem reaches_price {start later : Context L} {actions : List (Action L)} {denom : Denom}
    {price : Dec} (positive : 0 < start.oracle.params.votePeriod)
    (stored : start.oracle.prices[denom]? = some price) (reached : Reaches step start actions later)
    (samePeriod : (later.height : ℤ) / start.oracle.params.votePeriod =
      (start.height : ℤ) / start.oracle.params.votePeriod) :
    later.oracle.prices[denom]? = some price := by
  have invariant := reached.invariant (fun state =>
    state.oracle.params.votePeriod = start.oracle.params.votePeriod ∧
      start.height ≤ state.height ∧
      ((state.height : ℤ) / start.oracle.params.votePeriod =
          (start.height : ℤ) / start.oracle.params.votePeriod →
        state.oracle.prices[denom]? = some price)) ?_ ⟨rfl, le_rfl, fun _ => stored⟩
  · exact invariant.2.2 samePeriod
  rintro before action after ⟨period, height, prices⟩ taken
  have grows := step_height taken
  refine ⟨(step_votePeriod taken).trans period, height.trans grows, ?_⟩
  intro still
  have low := Int.ediv_le_ediv positive (Int.ofNat_le.mpr height)
  have high := Int.ediv_le_ediv positive (Int.ofNat_le.mpr grows)
  rw [step_prices taken, prices (by omega)]
  rintro order rfl last
  -- The end of a period would have begun the next one.
  rw [period] at last
  have next := nextPeriod_of_lastBlock positive last
  rw [← (endBlock_cases taken).1] at next
  omega

/-- In every run, honest validators who had prices within a range accepted in a
vote period, and who have the power for a quorum and outweigh the other voters
by more than one unit of power, set a price within the range, which is in force
for the whole next period. -/
theorem honest_majority_sets_price {start ctx : Context L} {actions : List (Action L)}
    {denom : Denom} {lower upper : Dec} {honest : Finset Address}
    (positive : 0 < ctx.oracle.params.votePeriod)
    (last : ctx.LastBlock ctx.oracle.params.votePeriod)
    (voted : ∀ validator ∈ honest, Nonempty (Voted denom lower upper validator start ctx actions))
    (quorum : BallotIsPassing ctx.staking.bondedTokens ctx.oracle.params.voteThreshold
      (honestPower ctx.staking honest))
    (majority : power ctx.staking (ctx.oracle.ballot denom) + 1 <
      2 * honestPower ctx.staking honest) (order : MapOrder) :
    ∃ (next : Context L) (price : Dec), step ctx (.endBlock order) = some next ∧
      lower ≤ price ∧ price ≤ upper ∧
      ∀ (later : Context L) (more : List (Action L)), Reaches step next more later →
        (later.height : ℤ) / ctx.oracle.params.votePeriod =
            (next.height : ℤ) / ctx.oracle.params.votePeriod →
          later.oracle.prices[denom]? = some price := by
  have counted : honestPower ctx.staking honest ≤
      powerWithin ctx.staking (ctx.oracle.ballot denom) lower upper := by
    apply honestPower_le_powerWithin (ballot_nodup_voters ctx.oracle denom)
    intro validator validatorMem
    rcases voted validator validatorMem with ⟨vote⟩
    exact vote.stored positive
  have heard := median_within L (lt_of_lt_of_le majority (Nat.mul_le_mul_left 2 counted))
  rcases endBlocker_replaces_prices order ctx positive with ⟨tags, after, finished, atLast, -⟩
  rcases atLast last with ⟨storedIff, value, -⟩
  have someVote : ctx.oracle.ballot denom ≠ [] := by
    intro empty
    have nothing : power ctx.staking [] = 0 := rfl
    have none : powerWithin ctx.staking [] lower upper = 0 := rfl
    rw [empty] at counted majority
    omega
  have apart := powerBelow_add_powerWithin_le ctx.staking (ctx.oracle.ballot denom) lower upper
  have passes : (ctx.oracle.params.voteThreshold.mulInt ctx.staking.bondedTokens).roundInt ≤
      power ctx.staking (ctx.oracle.ballot denom) := by
    refine le_trans quorum ?_
    exact_mod_cast (by omega : honestPower ctx.staking honest ≤
      power ctx.staking (ctx.oracle.ballot denom))
  rcases (storedIff denom).mpr
    ⟨(OracleStore.ballot_ne_nil_iff ctx.oracle denom).mp someVote, passes⟩ with ⟨price, stored⟩
  have taken : step ctx (.endBlock order) = some { after with height := after.height + 1 } := by
    simp only [step, finished]
  have period := step_votePeriod taken
  rw [← value denom price stored] at heard
  refine ⟨_, price, taken, heard.1, heard.2, ?_⟩
  intro later more reached samePeriod
  rw [← period] at positive samePeriod
  exact reaches_price positive stored reached samePeriod

/-- The state in which the vote of the short run is sent, and what the end of the period sees. -/
theorem sample_majority :
    (perform step sampleStart [.pricePrevote samplePrevote, .endBlock MapOrder.sorted]).bind
        (fun revealing => (match deliverPriceVote revealing sampleVote with
          | .ok (_, ctx) => some (ctx.oracle.params.votePeriod, revealing.height, ctx.height,
              honestPower ctx.staking {List.replicate 20 1},
              power ctx.staking (ctx.oracle.ballot microSDRDenom),
              decide (BallotIsPassing ctx.staking.bondedTokens ctx.oracle.params.voteThreshold 10))
          | .error _ => none)) = some (1, 1, 1, 10, 10, true) := by
  decide +kernel

theorem honest_majority_sets_price_sample :
    ∃ (ctx next : Context Book) (price : Dec),
      step ctx (.endBlock MapOrder.sorted) = some next ∧ Dec.one ≤ price ∧ price ≤ Dec.one ∧
        next.oracle.prices[microSDRDenom]? = some price := by
  rcases Option.bind_eq_some_iff.mp sample_majority with ⟨revealing, performed, values⟩
  split at values
  · next result ctx accepted =>
      simp only [Option.some.injEq, Prod.mk.injEq, decide_eq_true_eq] at values
      rcases values with ⟨period, revealHeight, height, honest, total, passing⟩
      have voted : Voted microSDRDenom Dec.one Dec.one (List.replicate 20 1) sampleStart ctx
          sampleActions :=
        { msg := sampleVote, earlier := _, later := [], actions_eq := rfl, revealing
          revealed := ctx, reaches := reaches_of_perform performed, accepted := ⟨_, accepted⟩
          reachesEnd := .refl, on := ⟨rfl, rfl⟩, within := by decide
          samePeriod := by rw [height, revealHeight] }
      rcases honest_majority_sets_price (by rw [period]; decide)
          (by rw [period, Context.LastBlock, height]; decide)
          (by
            intro validator validatorMem
            rw [Finset.mem_singleton.mp validatorMem]
            exact ⟨voted⟩)
          (by rw [honest]; exact passing) (by rw [honest, total]; decide) MapOrder.sorted with
        ⟨next, price, taken, atLeast, atMost, inForce⟩
      exact ⟨ctx, next, price, taken, atLeast, atMost, inForce next [] .refl rfl⟩
  · cases values

end TerraCore.Oracle
