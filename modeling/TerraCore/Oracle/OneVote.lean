import TerraCore.Oracle.CommitReveal

/-!
# One vote in a period

Nothing looks for an existing vote when a vote is stored. That a validator
cannot vote twice on a denomination in the same period follows from the
prevotes: a reveal consumes the stored one, and whatever is committed
afterwards was submitted in the current period or later, which is not the
period before. The vote therefore stays as it is until the ballots are tallied.
-/

namespace TerraCore.Oracle

open Transition

variable {L : Type} [Sdk L]

/-- What holds after a vote was stored at the height `since`: the prevotes of
its validator are younger, and the vote is in place as long as the period lasts. -/
structure Revealed (vote : PriceVote) (since : ℕ) (votePeriod : ℤ) (ctx : Context L) : Prop where
  votePeriod_eq : ctx.oracle.params.votePeriod = votePeriod
  later : since ≤ ctx.height
  younger : ∀ prevote, ctx.oracle.prevotes[(vote.denom, vote.voter)]? = some prevote →
    (since : ℤ) ≤ prevote.submitBlock
  stored : (ctx.height : ℤ) / votePeriod = (since : ℤ) / votePeriod →
    ctx.oracle.votes[(vote.denom, vote.voter)]? = some vote

variable {vote : PriceVote} {since : ℕ} {votePeriod : ℤ}

omit [Sdk L] in
/-- A younger prevote cannot be revealed in the same period. -/
theorem Revealed.not_inRevealPeriod {ctx : Context L} (positive : 0 < votePeriod)
    (revealed : Revealed vote since votePeriod ctx) {prevote : PricePrevote}
    (found : ctx.oracle.prevotes[(vote.denom, vote.voter)]? = some prevote)
    (samePeriod : (ctx.height : ℤ) / votePeriod = (since : ℤ) / votePeriod) :
    ¬InRevealPeriod ctx prevote := by
  intro inPeriod
  have young := revealed.younger prevote found
  have submitted : (since : ℤ) / votePeriod ≤ prevote.submitBlock / votePeriod :=
    Int.ediv_le_ediv positive young
  simp only [InRevealPeriod] at inPeriod
  rw [revealed.votePeriod_eq, Int.tdiv_eq_ediv_of_nonneg (Int.natCast_nonneg _),
    Int.tdiv_eq_ediv_of_nonneg ((Int.natCast_nonneg since).trans young)] at inPeriod
  omega

omit [Sdk L] in
/-- The block after the last one of a period belongs to the next period. -/
theorem nextPeriod_of_lastBlock {ctx : Context L} (positive : 0 < votePeriod)
    (last : ctx.LastBlock votePeriod) :
    (ctx.height : ℤ) / votePeriod < ((ctx.height + 1 : ℕ) : ℤ) / votePeriod := by
  simp only [Context.LastBlock] at last
  rw [Int.tmod_eq_emod_of_nonneg (by omega)] at last
  have whole : ((ctx.height : ℤ) + 1) / votePeriod * votePeriod = (ctx.height : ℤ) + 1 :=
    Int.ediv_mul_cancel (Int.dvd_of_emod_eq_zero last)
  push_cast
  rw [Int.ediv_lt_iff_lt_mul positive, whole]
  omega

theorem step_revealed {ctx next : Context L} {action : Action L} (positive : 0 < votePeriod)
    (revealed : Revealed vote since votePeriod ctx) (taken : step ctx action = some next) :
    Revealed vote since votePeriod next := by
  have constant := (step_votePeriod taken).trans revealed.votePeriod_eq
  have since_le := revealed.later
  -- Heights only grow, so a state before one in the same period is in it as well.
  have earlier : ∀ height : ℕ, ctx.height ≤ height →
      (height : ℤ) / votePeriod = (since : ℤ) / votePeriod →
        (ctx.height : ℤ) / votePeriod = (since : ℤ) / votePeriod := by
    intro height grows samePeriod
    have low := Int.ediv_le_ediv positive (Int.ofNat_le.mpr revealed.later)
    have high := Int.ediv_le_ediv positive (Int.ofNat_le.mpr grows)
    omega
  cases step_effect taken with
  | kept _ keeps =>
      refine ⟨constant, keeps.height ▸ revealed.later, ?_, ?_⟩
      · rw [keeps.prevotes]
        exact revealed.younger
      · rw [keeps.votes, keeps.height]
        exact revealed.stored
  | prevoted _ _ _ nextEq =>
      subst nextEq
      refine ⟨constant, revealed.later, ?_, revealed.stored⟩
      intro prevote present
      rcases Store.cases_get_insert present with ⟨-, rfl⟩ | ⟨-, stored⟩
      · exact Int.ofNat_le.mpr revealed.later
      · exact revealed.younger prevote stored
  | @voted msg _ prevote _ found _ inPeriod _ nextEq =>
      subst nextEq
      refine ⟨constant, revealed.later, ?_, ?_⟩
      · intro other present
        exact revealed.younger other (Store.get_of_get_eraseAll present)
      · intro samePeriod
        -- A second reveal of the same validator would need an older prevote.
        have different : (msg.denom, msg.validator) ≠ (vote.denom, vote.voter) := by
          intro sameKey
          rw [sameKey] at found
          exact revealed.not_inRevealPeriod positive found samePeriod inPeriod
        have lookup := Store.get_insert ctx.oracle.votes (msg.denom, msg.validator)
          (vote.denom, vote.voter) ⟨msg.price, msg.denom, msg.validator⟩
        rw [if_neg different, revealed.stored samePeriod] at lookup
        exact lookup
  | ended height _ oracleEq =>
      refine ⟨constant, by omega, ?_, ?_⟩
      · rw [oracleEq]
        exact revealed.younger
      · intro samePeriod
        rw [oracleEq]
        exact revealed.stored (earlier next.height (by omega) samePeriod)
  | periodEnded height last _ rewarded oracleEq =>
      refine ⟨constant, by omega, ?_, ?_⟩
      · intro prevote present
        exact revealed.younger prevote (prevote_stored_before rewarded oracleEq present)
      · intro samePeriod
        rw [revealed.votePeriod_eq] at last
        have grows := nextPeriod_of_lastBlock positive last
        have before := earlier next.height (by omega) samePeriod
        rw [← height] at grows
        omega

/-- One vote per period: once a validator's vote on a denomination is stored,
it stays in the store unchanged for the rest of the vote period, and no other
vote of the validator on the denomination succeeds in that period, whatever
happens in between. -/
theorem one_vote_per_period {revealing revealed ctx : Context L} {msg : MsgPriceVote}
    {result : Result} {later : List (Action L)}
    (positive : 0 < revealing.oracle.params.votePeriod)
    (accepted : handleMsgPriceVote revealing msg = .ok (result, revealed))
    (reached : Reaches step revealed later ctx)
    (samePeriod : (ctx.height : ℤ) / revealing.oracle.params.votePeriod =
      (revealing.height : ℤ) / revealing.oracle.params.votePeriod) :
    ctx.oracle.votes[(msg.denom, msg.validator)]? =
        some ⟨msg.price, msg.denom, msg.validator⟩ ∧
      ∀ other : MsgPriceVote, other.denom = msg.denom → other.validator = msg.validator →
        ∀ done, handleMsgPriceVote ctx other ≠ .ok done := by
  rcases handleMsgPriceVote_eq_ok accepted with ⟨prevote, found, -, -, -, revealedEq⟩
  have initially : Revealed ⟨msg.price, msg.denom, msg.validator⟩ revealing.height
      revealing.oracle.params.votePeriod revealed := by
    subst revealedEq
    refine ⟨rfl, le_rfl, ?_, ?_⟩
    · intro other present
      have keyed := revealing.oracle.prevotes_keyed _ _ found
      have lookup := Store.get_eraseAll revealing.oracle.prevotes
        [(prevote.denom, prevote.voter)] (msg.denom, msg.validator)
      rw [if_pos (by simp [keyed])] at lookup
      exact absurd (lookup.symm.trans present) (by simp)
    · intro _
      have lookup := Store.get_insert revealing.oracle.votes (msg.denom, msg.validator)
        (msg.denom, msg.validator) ⟨msg.price, msg.denom, msg.validator⟩
      rw [if_pos rfl] at lookup
      exact lookup
  have holds := reached.invariant _ (fun _ _ _ held taken => step_revealed positive held taken)
    initially
  refine ⟨holds.stored samePeriod, ?_⟩
  rintro other sameDenom sameValidator ⟨otherResult, after⟩ handled
  rcases handleMsgPriceVote_eq_ok handled with ⟨second, secondFound, -, inPeriod, -⟩
  rw [sameDenom, sameValidator] at secondFound
  exact holds.not_inRevealPeriod positive secondFound samePeriod inPeriod

/-- Periods have two blocks. -/
def twoBlockStart : Context Book :=
  { sampleStart with oracle := OracleStore.initGenesis { defaultParams with votePeriod := 2 } }

/-- The prevote of the first period, and the blocks up to the second one. -/
def revealActions : List (Action Book) :=
  [.pricePrevote samplePrevote, .endBlock MapOrder.sorted, .endBlock MapOrder.sorted]

/-- What follows the vote: a new prevote, the same vote again and the next block. -/
def repeatActions : List (Action Book) :=
  [.pricePrevote samplePrevote, .priceVote sampleVote, .endBlock MapOrder.sorted]

/-- The state in which the vote is sent, the one after it and the one at the end. -/
def repeatedVote : Option (Context Book × (Result × Context Book) × Context Book) := do
  let revealing ← perform step twoBlockStart revealActions
  let revealed ← (handleMsgPriceVote revealing sampleVote).toOption
  let ctx ← perform step revealed.2 repeatActions
  pure (revealing, revealed, ctx)

theorem repeatedVote_periods :
    repeatedVote.map (fun states =>
      (states.1.oracle.params.votePeriod, states.1.height, states.2.2.height)) =
        some (2, 2, 3) := by
  decide +kernel

theorem one_vote_per_period_sample :
    ∃ (revealing revealed ctx : Context Book) (result : Result),
      handleMsgPriceVote revealing sampleVote = .ok (result, revealed) ∧
        Reaches step revealed repeatActions ctx ∧
        ctx.oracle.votes[(microSDRDenom, (List.replicate 20 1 : Address))]? =
          some ⟨Dec.one, microSDRDenom, List.replicate 20 1⟩ ∧
        ∀ done, handleMsgPriceVote ctx sampleVote ≠ .ok done := by
  rcases Option.map_eq_some_iff.mp repeatedVote_periods with
    ⟨⟨_, _, _⟩, evaluated, periods⟩
  simp only [Prod.mk.injEq] at periods
  rcases periods with ⟨votePeriod, revealHeight, laterHeight⟩
  simp only [repeatedVote, Option.bind_eq_bind, Option.bind_eq_some_iff, Option.pure_def,
    Option.some.injEq, Prod.mk.injEq] at evaluated
  rcases evaluated with ⟨revealing, -, done, accepted, ctx, performed, rfl, rfl, rfl⟩
  rcases done with ⟨result, revealed⟩
  have handled : handleMsgPriceVote revealing sampleVote = .ok (result, revealed) := by
    cases outcome : handleMsgPriceVote revealing sampleVote with
    | error failure =>
        rw [outcome] at accepted
        cases accepted
    | ok done =>
        rw [outcome] at accepted
        exact congrArg Except.ok (Option.some.inj accepted)
  have reached := reaches_of_perform performed
  rcases one_vote_per_period (by rw [votePeriod]; decide) handled reached
      (by rw [votePeriod, revealHeight, laterHeight]; decide) with ⟨stored, alone⟩
  exact ⟨revealing, revealed, ctx, result, handled, reached, stored, alone sampleVote rfl rfl⟩

end TerraCore.Oracle
