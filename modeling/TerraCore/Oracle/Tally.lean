import TerraCore.Genesis
import TerraCore.Oracle.Rewards

/-!
# Tallying the ballots of a vote period

The loop over the ballots changes nothing but prices and claims. Each ballot
writes the price of its own denomination, and claims are only ever added up, so
the result does not depend on the order in which the ballots are visited.
-/

namespace TerraCore.Oracle

variable {L : Type} [Sdk L]

/-- The ballot reaches the vote threshold. -/
def Passes (ctx : Context L) (ballot : PriceBallot) : Prop :=
  BallotIsPassing ctx.staking.bondedTokens ctx.oracle.params.voteThreshold
    (power ctx.staking ballot)

instance (ctx : Context L) (ballot : PriceBallot) : Decidable (Passes ctx ballot) :=
  inferInstanceAs (Decidable (BallotIsPassing _ _ _))

/-- The claims that a ballot adds. -/
def ballotClaims (ctx : Context L) (entry : Denom × PriceBallot) : List (Claim ℕ) :=
  if Passes ctx entry.2 then
    (sortBallot L (sortBallot L entry.2)).filterMap
      (winningClaim ctx.staking (weightedMedian ctx.staking L entry.2)
        (rewardSpread ctx.oracle.params))
  else []

/-- The prices after a ballot. -/
def ballotPrice (ctx : Context L) (prices : Store Denom Dec) (entry : Denom × PriceBallot) :
    Store Denom Dec :=
  if Passes ctx entry.2 then
    prices.insert entry.1 (weightedMedian ctx.staking L entry.2)
  else prices

theorem tallyBallot_snd (tags : Tags) (ctx : Context L) (entry : Denom × PriceBallot) :
    (tallyBallot (tags, ctx) entry).2 =
      { ctx with oracle :=
        { ctx.oracle with
          prices := ballotPrice ctx ctx.oracle.prices entry
          claims := addClaims ctx.oracle.claims (ballotClaims ctx entry) } } := by
  have sameMedian : weightedMedian ctx.staking L (sortBallot L entry.2) =
      weightedMedian ctx.staking L entry.2 :=
    weightedMedian_perm ctx.staking L (sortBallot_perm L entry.2)
  unfold tallyBallot ballotPrice ballotClaims
  simp only
  split
  · next passes =>
      have passed : Passes ctx entry.2 := passes
      rw [if_pos passed, if_pos passed]
      simp only [tally, sameMedian]
      rfl
  · next fails =>
      have failed : ¬Passes ctx entry.2 := fails
      rw [if_neg failed, if_neg failed]
      rfl

/-- The loop over the ballots, as two independent loops over prices and claims. -/
theorem foldl_tallyBallot_snd (ctx : Context L) (entries : List (Denom × PriceBallot))
    (tags : Tags) (prices : Store Denom Dec) (claims : Store Address ℕ) :
    (entries.foldl tallyBallot
        (tags, { ctx with oracle := { ctx.oracle with prices, claims } })).2 =
      { ctx with oracle :=
        { ctx.oracle with
          prices := entries.foldl (ballotPrice ctx) prices
          claims := addClaims claims (entries.flatMap (ballotClaims ctx)) } } := by
  induction entries generalizing tags prices claims with
  | nil => rfl
  | cons entry entries ih =>
      have step := tallyBallot_snd tags
        { ctx with oracle := { ctx.oracle with prices, claims } } entry
      rw [List.foldl_cons, ← Prod.mk.eta (p := tallyBallot _ entry), step]
      refine (ih _ _ _).trans ?_
      unfold addClaims
      rw [List.flatMap_cons, List.map_append, Store.accumulateAll_append]
      rfl

theorem get_foldl_ballotPrice (ctx : Context L) {entries : List (Denom × PriceBallot)}
    (distinct : (entries.map Prod.fst).Nodup) (prices : Store Denom Dec) (denom : Denom) :
    (∀ ballot, (denom, ballot) ∈ entries →
        (entries.foldl (ballotPrice ctx) prices)[denom]? =
          if Passes ctx ballot then some (weightedMedian ctx.staking L ballot)
          else prices[denom]?) ∧
      (denom ∉ entries.map Prod.fst →
        (entries.foldl (ballotPrice ctx) prices)[denom]? = prices[denom]?) := by
  induction entries generalizing prices with
  | nil => simp
  | cons entry entries ih =>
      have distinctRest := List.nodup_cons.mp distinct
      have rest := ih distinctRest.2 (ballotPrice ctx prices entry)
      have elsewhere : ∀ other, entry.1 ≠ other →
          (ballotPrice ctx prices entry)[other]? = prices[other]? := by
        intro other different
        unfold ballotPrice
        split
        · rw [Store.get_insert, if_neg different]
        · rfl
      rw [List.foldl_cons]
      constructor
      · intro ballot ballotMem
        rcases List.mem_cons.mp ballotMem with rfl | later
        · rw [rest.2 distinctRest.1]
          unfold ballotPrice
          split
          · rw [Store.get_insert, if_pos rfl]
          · rfl
        · have different : entry.1 ≠ denom := by
            intro same
            exact distinctRest.1 (same ▸ List.mem_map_of_mem later)
          rw [rest.1 ballot later, elsewhere denom different]
      · intro notListed
        rw [List.map_cons, List.mem_cons, not_or] at notListed
        rw [rest.2 notListed.2, elsewhere denom (Ne.symm notListed.1)]

/-- The entries of the map of ballots, in the order in which they are visited. -/
def entries (order : MapOrder) (store : OracleStore) : List (Denom × PriceBallot) :=
  order.visit store.collectVotes.toList

theorem entries_nodup (order : MapOrder) (store : OracleStore) :
    ((entries order store).map Prod.fst).Nodup := by
  have distinct := Store.nodup_keys store.collectVotes
  rw [← Std.ExtTreeMap.map_fst_toList_eq_keys] at distinct
  exact ((order.perm _).map Prod.fst).nodup_iff.mpr distinct

theorem mem_entries_iff (order : MapOrder) (store : OracleStore) (denom : Denom)
    (ballot : PriceBallot) :
    (denom, ballot) ∈ entries order store ↔ ballot = store.ballot denom ∧ ballot ≠ [] := by
  unfold entries
  rw [(order.perm _).mem_iff, Store.mem_toList_iff, OracleStore.get_collectVotes]
  by_cases noVotes : store.ballot denom = []
  · simp only [noVotes, if_true, reduceCtorEq, false_iff, not_and, not_not]
    exact fun same => same
  · simp only [noVotes, if_false, Option.some.injEq]
    constructor
    · rintro rfl
      exact ⟨rfl, noVotes⟩
    · rintro ⟨rfl, -⟩
      rfl

/-- The oracle store after the ballots were tallied. -/
def tallied (order : MapOrder) (ctx : Context L) : OracleStore :=
  let store := expirePrevotes ctx.height
    { ctx.oracle with
      prices := (entries order ctx.oracle).foldl (ballotPrice ctx) ∅
      claims := addClaims ctx.oracle.claims ((entries order ctx.oracle).flatMap (ballotClaims ctx)) }
  store.deleteVotes store.voteList

theorem tallyPeriod_snd (order : MapOrder) (ctx : Context L) :
    (tallyPeriod order ctx).2 = { ctx with oracle := tallied order ctx } := by
  have cleared : ctx.oracle.deletePrices ctx.oracle.getActiveDenoms =
      { ctx.oracle with prices := ∅, claims := ctx.oracle.claims } := by
    unfold OracleStore.deletePrices
    rw [show Store.eraseAll ctx.oracle.prices ctx.oracle.getActiveDenoms = ∅ from
      ctx.oracle.deletePrices_active]
  unfold tallyPeriod
  simp only [cleared]
  have loop := foldl_tallyBallot_snd ctx (entries order ctx.oracle) [] ∅ ctx.oracle.claims
  unfold entries at loop
  simp only [loop]
  rfl

theorem get_tallied_prices (order : MapOrder) (ctx : Context L) (denom : Denom) :
    (tallied order ctx).prices[denom]? =
      if ctx.oracle.ballot denom ≠ [] ∧ Passes ctx (ctx.oracle.ballot denom) then
        some (weightedMedian ctx.staking L (ctx.oracle.ballot denom))
      else none := by
  have lookup := get_foldl_ballotPrice ctx (entries_nodup order ctx.oracle) ∅ denom
  change ((entries order ctx.oracle).foldl (ballotPrice ctx) ∅)[denom]? = _
  by_cases noVotes : ctx.oracle.ballot denom = []
  · rw [lookup.2]
    · simp [noVotes]
    · intro listed
      rcases List.mem_map.mp listed with ⟨⟨listedDenom, ballot⟩, entryMem, rfl⟩
      have found := (mem_entries_iff order ctx.oracle _ _).mp entryMem
      exact found.2 (found.1.trans noVotes)
  · rw [lookup.1 _ ((mem_entries_iff order ctx.oracle denom _).mpr ⟨rfl, noVotes⟩)]
    simp [noVotes]

theorem tallied_votes (order : MapOrder) (ctx : Context L) : (tallied order ctx).votes = ∅ :=
  OracleStore.deleteVotes_voteList _

/-- The tallied store does not depend on the order of the ballots. -/
theorem tallied_order (first second : MapOrder) (ctx : Context L) :
    tallied first ctx = tallied second ctx := by
  have samePrices : (entries first ctx.oracle).foldl (ballotPrice ctx) ∅ =
      (entries second ctx.oracle).foldl (ballotPrice ctx) ∅ := by
    apply Store.ext_get
    intro denom
    exact (get_tallied_prices first ctx denom).trans (get_tallied_prices second ctx denom).symm
  have perm : (entries first ctx.oracle).Perm (entries second ctx.oracle) :=
    (first.perm _).trans (second.perm _).symm
  have sameClaims :
      addClaims ctx.oracle.claims ((entries first ctx.oracle).flatMap (ballotClaims ctx)) =
        addClaims ctx.oracle.claims ((entries second ctx.oracle).flatMap (ballotClaims ctx)) :=
    Store.accumulateAll_perm _ ((perm.flatMap_right _).map _)
  unfold tallied
  rw [samePrices, sameClaims]

theorem settled_frame (store : OracleStore) :
    (settled store).votes = store.votes ∧ (settled store).params = store.params ∧
      (settled store).prevotes = store.prevotes ∧
      (settled store).feederDelegations = store.feederDelegations := by
  unfold settled
  split
  · exact ⟨rfl, rfl, rfl, rfl⟩
  · split <;> exact ⟨rfl, rfl, rfl, rfl⟩

theorem endBlocker_of_not_lastBlock (order : MapOrder) {ctx : Context L}
    (nonzero : ctx.oracle.params.votePeriod ≠ 0)
    (notLast : ¬ctx.LastBlock ctx.oracle.params.votePeriod) :
    endBlocker order ctx = .ok ([], ctx) := by
  unfold endBlocker
  rw [Context.isPeriodLastBlock_eq ctx nonzero]
  simp [notLast, bind, Except.bind, pure, Except.pure]

/-- At the last block of a period the end blocker pays the winners of the
previous period and then tallies the votes of this one. -/
theorem endBlocker_of_lastBlock (order : MapOrder) {ctx : Context L}
    (last : ctx.LastBlock ctx.oracle.params.votePeriod) :
    ∃ (tags : Tags) (paid : Context L),
      endBlocker order ctx = .ok (tags, { paid with oracle := tallied order paid }) ∧
        paid.oracle = settled ctx.oracle ∧ paid.staking = ctx.staking ∧
        paid.treasury = ctx.treasury ∧
        Mint.Changes (payout ctx.oracle) (payout ctx.oracle) 0 ctx paid := by
  rcases rewardPrevBallotWinners_spec ctx with
    ⟨paid, rewarded, oracleEq, stakingEq, treasuryEq, changes⟩
  refine ⟨(tallyPeriod order paid).1, paid, ?_, oracleEq, stakingEq, treasuryEq, changes⟩
  unfold endBlocker
  rw [Context.isPeriodLastBlock_eq ctx last.ne_zero, rewarded, ← tallyPeriod_snd]
  simp [last, bind, Except.bind, pure, Except.pure]

/-- The end blocker does nothing, or pays and tallies at the last block of a period. -/
theorem endBlocker_eq_ok {order : MapOrder} {ctx after : Context L} {tags : Tags}
    (done : endBlocker order ctx = .ok (tags, after)) :
    (¬ctx.LastBlock ctx.oracle.params.votePeriod ∧ after = ctx) ∨
      (ctx.LastBlock ctx.oracle.params.votePeriod ∧
        ∃ paid : Context L, after = { paid with oracle := tallied order paid } ∧
          paid.treasury = ctx.treasury ∧
          Mint.Changes (payout ctx.oracle) (payout ctx.oracle) 0 ctx paid) := by
  by_cases last : ctx.LastBlock ctx.oracle.params.votePeriod
  · rcases endBlocker_of_lastBlock order last with
      ⟨_, paid, finished, -, -, treasuryEq, changes⟩
    rw [finished] at done
    cases done
    exact Or.inr ⟨last, paid, rfl, treasuryEq, changes⟩
  · have nonzero : ctx.oracle.params.votePeriod ≠ 0 := by
      intro isZero
      simp only [endBlocker, Context.isPeriodLastBlock] at done
      rw [if_pos isZero] at done
      cases done
    rw [endBlocker_of_not_lastBlock order nonzero last] at done
    cases done
    exact Or.inl ⟨last, rfl⟩

/-- `EndBlocker` always finishes. At the last block of a period the prices are
exactly the weighted medians of the ballots that reached the threshold, and all
votes are gone; at every other height the store stays as it is. -/
theorem endBlocker_replaces_prices (order : MapOrder) (ctx : Context L)
    (positive : 0 < ctx.oracle.params.votePeriod) :
    ∃ (tags : Tags) (after : Context L),
      endBlocker order ctx = .ok (tags, after) ∧
        (ctx.LastBlock ctx.oracle.params.votePeriod →
          (∀ denom, (∃ price, after.oracle.prices[denom]? = some price) ↔
            (∃ (voter : Address) (vote : PriceVote),
                ctx.oracle.votes[(denom, voter)]? = some vote) ∧
              (ctx.oracle.params.voteThreshold.mulInt ctx.staking.bondedTokens).roundInt ≤
                power ctx.staking (ctx.oracle.ballot denom)) ∧
          (∀ denom price, after.oracle.prices[denom]? = some price →
            price = weightedMedian ctx.staking L (ctx.oracle.ballot denom)) ∧
          after.oracle.votes = ∅) ∧
        (¬ctx.LastBlock ctx.oracle.params.votePeriod → after.oracle = ctx.oracle) := by
  by_cases last : ctx.LastBlock ctx.oracle.params.votePeriod
  · rcases endBlocker_of_lastBlock order last with ⟨tags, paid, finished, oracleEq, stakingEq, -⟩
    rcases settled_frame ctx.oracle with ⟨votesEq, paramsEq, -⟩
    have ballotEq : paid.oracle.ballot = ctx.oracle.ballot := by
      funext denom
      unfold OracleStore.ballot OracleStore.voteList
      rw [oracleEq, votesEq]
    refine ⟨tags, _, finished, fun _ => ⟨?_, ?_, tallied_votes order paid⟩,
      fun notLast => absurd last notLast⟩
    · intro denom
      have passesIff : Passes paid (ctx.oracle.ballot denom) ↔
          (ctx.oracle.params.voteThreshold.mulInt ctx.staking.bondedTokens).roundInt ≤
            power ctx.staking (ctx.oracle.ballot denom) := by
        unfold Passes BallotIsPassing
        rw [stakingEq, oracleEq, paramsEq]
      rw [get_tallied_prices, ballotEq, ← ctx.oracle.ballot_ne_nil_iff denom, ← passesIff]
      split
      · next passes => simpa using passes
      · next fails => simpa using fails
    · intro denom price present
      rw [get_tallied_prices, ballotEq, stakingEq] at present
      split at present
      · exact (Option.some.inj present).symm
      · cases present
  · exact ⟨[], ctx, endBlocker_of_not_lastBlock order positive.ne' last,
      fun isLast => absurd isLast last, fun _ => rfl⟩

/-- One validator votes on the price of `usdr` in the last block of a period. -/
def oneVote : Context Book :=
  { Context.genesis Book.empty (Staking.single (List.replicate 20 1) 10 single_length) with
    height := 9
    oracle := (OracleStore.initGenesis defaultParams).addVote
      ⟨Dec.one, microSDRDenom, List.replicate 20 1⟩ }

theorem endBlocker_replaces_prices_oneVote :
    ∃ (tags : Tags) (after : Context Book),
      endBlocker MapOrder.sorted oneVote = .ok (tags, after) ∧
        after.oracle.prices[microSDRDenom]? = some Dec.one ∧ after.oracle.votes = ∅ := by
  rcases endBlocker_replaces_prices MapOrder.sorted oneVote (by decide) with
    ⟨tags, after, finished, atLast, -⟩
  rcases atLast (by decide) with ⟨stored, value, noVotes⟩
  rcases (stored microSDRDenom).mpr ⟨⟨List.replicate 20 1,
      ⟨Dec.one, microSDRDenom, List.replicate 20 1⟩, by decide +kernel⟩, by decide +kernel⟩ with
    ⟨price, present⟩
  have priceEq := value microSDRDenom price present
  have medianEq : weightedMedian oneVote.staking Book (oneVote.oracle.ballot microSDRDenom) =
      Dec.one := by
    decide +kernel
  exact ⟨tags, after, finished, by rw [present, priceEq, medianEq], noVotes⟩

/-- The state after `EndBlocker` does not depend on the order in which the map
of ballots is visited. -/
theorem endBlocker_order_irrelevant (first second : MapOrder) (ctx : Context L) :
    (endBlocker first ctx).map Prod.snd = (endBlocker second ctx).map Prod.snd := by
  by_cases isZero : ctx.oracle.params.votePeriod = 0
  · -- The remainder by zero panics before anything depends on the order.
    unfold endBlocker Context.isPeriodLastBlock
    rw [if_pos isZero]
    rfl
  · unfold endBlocker
    rw [Context.isPeriodLastBlock_eq ctx isZero]
    by_cases last : ctx.LastBlock ctx.oracle.params.votePeriod
    · rcases rewardPrevBallotWinners_spec ctx with ⟨paid, rewarded, -⟩
      have sameState : (tallyPeriod first paid).2 = (tallyPeriod second paid).2 := by
        rw [tallyPeriod_snd, tallyPeriod_snd, tallied_order first second]
      simpa [last, rewarded, bind, Except.bind, pure, Except.pure, Except.map] using sameState
    · simp [last, bind, Except.bind, pure, Except.pure]

end TerraCore.Oracle
