import TerraCore.Oracle.Tally

/-!
# Events of a tally

The end blocker reports each ballot as it visits it, but every report takes the
place of the one before. What is left is the report of the ballot that was
visited last, so with votes on two denominations the events depend on the order
of a map and leave one of them out.
-/

namespace TerraCore.Oracle

variable {L : Type} [Sdk L]

/-- The report on one ballot: its price, or that the ballot was dropped. -/
def ballotTags (ctx : Context L) (entry : Denom × PriceBallot) : Tags :=
  if Passes ctx entry.2 then
    [.action .priceUpdate, .denom entry.1, .price (weightedMedian ctx.staking L entry.2)]
  else [.action .tallyDropped, .denom entry.1]

/-- The report names one denomination, once. -/
theorem count_ballotTags (ctx : Context L) (entry : Denom × PriceBallot) (denom : Denom) :
    (ballotTags ctx entry).count (.denom denom) = if entry.1 = denom then 1 else 0 := by
  unfold ballotTags
  split
  · by_cases here : entry.1 = denom <;> simp [here]
  · by_cases here : entry.1 = denom <;> simp [here]

theorem tallyBallot_fst (tags : Tags) (ctx : Context L) (entry : Denom × PriceBallot) :
    (tallyBallot (tags, ctx) entry).1 = ballotTags ctx entry := by
  have sameMedian : weightedMedian ctx.staking L (sortBallot L entry.2) =
      weightedMedian ctx.staking L entry.2 :=
    weightedMedian_perm ctx.staking L (sortBallot_perm L entry.2)
  unfold tallyBallot ballotTags
  simp only
  split
  · next passes =>
      have passed : Passes ctx entry.2 := passes
      rw [if_pos passed]
      simp only [tally, sameMedian]
  · next fails =>
      have failed : ¬Passes ctx entry.2 := fails
      rw [if_neg failed]

/-- The loop over the ballots leaves the report of the last one. -/
theorem foldl_tallyBallot_fst (ctx : Context L) (entries : List (Denom × PriceBallot))
    (tags : Tags) (prices : Store Denom Dec) (claims : Store Address ℕ) :
    (entries.foldl tallyBallot
        (tags, { ctx with oracle := { ctx.oracle with prices, claims } })).1 =
      (entries.getLast?.map (ballotTags ctx)).getD tags := by
  induction entries generalizing tags prices claims with
  | nil => rfl
  | cons entry entries ih =>
      have reported := tallyBallot_fst tags
        { ctx with oracle := { ctx.oracle with prices, claims } } entry
      have written := tallyBallot_snd tags
        { ctx with oracle := { ctx.oracle with prices, claims } } entry
      rw [List.foldl_cons, ← Prod.mk.eta (p := tallyBallot _ entry), reported, written]
      refine (ih _ _ _).trans ?_
      rw [List.getLast?_cons]
      cases entries.getLast? with
      | none => rfl
      | some last => rfl

theorem tallyPeriod_fst (order : MapOrder) (ctx : Context L) :
    (tallyPeriod order ctx).1 =
      ((entries order ctx.oracle).getLast?.map (ballotTags ctx)).getD [] :=
  foldl_tallyBallot_fst ctx (entries order ctx.oracle) []
    (ctx.oracle.deletePrices ctx.oracle.getActiveDenoms).prices ctx.oracle.claims

/-- The events at the end of a period. -/
theorem endBlocker_tags (order : MapOrder) {ctx : Context L}
    (last : ctx.LastBlock ctx.oracle.params.votePeriod) :
    (endBlocker order ctx).map Prod.fst =
      .ok (((entries order ctx.oracle).getLast?.map (ballotTags ctx)).getD []) := by
  rcases rewardPrevBallotWinners_spec ctx with ⟨paid, rewarded, oracleEq, stakingEq, -⟩
  rcases settled_frame ctx.oracle with ⟨votesEq, paramsEq, -⟩
  have sameEntries : entries order paid.oracle = entries order ctx.oracle := by
    simp only [entries, OracleStore.collectVotes, OracleStore.voteList, oracleEq, votesEq]
  have sameTags : ballotTags paid = ballotTags ctx := by
    funext entry
    have samePasses : Passes paid entry.2 ↔ Passes ctx entry.2 := by
      simp only [Passes, stakingEq, oracleEq, paramsEq]
    simp only [ballotTags, samePasses, stakingEq]
  have tags := tallyPeriod_fst order paid
  rw [sameEntries, sameTags] at tags
  unfold endBlocker
  rw [Context.isPeriodLastBlock_eq ctx last.ne_zero, rewarded]
  simp [last, bind, Except.bind, pure, Except.pure, Except.map, tags]

/-- Some vote on the denomination is stored. -/
def HasVotes (ctx : Context L) (denom : Denom) : Prop :=
  ∃ (voter : Address) (vote : PriceVote), ctx.oracle.votes[(denom, voter)]? = some vote

/-- The events contain the report on the denomination, and no other one. -/
def Reported (ctx : Context L) (tags : Tags) (denom : Denom) : Prop :=
  ballotTags ctx (denom, ctx.oracle.ballot denom) <:+: tags ∧ tags.count (.denom denom) = 1

omit [Sdk L] in
/-- The denominations with votes are those that are visited. -/
theorem hasVotes_iff (order : MapOrder) (ctx : Context L) (denom : Denom) :
    HasVotes ctx denom ↔ (denom, ctx.oracle.ballot denom) ∈ entries order ctx.oracle := by
  rw [mem_entries_iff, HasVotes, ← ctx.oracle.ballot_ne_nil_iff denom]
  simp

omit [Sdk L] in
/-- With votes on one denomination at most, every order visits the same ballots. -/
theorem entries_of_single {ctx : Context L}
    (single : ∀ first second, HasVotes ctx first → HasVotes ctx second → first = second)
    (first second : MapOrder) : entries first ctx.oracle = entries second ctx.oracle := by
  have perm : (entries first ctx.oracle).Perm (entries second ctx.oracle) :=
    (first.perm _).trans (second.perm _).symm
  have distinct := entries_nodup second ctx.oracle
  have same : ∀ entry ∈ entries second ctx.oracle, ∀ other ∈ entries second ctx.oracle,
      entry.1 = other.1 := by
    intro entry entryMem other otherMem
    have entryVotes := (mem_entries_iff second ctx.oracle entry.1 entry.2).mp entryMem
    have otherVotes := (mem_entries_iff second ctx.oracle other.1 other.2).mp otherMem
    apply single
    · rw [hasVotes_iff second, ← entryVotes.1]
      exact entryMem
    · rw [hasVotes_iff second, ← otherVotes.1]
      exact otherMem
  cases visited : entries second ctx.oracle with
  | nil =>
      rw [visited] at perm
      exact perm.eq_nil
  | cons entry rest =>
      rw [visited] at distinct same perm
      have noMore : rest = [] := by
        rw [List.eq_nil_iff_forall_not_mem]
        intro other otherMem
        have notListed := (List.nodup_cons.mp distinct).1
        apply notListed
        rw [same entry List.mem_cons_self other (List.mem_cons_of_mem _ otherMem)]
        exact List.mem_map_of_mem otherMem
      rw [noMore] at perm ⊢
      exact List.perm_singleton.mp perm

/-- The events are complete and the same for every order of the map exactly when
at most one denomination has votes. -/
theorem events_complete_iff {ctx : Context L}
    (last : ctx.LastBlock ctx.oracle.params.votePeriod) :
    (∃ tags, (∀ order, (endBlocker order ctx).map Prod.fst = .ok tags) ∧
        ∀ denom, HasVotes ctx denom → Reported ctx tags denom) ↔
      ∀ first second, HasVotes ctx first → HasVotes ctx second → first = second := by
  constructor
  · rintro ⟨tags, events, complete⟩ first second firstVotes secondVotes
    have event := events MapOrder.sorted
    rw [endBlocker_tags MapOrder.sorted last, Except.ok.injEq] at event
    have firstCount := (complete first firstVotes).2
    have secondCount := (complete second secondVotes).2
    rw [← event] at firstCount secondCount
    cases final : (entries MapOrder.sorted ctx.oracle).getLast? with
    | none => simp [final] at firstCount
    | some entry =>
        rw [final, Option.map_some, Option.getD_some, count_ballotTags] at firstCount secondCount
        have isFirst : entry.1 = first := by simpa using firstCount
        have isSecond : entry.1 = second := by simpa using secondCount
        exact isFirst.symm.trans isSecond
  · intro single
    refine ⟨((entries MapOrder.sorted ctx.oracle).getLast?.map (ballotTags ctx)).getD [], ?_, ?_⟩
    · intro order
      rw [endBlocker_tags order last, entries_of_single single order MapOrder.sorted]
    · intro denom votes
      have visited := (hasVotes_iff MapOrder.sorted ctx denom).mp votes
      cases final : (entries MapOrder.sorted ctx.oracle).getLast? with
      | none =>
          rw [List.getLast?_eq_none_iff] at final
          rw [final] at visited
          cases visited
      | some entry =>
          have entryMem := List.mem_of_getLast? final
          have entryBallot := (mem_entries_iff MapOrder.sorted ctx.oracle entry.1 entry.2).mp entryMem
          have sameDenom : entry.1 = denom := by
            apply single _ _ _ votes
            rw [hasVotes_iff MapOrder.sorted, ← entryBallot.1]
            exact entryMem
          have entryEq : entry = (denom, ctx.oracle.ballot denom) := by
            rw [← sameDenom, ← entryBallot.1]
          rw [Option.map_some, Option.getD_some, entryEq]
          exact ⟨List.infix_rfl, by rw [count_ballotTags, if_pos rfl]⟩

theorem oneVote_key {denom : Denom} {voter : Address} {vote : PriceVote}
    (stored : oneVote.oracle.votes[(denom, voter)]? = some vote) : denom = microSDRDenom := by
  have votes : oneVote.oracle.votes = (∅ : Store (Denom × Address) PriceVote).insert
      (microSDRDenom, List.replicate 20 1) ⟨Dec.one, microSDRDenom, List.replicate 20 1⟩ := rfl
  rw [votes] at stored
  rcases Store.cases_get_insert stored with ⟨here, -⟩ | ⟨-, earlier⟩
  · exact congrArg Prod.fst here.symm
  · simp at earlier

theorem events_complete_iff_oneVote :
    ∃ tags, (∀ order, (endBlocker order oneVote).map Prod.fst = .ok tags) ∧
      ∀ denom, HasVotes oneVote denom → Reported oneVote tags denom := by
  refine (events_complete_iff (by decide)).mpr ?_
  rintro first second ⟨voter, vote, stored⟩ ⟨other, twin, twinStored⟩
  have firstEq := oneVote_key stored
  have secondEq := oneVote_key twinStored
  exact firstEq.trans secondEq.symm

/-- The context of `oneVote` with a vote of the same validator on a second
denomination. -/
def twoVotes : Context Book :=
  { oneVote with
    oracle := oneVote.oracle.addVote ⟨Dec.one, microKRWDenom, List.replicate 20 1⟩ }

/-- Both ballots pass and both prices are stored, but either order of the map
reports a different one of them and is silent about the other. -/
theorem events_drop_ballot :
    HasVotes twoVotes microSDRDenom ∧ HasVotes twoVotes microKRWDenom ∧
      (endBlocker MapOrder.sorted twoVotes).map Prod.fst =
        .ok [.action .priceUpdate, .denom microSDRDenom, .price Dec.one] ∧
      (endBlocker MapOrder.reversed twoVotes).map Prod.fst =
        .ok [.action .priceUpdate, .denom microKRWDenom, .price Dec.one] ∧
      ¬∃ tags, (∀ order, (endBlocker order twoVotes).map Prod.fst = .ok tags) ∧
        ∀ denom, HasVotes twoVotes denom → Reported twoVotes tags denom := by
  have sorted : (endBlocker MapOrder.sorted twoVotes).map Prod.fst =
      .ok [.action .priceUpdate, .denom microSDRDenom, .price Dec.one] := by decide +kernel
  have reversed : (endBlocker MapOrder.reversed twoVotes).map Prod.fst =
      .ok [.action .priceUpdate, .denom microKRWDenom, .price Dec.one] := by decide +kernel
  refine ⟨⟨List.replicate 20 1, ⟨Dec.one, microSDRDenom, List.replicate 20 1⟩, by decide +kernel⟩,
    ⟨List.replicate 20 1, ⟨Dec.one, microKRWDenom, List.replicate 20 1⟩, by decide +kernel⟩,
    sorted, reversed, ?_⟩
  rintro ⟨tags, events, -⟩
  have first := (events MapOrder.sorted).symm.trans sorted
  have second := (events MapOrder.reversed).symm.trans reversed
  exact absurd (first.symm.trans second) (by decide)

end TerraCore.Oracle
