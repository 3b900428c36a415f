import TerraCore.Oracle.Run

/-!
# Reward claims

A tally stores one claim for each vote close enough to the median of a passing
ballot, weighted by the bonded tokens of the voter. The claims of the previous
period are paid and removed before, except when their weights are all zero, so
a validator's claim weighs its bonded tokens once for every ballot it won.

Claims are removed through the address that is parsed from their key. This
finds every claim because only validators earn claims, and their addresses
have the proper length.
-/

namespace TerraCore.Oracle

open Transition

variable {L : Type} [Sdk L]

/-- Every claim is stored under an address that can be parsed back. -/
def ClaimsAddressed (store : OracleStore) : Prop :=
  ∀ (recipient : Address) (weight : ℕ), store.claims[recipient]? = some weight →
    recipient.length = addrLen

theorem claimPool_eq {store : OracleStore} (addressed : ClaimsAddressed store) :
    store.claimPool = store.claims.toList := by
  have sameEntry : ∀ claim ∈ store.claims.toList,
      ((accAddressFromBech32 claim.1).getD [], claim.2) = claim := by
    intro claim claimMem
    have length := addressed claim.1 claim.2 ((Store.mem_toList_iff _ claim).mp claimMem)
    simp [length]
  unfold OracleStore.claimPool
  rw [List.map_congr_left sameEntry, List.map_id']

theorem clearClaimPool_claims {store : OracleStore} (addressed : ClaimsAddressed store) :
    store.clearClaimPool.claims = ∅ := by
  unfold OracleStore.clearClaimPool
  rw [claimPool_eq addressed, Std.ExtTreeMap.map_fst_toList_eq_keys]
  exact Store.eraseAll_keys store.claims

/-- After the payout no claim of an earlier period weighs anything. -/
theorem settled_claims_weightless {store : OracleStore} (addressed : ClaimsAddressed store)
    (recipient : Address) : ((settled store).claims[recipient]?).getD 0 = 0 := by
  unfold settled
  split
  · next noWeight =>
      rw [claimWeightSum_eq, claimPool_eq addressed] at noWeight
      cases present : store.claims[recipient]? with
      | none => rfl
      | some weight =>
          have listed := (Store.mem_toList_iff store.claims (recipient, weight)).mpr present
          exact List.sum_eq_zero_iff.mp noWeight weight (List.mem_map_of_mem listed)
  · have cleared := clearClaimPool_claims addressed
    split
    · rw [cleared, Store.get_empty]
      rfl
    · change ((store.clearClaimPool.claims)[recipient]?).getD 0 = 0
      rw [cleared, Store.get_empty]
      rfl

theorem settled_addressed {store : OracleStore} (addressed : ClaimsAddressed store) :
    ClaimsAddressed (settled store) := by
  unfold settled
  split
  · exact addressed
  · split <;>
      exact fun recipient weight present =>
        addressed recipient weight (Store.get_of_get_eraseAll present)

theorem winningClaim_recipient {staking : Staking} {median spread : Dec} {vote : PriceVote}
    {claim : Claim ℕ} (won : winningClaim staking median spread vote = some claim) :
    claim.recipient = vote.voter ∧ staking.validator vote.voter = some claim.weight := by
  unfold winningClaim at won
  split at won
  · rcases Option.map_eq_some_iff.mp won with ⟨bondSize, isValidator, rfl⟩
    exact ⟨rfl, isValidator⟩
  · cases won

theorem tallied_addressed (order : MapOrder) {ctx : Context L}
    (addressed : ClaimsAddressed ctx.oracle) : ClaimsAddressed (tallied order ctx) := by
  intro recipient weight present
  have stored : ∃ value, (addClaims ctx.oracle.claims
      ((entries order ctx.oracle).flatMap (ballotClaims ctx)))[recipient]? = some value :=
    ⟨weight, present⟩
  rcases (Store.mem_accumulateAll_iff _ _ _).mp stored with ⟨old, wasStored⟩ | ⟨entry, new, rfl⟩
  · exact addressed recipient old wasStored
  · rcases List.mem_map.mp new with ⟨claim, claimMem, rfl⟩
    rcases List.mem_flatMap.mp claimMem with ⟨ballot, -, fromBallot⟩
    unfold ballotClaims at fromBallot
    split at fromBallot
    · rcases List.mem_filterMap.mp fromBallot with ⟨vote, -, won⟩
      rcases winningClaim_recipient won with ⟨recipientEq, isValidator⟩
      simp only [recipientEq]
      exact ctx.staking.validator_length vote.voter _ isValidator
    · cases fromBallot

/-- The weight that a list of claims gives to one address. -/
def weightFor (claims : List (Claim ℕ)) (address : Address) : ℕ :=
  ((claims.filter fun claim => claim.recipient = address).map Claim.weight).sum

theorem weightFor_append (first second : List (Claim ℕ)) (address : Address) :
    weightFor (first ++ second) address = weightFor first address + weightFor second address := by
  simp [weightFor]

/-- The bonded tokens of an address, zero when it is not a validator. -/
def bonded (staking : Staking) (address : Address) : ℕ := (staking.validator address).getD 0

theorem weightFor_winners (staking : Staking) (median spread : Dec) (votes : PriceBallot)
    (address : Address) :
    weightFor (votes.filterMap (winningClaim staking median spread)) address =
      (votes.map fun vote =>
        if vote.voter = address ∧ InBand median spread vote.price then bonded staking address
        else 0).sum := by
  induction votes with
  | nil => rfl
  | cons vote votes ih =>
      rw [List.map_cons, List.sum_cons, ← ih]
      unfold winningClaim
      by_cases inBand : InBand median spread vote.price
      · cases isValidator : staking.validator vote.voter with
        | none =>
            simp only [List.filterMap_cons, inBand, if_true, isValidator, Option.map_none]
            by_cases here : vote.voter = address
            · subst here
              simp [bonded, isValidator]
            · simp [here]
        | some bondSize =>
            simp only [List.filterMap_cons, inBand, if_true, isValidator, Option.map_some]
            by_cases here : vote.voter = address
            · subst here
              simp [weightFor, bonded, isValidator]
            · simp [weightFor, here]
      · simp [inBand]

/-- In a list without repeated keys at most one element has a given key. -/
theorem sum_map_ite_eq_of_nodup {α κ : Type} [DecidableEq κ] (key : α → κ) (good : α → Prop)
    [DecidablePred good] (target : κ) (amount : ℕ) {items : List α}
    (distinct : (items.map key).Nodup) :
    (items.map fun item => if key item = target ∧ good item then amount else 0).sum =
      if ∃ item ∈ items, key item = target ∧ good item then amount else 0 := by
  induction items with
  | nil => simp
  | cons item items ih =>
      rw [List.map_cons, List.nodup_cons] at distinct
      rw [List.map_cons, List.sum_cons, ih distinct.2]
      by_cases here : key item = target ∧ good item
      · have notLater : ¬∃ other ∈ items, key other = target ∧ good other := by
          rintro ⟨other, otherMem, sameKey, -⟩
          exact distinct.1 (List.mem_map.mpr ⟨other, otherMem, sameKey.trans here.1.symm⟩)
        simp [here, notLater]
      · simp [here]

/-- The address won the ballot of a denomination: the ballot reached the
threshold and the price that the address voted for is close enough to the
weighted median. -/
def WonBallot (ctx : Context L) (address : Address) (denom : Denom) : Prop :=
  BallotIsPassing ctx.staking.bondedTokens ctx.oracle.params.voteThreshold
      (power ctx.staking (ctx.oracle.ballot denom)) ∧
    ∃ vote : PriceVote, ctx.oracle.votes[(denom, address)]? = some vote ∧
      InBand (weightedMedian ctx.staking L (ctx.oracle.ballot denom))
        (rewardSpread ctx.oracle.params) vote.price

theorem ballot_nodup_voters (store : OracleStore) (denom : Denom) :
    ((store.ballot denom).map PriceVote.voter).Nodup := by
  have distinct : ((store.ballot denom).map fun vote => (vote.denom, vote.voter)).Nodup :=
    store.voteList_nodup_keys.sublist (List.filter_sublist.map _)
  have paired : (store.ballot denom).map (fun vote => (vote.denom, vote.voter)) =
      ((store.ballot denom).map PriceVote.voter).map fun voter => (denom, voter) := by
    rw [List.map_map]
    apply List.map_congr_left
    intro vote voteMem
    have denomEq := (List.mem_filter.mp voteMem).2
    rw [decide_eq_true_eq] at denomEq
    simp [denomEq]
  rw [paired] at distinct
  exact distinct.of_map _

theorem mem_ballot_iff (store : OracleStore) (denom : Denom) (address : Address)
    (vote : PriceVote) :
    vote ∈ store.ballot denom ∧ vote.voter = address ↔
      store.votes[(denom, address)]? = some vote := by
  unfold OracleStore.ballot
  rw [List.mem_filter, store.mem_voteList_iff, decide_eq_true_eq]
  constructor
  · rintro ⟨⟨present, rfl⟩, rfl⟩
    exact present
  · intro present
    have keyed := store.votes_keyed _ _ present
    simp only [Prod.mk.injEq] at keyed
    rw [keyed.1, keyed.2]
    exact ⟨⟨present, rfl⟩, rfl⟩

open Classical in
/-- A ballot gives an address its bonded tokens, or nothing. -/
theorem weightFor_ballotClaims (ctx : Context L) (denom : Denom) (address : Address) :
    weightFor (ballotClaims ctx (denom, ctx.oracle.ballot denom)) address =
      if WonBallot ctx address denom then bonded ctx.staking address else 0 := by
  unfold ballotClaims
  by_cases passes : Passes ctx (ctx.oracle.ballot denom)
  · have sorted : (sortBallot L (sortBallot L (ctx.oracle.ballot denom))).Perm
        (ctx.oracle.ballot denom) :=
      (sortBallot_perm L _).trans (sortBallot_perm L _)
    rw [if_pos passes, weightFor_winners, (sorted.map _).sum_eq,
      sum_map_ite_eq_of_nodup PriceVote.voter
        (fun vote => InBand (weightedMedian ctx.staking L (ctx.oracle.ballot denom))
          (rewardSpread ctx.oracle.params) vote.price)
        address _ (ballot_nodup_voters ctx.oracle denom)]
    have sameCondition : (∃ vote ∈ ctx.oracle.ballot denom, vote.voter = address ∧
        InBand (weightedMedian ctx.staking L (ctx.oracle.ballot denom))
          (rewardSpread ctx.oracle.params) vote.price) ↔ WonBallot ctx address denom := by
      constructor
      · rintro ⟨vote, voteMem, voter, inBand⟩
        exact ⟨passes, vote, (mem_ballot_iff _ _ _ _).mp ⟨voteMem, voter⟩, inBand⟩
      · rintro ⟨-, vote, present, inBand⟩
        rcases (mem_ballot_iff _ _ _ _).mpr present with ⟨voteMem, voter⟩
        exact ⟨vote, voteMem, voter, inBand⟩
    simp only [sameCondition]
  · have notWon : ¬WonBallot ctx address denom := fun won => passes won.1
    rw [if_neg passes, if_neg notWon]
    rfl

theorem weightFor_flatMap {α : Type} (claimsOf : α → List (Claim ℕ)) (items : List α)
    (address : Address) :
    weightFor (items.flatMap claimsOf) address =
      (items.map fun item => weightFor (claimsOf item) address).sum := by
  induction items with
  | nil => rfl
  | cons item items ih =>
      rw [List.flatMap_cons, weightFor_append, ih, List.map_cons, List.sum_cons]

open Classical in
theorem sum_ite_eq_mul_ncard {entries : List (Denom × PriceBallot)}
    (distinct : (entries.map Prod.fst).Nodup) (won : Denom → Prop)
    (listed : ∀ denom, won denom → denom ∈ entries.map Prod.fst) (amount : ℕ) :
    (entries.map fun entry => if won entry.1 then amount else 0).sum =
      amount * {denom | won denom}.ncard := by
  have wonSet : {denom | won denom} =
      (((entries.map Prod.fst).filter fun denom => won denom).toFinset : Set Denom) := by
    ext denom
    simp only [Set.mem_ofPred_eq, List.coe_toFinset, List.mem_filter, decide_eq_true_eq]
    exact ⟨fun isWon => ⟨listed denom isWon, isWon⟩, fun both => both.2⟩
  rw [wonSet, Set.ncard_coe_finset, List.toFinset_card_of_nodup (distinct.filter _),
    ← List.countP_eq_length_filter, List.countP_map]
  clear distinct listed wonSet
  induction entries with
  | nil => simp
  | cons entry entries ih =>
      rw [List.map_cons, List.sum_cons, ih, List.countP_cons]
      by_cases isWon : won entry.1
      · simp [isWon, mul_add, add_comm]
      · simp [isWon]

theorem weight_tallied (order : MapOrder) (ctx : Context L) (address : Address)
    (weightless : (ctx.oracle.claims[address]?).getD 0 = 0) :
    ((tallied order ctx).claims[address]?).getD 0 =
      bonded ctx.staking address * {denom | WonBallot ctx address denom}.ncard := by
  classical
  have accumulated := Store.getD_accumulateAll ctx.oracle.claims
    (((entries order ctx.oracle).flatMap (ballotClaims ctx)).map fun claim =>
      (claim.recipient, claim.weight)) address
  rw [weightless, zero_add] at accumulated
  have total : ((tallied order ctx).claims[address]?).getD 0 =
      weightFor ((entries order ctx.oracle).flatMap (ballotClaims ctx)) address := by
    refine accumulated.trans ?_
    unfold weightFor
    rw [List.filter_map, List.map_map]
    rfl
  have perEntry : ∀ entry ∈ entries order ctx.oracle,
      weightFor (ballotClaims ctx entry) address =
        if WonBallot ctx address entry.1 then bonded ctx.staking address else 0 := by
    rintro ⟨denom, ballot⟩ entryMem
    rcases (mem_entries_iff order ctx.oracle denom ballot).mp entryMem with ⟨rfl, -⟩
    exact weightFor_ballotClaims ctx denom address
  rw [total, weightFor_flatMap, List.map_congr_left perEntry]
  apply sum_ite_eq_mul_ncard (entries_nodup order ctx.oracle)
  rintro denom ⟨-, vote, present, -⟩
  have hasVotes := (ctx.oracle.ballot_ne_nil_iff denom).mpr ⟨address, vote, present⟩
  exact List.mem_map_of_mem ((mem_entries_iff order ctx.oracle denom _).mpr ⟨rfl, hasVotes⟩)

theorem step_claimsAddressed {ctx next : Context L} {action : Action L}
    (addressed : ClaimsAddressed ctx.oracle) (taken : step ctx action = some next) :
    ClaimsAddressed next.oracle := by
  cases step_effect taken with
  | kept _ keeps =>
      unfold ClaimsAddressed
      rw [keeps.claims]
      exact addressed
  | prevoted _ _ _ nextEq => rw [nextEq]; exact addressed
  | voted _ _ _ _ _ nextEq => rw [nextEq]; exact addressed
  | ended _ _ oracleEq => rw [oracleEq]; exact addressed
  | periodEnded _ _ _ rewarded oracleEq =>
      rw [oracleEq]
      apply tallied_addressed
      rw [rewarded]
      exact settled_addressed addressed

theorem reaches_claimsAddressed {params : Params} {start ctx : Context L}
    {actions : List (Action L)} (fresh : start.oracle = OracleStore.initGenesis params)
    (reached : Reaches step start actions ctx) : ClaimsAddressed ctx.oracle := by
  refine reached.invariant (fun state => ClaimsAddressed state.oracle)
    (fun _ _ _ held taken => step_claimsAddressed held taken) ?_
  intro recipient weight present
  rw [fresh] at present
  exact absurd present (by simp [OracleStore.initGenesis])

theorem wonBallot_congr {ctx paid : Context L} (stakingEq : paid.staking = ctx.staking)
    (rewarded : paid.oracle = settled ctx.oracle) (address : Address) (denom : Denom) :
    WonBallot paid address denom ↔ WonBallot ctx address denom := by
  rcases settled_frame ctx.oracle with ⟨votesEq, paramsEq, -⟩
  have ballotEq : paid.oracle.ballot denom = ctx.oracle.ballot denom := by
    unfold OracleStore.ballot OracleStore.voteList
    rw [rewarded, votesEq]
  unfold WonBallot
  rw [ballotEq, stakingEq, rewarded, votesEq, paramsEq]

/-- In every reachable state, a tally leaves each address with its bonded
tokens once for every ballot it won, and with nothing from earlier periods.
An address that is not a validator has no bonded tokens. -/
theorem endBlocker_claim_weights {params : Params} {start ctx : Context L}
    {actions : List (Action L)} (fresh : start.oracle = OracleStore.initGenesis params)
    (reached : Reaches step start actions ctx)
    (last : ctx.LastBlock ctx.oracle.params.votePeriod) (order : MapOrder) :
    ∃ (tags : Tags) (after : Context L), endBlocker order ctx = .ok (tags, after) ∧
      ∀ address, (after.oracle.claims[address]?).getD 0 =
        bonded ctx.staking address * {denom | WonBallot ctx address denom}.ncard := by
  have addressed := reaches_claimsAddressed fresh reached
  rcases endBlocker_of_lastBlock order last with ⟨tags, paid, finished, rewarded, stakingEq, -⟩
  refine ⟨tags, _, finished, ?_⟩
  intro address
  have weightless : (paid.oracle.claims[address]?).getD 0 = 0 := by
    rw [rewarded]
    exact settled_claims_weightless addressed address
  have weight := weight_tallied order paid address weightless
  simp only [wonBallot_congr stakingEq rewarded, stakingEq] at weight
  exact weight

theorem endBlocker_claim_weights_sample :
    ∃ (ctx : Context Book) (tags : Tags) (after : Context Book),
      Reaches step sampleStart sampleActions ctx ∧
        endBlocker MapOrder.sorted ctx = .ok (tags, after) ∧
        ∀ address, (after.oracle.claims[address]?).getD 0 =
          bonded ctx.staking address * {denom | WonBallot ctx address denom}.ncard := by
  rcases Option.map_eq_some_iff.mp sampleActions_last with ⟨ctx, performed, last⟩
  have reached := reaches_of_perform performed
  rcases endBlocker_claim_weights rfl reached (of_decide_eq_true last) MapOrder.sorted with
    ⟨tags, after, finished, weights⟩
  exact ⟨ctx, tags, after, reached, finished, weights⟩

end TerraCore.Oracle
