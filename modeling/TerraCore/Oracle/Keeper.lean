import TerraCore.Oracle.Ballot

/-!
# Oracle keeper

Reads and writes of the oracle store. An iterator of the source works on a
snapshot, so a loop that deletes what it visits is a list of keys erased from
the store.
-/

namespace TerraCore

namespace OracleStore

open Oracle

def addPrevote (store : OracleStore) (prevote : PricePrevote) : OracleStore :=
  { store with
    prevotes := store.prevotes.insert (prevote.denom, prevote.voter) prevote
    prevotes_keyed := Store.forall_get_insert store.prevotes_keyed rfl }

/-- `Keeper.deletePrevote`, for each prevote of a list. -/
def deletePrevotes (store : OracleStore) (prevotes : List PricePrevote) : OracleStore :=
  { store with
    prevotes := Store.eraseAll store.prevotes
      (prevotes.map fun prevote => (prevote.denom, prevote.voter))
    prevotes_keyed := fun key found present =>
      store.prevotes_keyed key found (Store.get_of_get_eraseAll present) }

def addVote (store : OracleStore) (vote : PriceVote) : OracleStore :=
  { store with
    votes := store.votes.insert (vote.denom, vote.voter) vote
    votes_keyed := Store.forall_get_insert store.votes_keyed rfl }

/-- `Keeper.deleteVote`, for each vote of a list. -/
def deleteVotes (store : OracleStore) (votes : List PriceVote) : OracleStore :=
  { store with
    votes := Store.eraseAll store.votes (votes.map fun vote => (vote.denom, vote.voter))
    votes_keyed := fun key found present =>
      store.votes_keyed key found (Store.get_of_get_eraseAll present) }

/-- The prevotes in the order in which `iteratePrevotes` visits them. -/
def prevoteList (store : OracleStore) : List PricePrevote := store.prevotes.toList.map Prod.snd

/-- The votes in the order in which `iterateVotes` visits them. -/
def voteList (store : OracleStore) : List PriceVote := store.votes.toList.map Prod.snd

/-- Append a vote to the ballot of its denomination. -/
def collectVote (votes : Store Denom PriceBallot) (vote : PriceVote) : Store Denom PriceBallot :=
  votes.insert vote.denom ((votes[vote.denom]?).getD [] ++ [vote])

def collectVotes (store : OracleStore) : Store Denom PriceBallot :=
  store.voteList.foldl collectVote ∅

def getActiveDenoms (store : OracleStore) : List Denom := store.prices.keys

def getLunaSwapRate (store : OracleStore) (denom : Denom) : Outcome Dec :=
  if denom = microLunaDenom then .ok Dec.one
  else
    match store.prices[denom]? with
    | some price => .ok price
    | none => .error (.error (.unknownDenomination denom))

def setLunaSwapRate (store : OracleStore) (denom : Denom) (price : Dec) : OracleStore :=
  { store with prices := store.prices.insert denom price }

/-- `Keeper.deletePrice`, for each denomination of a list. -/
def deletePrices (store : OracleStore) (denoms : List Denom) : OracleStore :=
  { store with prices := Store.eraseAll store.prices denoms }

/-- `Keeper.GetFeedDelegate`: by default the right stays with the validator itself. -/
def getFeedDelegate (store : OracleStore) (operator : Address) : Address :=
  (store.feederDelegations[operator]?).getD operator

def setFeedDelegate (store : OracleStore) (operator delegatedFeeder : Address) : OracleStore :=
  { store with feederDelegations := store.feederDelegations.insert operator delegatedFeeder }

def getSwapFeePool (store : OracleStore) : Coins := store.swapFeePool.getD Coins.empty

def addSwapFeePool (store : OracleStore) (fees : Coins) : OracleStore :=
  { store with swapFeePool := some (store.getSwapFeePool.add fees) }

def clearSwapFeePool (store : OracleStore) : OracleStore := { store with swapFeePool := none }

/-- What `iterateClaimPool` passes to its handler. The recipient is parsed from
the key, and a parse error is ignored. -/
def claimPool (store : OracleStore) : List (Address × ℕ) :=
  store.claims.toList.map fun claim => ((accAddressFromBech32 claim.1).getD [], claim.2)

def addClaimPool (store : OracleStore) (pool : List (Claim ℕ)) : OracleStore :=
  { store with claims := addClaims store.claims pool }

def clearClaimPool (store : OracleStore) : OracleStore :=
  { store with claims := Store.eraseAll store.claims (store.claimPool.map Prod.fst) }

/-- The votes on one denomination. -/
def ballot (store : OracleStore) (denom : Denom) : PriceBallot :=
  store.voteList.filter fun vote => vote.denom = denom

theorem mem_voteList_iff (store : OracleStore) (vote : PriceVote) :
    vote ∈ store.voteList ↔ store.votes[(vote.denom, vote.voter)]? = some vote := by
  unfold voteList
  rw [List.mem_map]
  constructor
  · rintro ⟨⟨key, found⟩, entryMem, rfl⟩
    have present := (Store.mem_toList_iff store.votes (key, found)).mp entryMem
    rw [store.votes_keyed key found present]
    exact present
  · intro present
    exact ⟨((vote.denom, vote.voter), vote), (Store.mem_toList_iff store.votes _).mpr present, rfl⟩

/-- Each validator has at most one vote on a denomination. -/
theorem voteList_nodup_keys (store : OracleStore) :
    (store.voteList.map fun vote => (vote.denom, vote.voter)).Nodup := by
  have sameKeys : store.voteList.map (fun vote => (vote.denom, vote.voter)) =
      store.votes.keys := by
    rw [← Std.ExtTreeMap.map_fst_toList_eq_keys]
    unfold voteList
    rw [List.map_map]
    apply List.map_congr_left
    intro entry entryMem
    exact store.votes_keyed entry.1 entry.2 ((Store.mem_toList_iff _ entry).mp entryMem)
  rw [sameKeys]
  exact Store.nodup_keys store.votes

theorem ballot_ne_nil_iff (store : OracleStore) (denom : Denom) :
    store.ballot denom ≠ [] ↔
      ∃ (voter : Address) (vote : PriceVote), store.votes[(denom, voter)]? = some vote := by
  unfold ballot
  rw [ne_eq, List.filter_eq_nil_iff]
  simp only [decide_eq_true_eq, not_forall, not_not]
  constructor
  · rintro ⟨vote, voteMem, rfl⟩
    exact ⟨vote.voter, vote, (mem_voteList_iff store vote).mp voteMem⟩
  · rintro ⟨voter, vote, present⟩
    have keyed := store.votes_keyed _ _ present
    rw [← keyed] at present
    exact ⟨vote, (mem_voteList_iff store vote).mpr present, (Prod.ext_iff.mp keyed).1⟩

theorem get_foldl_collectVote (votes : List PriceVote) (collected : Store Denom PriceBallot)
    (denom : Denom) :
    (votes.foldl collectVote collected)[denom]? =
      if votes.filter (fun vote => vote.denom = denom) = [] then collected[denom]?
      else some ((collected[denom]?).getD [] ++
        votes.filter fun vote => vote.denom = denom) := by
  induction votes generalizing collected with
  | nil => simp
  | cons vote votes ih =>
      rw [List.foldl_cons, ih]
      unfold collectVote
      rw [Store.get_insert]
      by_cases here : vote.denom = denom
      · subst here
        by_cases noMore : votes.filter (fun other => other.denom = vote.denom) = []
        · simp [noMore]
        · simp [noMore]
      · simp [here]

/-- `collectVotes` groups exactly the stored votes by denomination. -/
theorem get_collectVotes (store : OracleStore) (denom : Denom) :
    store.collectVotes[denom]? =
      if store.ballot denom = [] then none else some (store.ballot denom) := by
  unfold collectVotes ballot
  rw [get_foldl_collectVote]
  simp

theorem deletePrices_active (store : OracleStore) :
    (store.deletePrices store.getActiveDenoms).prices = ∅ :=
  Store.eraseAll_keys store.prices

theorem deleteVotes_voteList (store : OracleStore) :
    (store.deleteVotes store.voteList).votes = ∅ := by
  apply Store.ext_get
  intro key
  unfold deleteVotes
  rw [Store.get_eraseAll, Store.get_empty]
  split
  · rfl
  · next notListed =>
      cases present : store.votes[key]? with
      | none => rfl
      | some vote =>
          have keyEq := store.votes_keyed key vote present
          refine absurd (List.mem_map.mpr ⟨vote, ?_, keyEq⟩) notListed
          rw [mem_voteList_iff, keyEq]
          exact present

end OracleStore

end TerraCore
