import TerraCore.Library.Keyspace
import TerraCore.Oracle.Run
import TerraCore.Sdk.Text

/-!
# Queries for votes

Votes and prevotes are stored under keys `word:denom:voter`, where the word
names the section of the store. A query with a denomination scans for the keys
that start with `word:denom:` and the printed voter, if there is one. Since a
denomination may contain colons, the scan also finds entries whose denomination
only starts like that.
-/

namespace TerraCore.Oracle

open Transition

variable {L : Type} [Sdk L]

def prefixPrevote : Bytes := ascii "prevote"

def prefixVote : Bytes := ascii "vote"

/-- The key `word:denom:voter`. -/
def entryKey (print : Address → Bytes) (word : Bytes) (denom : Denom) (voter : Address) : Bytes :=
  word ++ ascii ":" ++ denom ++ ascii ":" ++ print voter

def keyPrevote (print : Address → Bytes) : Denom → Address → Bytes := entryKey print prefixPrevote

def keyVote (print : Address → Bytes) : Denom → Address → Bytes := entryKey print prefixVote

/-- The filter of a query. An address that is decoded from the request is empty
or has `addrLen` bytes. -/
structure QueryVotesParams where
  voter : Address
  denom : Denom
  voter_length : voter = [] ∨ voter.length = addrLen

/-- The entries of one section as the store keeps them. -/
def sectionEntries {α : Type} (key : Denom → Address → Bytes)
    (entries : Store (Denom × Address) α) : Store Bytes α :=
  Store.encoded (fun entry => key entry.1 entry.2) entries

/-- What `queryVotes` and `queryPrevotes` collect from their section. -/
def queryEntries {α : Type} (word : Bytes) (key : Denom → Address → Bytes) (voterOf : α → Address)
    (entries : Store (Denom × Address) α) (params : QueryVotesParams) : List α :=
  let image := sectionEntries key entries
  if params.denom ≠ [] ∧ params.voter ≠ [] then
    (Store.scan image (key params.denom params.voter)).map Prod.snd
  else if params.denom ≠ [] then (Store.scan image (key params.denom [])).map Prod.snd
  else if params.voter ≠ [] then
    ((Store.scan image word).map Prod.snd).filter fun entry => voterOf entry = params.voter
  else (Store.scan image word).map Prod.snd

/-- `queryVotes` on a decoded request. -/
def queryVotes (L : Type) [Sdk L] (store : OracleStore) (params : QueryVotesParams) :
    List PriceVote :=
  queryEntries prefixVote (keyVote (Sdk.printValAddress L)) PriceVote.voter store.votes params

/-- `queryPrevotes` on a decoded request. -/
def queryPrevotes (L : Type) [Sdk L] (store : OracleStore) (params : QueryVotesParams) :
    List PricePrevote :=
  queryEntries prefixPrevote (keyPrevote (Sdk.printValAddress L)) PricePrevote.voter store.prevotes
    params

/-- Whoever votes is a validator, so has an address of `addrLen` bytes. -/
structure VotersAddressed (store : OracleStore) : Prop where
  votes : ∀ (key : Denom × Address) vote, store.votes[key]? = some vote →
    key.2.length = addrLen
  prevotes : ∀ (key : Denom × Address) prevote, store.prevotes[key]? = some prevote →
    key.2.length = addrLen

theorem step_votersAddressed {ctx next : Context L} {action : Action L}
    (addressed : VotersAddressed ctx.oracle) (taken : step ctx action = some next) :
    VotersAddressed next.oracle := by
  cases step_effect taken with
  | kept _ keeps =>
      constructor
      · rw [keeps.votes]
        exact addressed.votes
      · rw [keeps.prevotes]
        exact addressed.prevotes
  | prevoted accepted _ _ nextEq =>
      rcases accepted with ⟨result, done⟩
      rcases handleMsgPricePrevote_eq_ok (deliverPricePrevote_eq_ok done).2 with ⟨-, exists_, -⟩
      rcases Option.isSome_iff_exists.mp exists_ with ⟨tokens, isValidator⟩
      rw [nextEq]
      exact ⟨addressed.votes, Store.forall_get_insert addressed.prevotes
        (ctx.staking.validator_length _ _ isValidator)⟩
  | voted _ found _ _ _ nextEq =>
      rw [nextEq]
      exact ⟨Store.forall_get_insert addressed.votes (addressed.prevotes _ _ found),
        fun key prevote present => addressed.prevotes key prevote
          (Store.get_of_get_eraseAll present)⟩
  | ended _ _ oracleEq =>
      rw [oracleEq]
      exact addressed
  | periodEnded _ _ _ rewarded oracleEq =>
      constructor
      · intro key vote present
        rw [oracleEq, tallied_votes, Store.get_empty] at present
        cases present
      · intro key prevote present
        exact addressed.prevotes key prevote (prevote_stored_before rewarded oracleEq present)

/-- Every run from an empty oracle stores addressed votes and prevotes. -/
theorem reaches_votersAddressed {params : Params} {start ctx : Context L} {actions : List (Action L)}
    (fresh : start.oracle = OracleStore.initGenesis params)
    (reached : Reaches step start actions ctx) : VotersAddressed ctx.oracle := by
  refine reached.invariant (fun state => VotersAddressed state.oracle)
    (fun _ _ _ addressed taken => step_votersAddressed addressed taken) ?_
  rw [fresh]
  constructor
  · intro key vote present
    simp [OracleStore.initGenesis] at present
  · intro key prevote present
    simp [OracleStore.initGenesis] at present

omit [Sdk L] in
theorem colon_not_mem_voter {print : Address → Bytes} (printed : Printed print)
    (params : QueryVotesParams) : colon ∉ print params.voter := by
  rcases params.voter_length with isEmpty | addressed
  · rw [isEmpty, printed.nil]
    exact List.not_mem_nil
  · exact printed.noColon addressed

theorem entryKey_eq (print : Address → Bytes) (word : Bytes) (denom : Denom) (voter : Address) :
    entryKey print word denom voter = (word ++ [colon]) ++ (denom ++ colon :: print voter) := by
  simp [entryKey, ascii_colon]

theorem entryKey_injOn {print : Address → Bytes} (printed : Printed print) (word : Bytes) :
    Set.InjOn (fun key : Denom × Address => entryKey print word key.1 key.2)
      {key | key.2.length = addrLen} := by
  intro first addressed second addressed' same
  simp only [entryKey_eq] at same
  rcases Separator.last_unique (printed.noColon addressed) (printed.noColon addressed')
    (List.append_cancel_left same) with ⟨denomEq, voterEq⟩
  exact Prod.ext denomEq (printed.injective addressed addressed' voterEq)

/-- The entry is one that the filter asks for. -/
def Matches (params : QueryVotesParams) (denom : Denom) (voter : Address) : Prop :=
  (params.denom ≠ [] → denom = params.denom) ∧ (params.voter ≠ [] → voter = params.voter)

/-- The denomination only starts with what the query scans for. -/
def Shadows (print : Address → Bytes) (params : QueryVotesParams) (denom : Denom) : Prop :=
  params.denom ≠ [] ∧ params.denom ++ colon :: print params.voter <+: denom

theorem Shadows.not_matches {print : Address → Bytes} {params : QueryVotesParams} {denom : Denom}
    {voter : Address} (shadows : Shadows print params denom) : ¬Matches params denom voter := by
  rintro ⟨sameDenom, -⟩
  have longer := shadows.2.length_le
  rw [sameDenom shadows.1, List.length_append, List.length_cons] at longer
  omega

theorem entryKey_prefix_iff {print : Address → Bytes} (printed : Printed print) (word : Bytes)
    (params : QueryVotesParams) {denom : Denom} {voter : Address}
    (addressed : voter.length = addrLen) :
    entryKey print word params.denom params.voter <+: entryKey print word denom voter ↔
      (denom = params.denom ∧ (params.voter ≠ [] → voter = params.voter)) ∨
        params.denom ++ colon :: print params.voter <+: denom := by
  have voters : print params.voter <+: print voter ↔
      (params.voter ≠ [] → voter = params.voter) := by
    rcases params.voter_length with isEmpty | filterAddressed
    · rw [isEmpty, printed.nil]
      simp
    · rw [printed.prefix_iff filterAddressed addressed, eq_comm]
      have notEmpty : params.voter ≠ [] := by
        intro isEmpty
        rw [isEmpty] at filterAddressed
        cases filterAddressed
      simp [notEmpty]
  rw [entryKey_eq, entryKey_eq, List.prefix_append_right_inj,
    Separator.prefix_iff (colon_not_mem_voter printed params) (printed.noColon addressed), voters,
    eq_comm]

section Entries

variable {α : Type} {print : Address → Bytes} {denomOf : α → Denom} {voterOf : α → Address}
  {entries : Store (Denom × Address) α}

/-- The answer has every stored entry that the filter asks for, once, and no other entry. -/
def Exact (denomOf : α → Denom) (voterOf : α → Address) (entries : Store (Denom × Address) α)
    (params : QueryVotesParams) (answer : List α) : Prop :=
  answer.Nodup ∧ ∀ entry, entry ∈ answer ↔
    entries[(denomOf entry, voterOf entry)]? = some entry ∧
      Matches params (denomOf entry) (voterOf entry)

variable (printed : Printed print) (word : Bytes)
  (keyed : ∀ (key : Denom × Address) entry, entries[key]? = some entry →
    (denomOf entry, voterOf entry) = key)
  (addressed : ∀ (key : Denom × Address) entry, entries[key]? = some entry →
    key.2.length = addrLen)

include printed keyed addressed

theorem mem_scan_section_iff (start text : Bytes) (entry : α) :
    (text, entry) ∈ Store.scan (sectionEntries (entryKey print word) entries) start ↔
      entryKey print word (denomOf entry) (voterOf entry) = text ∧
        entries[(denomOf entry, voterOf entry)]? = some entry ∧ start <+: text := by
  rw [Store.mem_scan_iff, sectionEntries,
    Store.get_encoded_iff (entryKey_injOn printed word) addressed]
  constructor
  · rintro ⟨⟨key, keyEq, stored⟩, starts⟩
    have keyIs := keyed key entry stored
    rw [← keyIs] at keyEq stored
    exact ⟨keyEq, stored, starts⟩
  · rintro ⟨keyEq, stored, starts⟩
    exact ⟨⟨_, keyEq, stored⟩, starts⟩

theorem mem_scanned_iff (start : Bytes) (entry : α) :
    entry ∈ (Store.scan (sectionEntries (entryKey print word) entries) start).map Prod.snd ↔
      entries[(denomOf entry, voterOf entry)]? = some entry ∧
        start <+: entryKey print word (denomOf entry) (voterOf entry) := by
  rw [List.mem_map]
  constructor
  · rintro ⟨⟨text, found⟩, listed, rfl⟩
    rcases (mem_scan_section_iff printed word keyed addressed _ _ _).mp listed with
      ⟨rfl, stored, starts⟩
    exact ⟨stored, starts⟩
  · rintro ⟨stored, starts⟩
    exact ⟨(_, entry), (mem_scan_section_iff printed word keyed addressed _ _ _).mpr
      ⟨rfl, stored, starts⟩, rfl⟩

/-- An entry is found under one key only. -/
theorem nodup_scanned (start : Bytes) :
    ((Store.scan (sectionEntries (entryKey print word) entries) start).map Prod.snd).Nodup := by
  refine (Store.nodup_scan _ start).map_on ?_
  rintro ⟨text, entry⟩ listed ⟨other, _⟩ otherListed rfl
  have textEq := ((mem_scan_section_iff printed word keyed addressed _ _ _).mp listed).1
  have otherEq := ((mem_scan_section_iff printed word keyed addressed _ _ _).mp otherListed).1
  rw [← textEq, ← otherEq]

omit printed keyed addressed in
/-- A denomination makes the query scan for its key, with or without a voter. -/
theorem queryEntries_of_denom {params : QueryVotesParams} (named : params.denom ≠ []) :
    queryEntries word (entryKey print word) voterOf entries params =
      (Store.scan (sectionEntries (entryKey print word) entries)
        (entryKey print word params.denom params.voter)).map Prod.snd := by
  by_cases isEmpty : params.voter = []
  · simp [queryEntries, named, isEmpty]
  · simp [queryEntries, named, isEmpty]

theorem nodup_queryEntries (params : QueryVotesParams) :
    (queryEntries word (entryKey print word) voterOf entries params).Nodup := by
  have distinct := nodup_scanned printed word keyed addressed
  unfold queryEntries
  split
  · exact distinct _
  · split
    · exact distinct _
    · split
      · exact (distinct _).filter _
      · exact distinct _

theorem mem_queryEntries_iff (params : QueryVotesParams) (entry : α) :
    entry ∈ queryEntries word (entryKey print word) voterOf entries params ↔
      entries[(denomOf entry, voterOf entry)]? = some entry ∧
        (Matches params (denomOf entry) (voterOf entry) ∨ Shadows print params (denomOf entry)) := by
  have scanned := mem_scanned_iff printed word keyed addressed
  by_cases named : params.denom = []
  · -- Without a denomination the whole section is scanned.
    have inSection : word <+: entryKey print word (denomOf entry) (voterOf entry) := by
      rw [entryKey_eq, List.append_assoc]
      exact List.prefix_append _ _
    have notShadowed : ¬Shadows print params (denomOf entry) := fun shadows => shadows.1 named
    by_cases isEmpty : params.voter = []
    · simp [queryEntries, named, isEmpty, scanned, inSection, Matches]
    · simp [queryEntries, named, isEmpty, scanned, inSection, Matches, notShadowed]
  · rw [queryEntries_of_denom word named, scanned]
    refine and_congr_right fun stored => ?_
    rw [entryKey_prefix_iff printed word params (addressed _ _ stored), Matches, Shadows]
    simp [named]

/-- The answer is exact unless a stored denomination starts with what is scanned for. -/
theorem queryEntries_exact_iff (params : QueryVotesParams) :
    Exact denomOf voterOf entries params
        (queryEntries word (entryKey print word) voterOf entries params) ↔
      ∀ (key : Denom × Address) (entry : α), entries[key]? = some entry →
        ¬Shadows print params key.1 := by
  constructor
  · rintro ⟨-, exact_⟩ key entry stored shadows
    have keyIs := keyed key entry stored
    rw [← keyIs] at stored shadows
    have found := (mem_queryEntries_iff printed word keyed addressed params entry).mpr
      ⟨stored, Or.inr shadows⟩
    exact shadows.not_matches ((exact_ entry).mp found).2
  · intro apart
    refine ⟨nodup_queryEntries printed word keyed addressed params, ?_⟩
    intro entry
    rw [mem_queryEntries_iff printed word keyed addressed]
    refine and_congr_right fun stored => ?_
    have notShadowed := apart _ _ stored
    simp [notShadowed]

end Entries

/-- Both queries are exact precisely when no stored denomination continues the
filter's denomination with a colon and the filter's voter. -/
theorem queries_exact_iff (printed : Printed (Sdk.printValAddress L)) {store : OracleStore}
    (addressed : VotersAddressed store) (params : QueryVotesParams) :
    (Exact PriceVote.denom PriceVote.voter store.votes params (queryVotes L store params) ↔
        ∀ (key : Denom × Address) vote, store.votes[key]? = some vote →
          ¬Shadows (Sdk.printValAddress L) params key.1) ∧
      (Exact PricePrevote.denom PricePrevote.voter store.prevotes params
          (queryPrevotes L store params) ↔
        ∀ (key : Denom × Address) prevote, store.prevotes[key]? = some prevote →
          ¬Shadows (Sdk.printValAddress L) params key.1) :=
  ⟨queryEntries_exact_iff printed prefixVote store.votes_keyed addressed.votes params,
    queryEntries_exact_iff printed prefixPrevote store.prevotes_keyed addressed.prevotes params⟩

/-- One validator commits to prices of `usdr` and of a denomination that starts like it. -/
def queriedStart : Context PrintedBook :=
  { Context.genesis PrintedBook.empty (Staking.single (List.replicate 20 1) 10 single_length) with
    oracle := OracleStore.initGenesis defaultParams }

def queriedActions : List (Action PrintedBook) :=
  [.pricePrevote samplePrevote, .pricePrevote { samplePrevote with denom := ascii "usdr:x" }]

theorem queriedActions_prevotes :
    (perform step queriedStart queriedActions).map (fun ctx => ctx.oracle.prevoteList) =
      some [⟨samplePrevote.hash, microSDRDenom, List.replicate 20 1, 0⟩,
        ⟨samplePrevote.hash, ascii "usdr:x", List.replicate 20 1, 0⟩] := by
  decide +kernel

theorem queriedActions_answer :
    (perform step queriedStart queriedActions).map (fun ctx =>
        queryPrevotes PrintedBook ctx.oracle ⟨[], microSDRDenom, Or.inl rfl⟩) =
      some [⟨samplePrevote.hash, microSDRDenom, List.replicate 20 1, 0⟩,
        ⟨samplePrevote.hash, ascii "usdr:x", List.replicate 20 1, 0⟩] := by
  decide +kernel

/-- The longer denomination is not continued by any other one. -/
theorem queries_exact_iff_longer :
    ∃ ctx : Context PrintedBook, Reaches step queriedStart queriedActions ctx ∧
      Exact PricePrevote.denom PricePrevote.voter ctx.oracle.prevotes
        ⟨[], ascii "usdr:x", Or.inl rfl⟩
        (queryPrevotes PrintedBook ctx.oracle ⟨[], ascii "usdr:x", Or.inl rfl⟩) := by
  rcases Option.map_eq_some_iff.mp queriedActions_prevotes with ⟨ctx, performed, stored⟩
  have reached := reaches_of_perform performed
  have addressed := reaches_votersAddressed rfl reached
  refine ⟨ctx, reached, (queries_exact_iff PrintedBook.printed addressed _).2.mpr ?_⟩
  intro key prevote present
  have listed : prevote ∈ ctx.oracle.prevoteList :=
    List.mem_map.mpr ⟨(key, prevote), (Store.mem_toList_iff _ _).mpr present, rfl⟩
  have keyIs := ctx.oracle.prevotes_keyed key prevote present
  rw [stored] at listed
  rw [← keyIs]
  rintro ⟨-, starts⟩
  rw [PrintedBook.printed.nil] at starts
  simp only [List.mem_cons, List.not_mem_nil, or_false] at listed
  rcases listed with rfl | rfl
  · exact absurd starts (by decide)
  · exact absurd starts (by decide)

/-- The query for `usdr` also returns the other prevote. -/
theorem query_returns_other_denom :
    ∃ ctx : Context PrintedBook, Reaches step queriedStart queriedActions ctx ∧
      ¬Exact PricePrevote.denom PricePrevote.voter ctx.oracle.prevotes
        ⟨[], microSDRDenom, Or.inl rfl⟩
        (queryPrevotes PrintedBook ctx.oracle ⟨[], microSDRDenom, Or.inl rfl⟩) := by
  rcases Option.map_eq_some_iff.mp queriedActions_answer with ⟨ctx, performed, answer⟩
  refine ⟨ctx, reaches_of_perform performed, ?_⟩
  rintro ⟨-, exact_⟩
  rw [answer] at exact_
  have found := (exact_ ⟨samplePrevote.hash, ascii "usdr:x", List.replicate 20 1, 0⟩).mp (by simp)
  exact absurd (found.2.1 (by decide)) (by decide)

end TerraCore.Oracle
