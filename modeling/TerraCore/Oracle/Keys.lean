import TerraCore.Oracle.Querier

/-!
# Keys of the oracle

All records of the oracle share one store, under texts that start with the name
of their kind. Whatever the denominations, no two records share a key, and the
keys that start with the name of a kind are those of this kind. Through any
writes the store therefore behaves as separate maps, and the iterators that
read a denomination or an address back from the key find what was written.

An iterator visits the entries it was opened on. A record is decoded as what it
was encoded from; decoding another record panics.
-/

namespace TerraCore.Oracle

def prefixPrice : Bytes := ascii "price"

def prefixFeederDelegation : Bytes := ascii "feederdelegation"

def prefixClaim : Bytes := ascii "claim"

def keySwapFeePool : Bytes := ascii "swapfeepool"

/-- How addresses are written, those of accounts and those of operators. -/
structure Codecs where
  acc : AddressCodec
  val : AddressCodec

inductive Record where
  | prevote (prevote : PricePrevote)
  | vote (vote : PriceVote)
  | price (price : Dec)
  | delegate (delegate : Address)
  | pool (pool : Coins)
  | weight (weight : ℤ)
deriving DecidableEq

namespace Record

def asPrevote : Record → Option PricePrevote
  | .prevote found => some found
  | _ => none

def asVote : Record → Option PriceVote
  | .vote found => some found
  | _ => none

def asDelegate : Record → Option Address
  | .delegate found => some found
  | _ => none

def asPool : Record → Option Coins
  | .pool found => some found
  | _ => none

def asWeight : Record → Option ℤ
  | .weight found => some found
  | _ => none

end Record

namespace Keyed

/-- The store of the module. -/
abbrev Flat := Store Bytes Record

variable (codecs : Codecs)

def keyPrice (denom : Denom) : Bytes := prefixPrice ++ ascii ":" ++ denom

def keyClaim (recipient : Address) : Bytes :=
  prefixClaim ++ ascii ":" ++ codecs.acc.print recipient

def keyFeederDelegation (operator : Address) : Bytes :=
  prefixFeederDelegation ++ ascii ":" ++ codecs.val.print operator

def addPrevote (flat : Flat) (prevote : PricePrevote) : Flat :=
  flat.insert (keyPrevote codecs.val.print prevote.denom prevote.voter) (.prevote prevote)

def deletePrevote (flat : Flat) (prevote : PricePrevote) : Flat :=
  flat.erase (keyPrevote codecs.val.print prevote.denom prevote.voter)

def addVote (flat : Flat) (vote : PriceVote) : Flat :=
  flat.insert (keyVote codecs.val.print vote.denom vote.voter) (.vote vote)

def deleteVote (flat : Flat) (vote : PriceVote) : Flat :=
  flat.erase (keyVote codecs.val.print vote.denom vote.voter)

def setLunaSwapRate (flat : Flat) (denom : Denom) (price : Dec) : Flat :=
  flat.insert (keyPrice denom) (.price price)

def deletePrice (flat : Flat) (denom : Denom) : Flat := flat.erase (keyPrice denom)

def setFeedDelegate (flat : Flat) (operator delegatedFeeder : Address) : Flat :=
  flat.insert (keyFeederDelegation codecs operator) (.delegate delegatedFeeder)

def getSwapFeePool (flat : Flat) : Option Coins :=
  match flat[keySwapFeePool]? with
  | none => some .empty
  | some record => record.asPool

def addSwapFeePool (flat : Flat) (fees : Coins) : Option Flat := do
  let pool ← getSwapFeePool flat
  some (flat.insert keySwapFeePool (.pool (pool.add fees)))

def clearSwapFeePool (flat : Flat) : Flat := flat.erase keySwapFeePool

/-- The body of the loop of `addClaimPool`. -/
def addClaim (flat : Flat) (claim : Claim ℤ) : Option Flat :=
  let storeKeyClaim := keyClaim codecs claim.recipient
  match flat[storeKeyClaim]? with
  | none => some (flat.insert storeKeyClaim (.weight claim.weight))
  | some record => do
      let prevWeight ← record.asWeight
      some (flat.insert storeKeyClaim (.weight (claim.weight + prevWeight)))

def addClaimPool (flat : Flat) (pool : List (Claim ℤ)) : Option Flat :=
  pool.foldlM (addClaim codecs) flat

section Iterators

variable {σ : Type} (flat : Flat)

def iteratePrevotes (handler : σ → PricePrevote → σ × Bool) (state : σ) : Option σ :=
  Store.iterate (fun entry => entry.2.asPrevote) handler (Store.scan flat prefixPrevote) state

def iterateVotes (handler : σ → PriceVote → σ × Bool) (state : σ) : Option σ :=
  Store.iterate (fun entry => entry.2.asVote) handler (Store.scan flat prefixVote) state

/-- The denomination in a key; slicing a shorter key panics. -/
def readDenom (key : Bytes) : Option Denom :=
  let n := prefixPrice.length + 1
  if n ≤ key.length then some (key.drop n) else none

def getActiveDenoms : Option (List Denom) :=
  Store.iterate (fun entry => readDenom entry.1) (fun denoms denom => (denoms ++ [denom], false))
    (Store.scan flat prefixPrice) []

/-- The address behind the first colon of a key, empty when it cannot be parsed. -/
def readAddress (codec : AddressCodec) (key : Bytes) : Option Address :=
  match key.splitOn colon with
  | _ :: printed :: _ => some ((codec.parse printed).getD [])
  | _ => none

def iterateClaimPool (handler : σ → Address × ℤ → σ × Bool) (state : σ) : Option σ :=
  Store.iterate (fun entry => do
    let recipient ← readAddress codecs.acc entry.1
    let weight ← entry.2.asWeight
    some (recipient, weight)) handler (Store.scan flat prefixClaim) state

/-- The handler gets the delegate and the operator. -/
def iterateFeederDelegations (handler : σ → Address × Address → σ × Bool) (state : σ) : Option σ :=
  Store.iterate (fun entry => do
    let operator ← readAddress codecs.val entry.1
    let delegate ← entry.2.asDelegate
    some (delegate, operator)) handler (Store.scan flat prefixFeederDelegation) state

end Iterators

def clearClaimPool (flat : Flat) : Option Flat :=
  iterateClaimPool codecs flat
    (fun store claim => (store.erase (keyClaim codecs claim.1), false)) flat

end Keyed

inductive Kind where
  | prevote | vote | price | claim | feederDelegation | swapFeePool
deriving DecidableEq

/-- The word that the keys of a kind start with. -/
def Kind.word : Kind → Bytes
  | prevote => prefixPrevote
  | vote => prefixVote
  | price => prefixPrice
  | claim => prefixClaim
  | feederDelegation => prefixFeederDelegation
  | swapFeePool => keySwapFeePool

inductive Key where
  | prevote (denom : Denom) (voter : Address)
  | vote (denom : Denom) (voter : Address)
  | price (denom : Denom)
  | claim (recipient : Address)
  | feederDelegation (operator : Address)
  | swapFeePool
deriving DecidableEq

namespace Key

def kind : Key → Kind
  | prevote .. => .prevote
  | vote .. => .vote
  | price _ => .price
  | claim _ => .claim
  | feederDelegation _ => .feederDelegation
  | swapFeePool => .swapFeePool

def bytes (codecs : Codecs) : Key → Bytes
  | prevote denom voter => keyPrevote codecs.val.print denom voter
  | vote denom voter => keyVote codecs.val.print denom voter
  | price denom => Keyed.keyPrice denom
  | claim recipient => Keyed.keyClaim codecs recipient
  | feederDelegation operator => Keyed.keyFeederDelegation codecs operator
  | swapFeePool => keySwapFeePool

/-- The addresses of the key have `addrLen` bytes. -/
def Addressed : Key → Prop
  | prevote _ voter => voter.length = addrLen
  | vote _ voter => voter.length = addrLen
  | price _ => True
  | claim recipient => recipient.length = addrLen
  | feederDelegation operator => operator.length = addrLen
  | swapFeePool => True

variable (codecs : Codecs)

theorem word_prefix_bytes (key : Key) : key.kind.word <+: key.bytes codecs := by
  cases key <;> simp [kind, Kind.word, bytes, keyPrevote, keyVote, entryKey, Keyed.keyPrice,
    Keyed.keyClaim, Keyed.keyFeederDelegation]

theorem word_prefix_word {kind kind' : Kind} (starts : kind.word <+: kind'.word) :
    kind = kind' := by
  revert starts
  cases kind <;> cases kind' <;> decide

/-- The keys that start with the word of a kind are those of the kind. -/
theorem word_prefix_iff (kind : Kind) (key : Key) :
    kind.word <+: key.bytes codecs ↔ key.kind = kind := by
  constructor
  · intro starts
    rcases List.prefix_or_prefix_of_prefix starts (word_prefix_bytes codecs key) with
      shorter | longer
    · exact (word_prefix_word shorter).symm
    · exact word_prefix_word longer
  · rintro rfl
    exact word_prefix_bytes codecs key

/-- The denomination of an entry ends at the last colon. -/
theorem entry_unique {word : Bytes} {denom denom' : Denom} {voter voter' : Address}
    (addressed : voter.length = addrLen) (addressed' : voter'.length = addrLen)
    (same : word ++ ascii ":" ++ denom ++ ascii ":" ++ codecs.val.print voter =
      word ++ ascii ":" ++ denom' ++ ascii ":" ++ codecs.val.print voter') :
    denom = denom' ∧ voter = voter' := by
  simp only [List.append_assoc, List.append_cancel_left_eq, ascii_colon, List.singleton_append]
    at same
  rcases Separator.last_unique (codecs.val.printed.noColon addressed)
    (codecs.val.printed.noColon addressed') same with ⟨denomEq, voterEq⟩
  exact ⟨(List.cons.inj denomEq).2, codecs.val.printed.injective addressed addressed' voterEq⟩

/-- Keys with addresses are the same only when they have the same fields. -/
theorem bytes_injOn : Set.InjOn (bytes codecs) {key | key.Addressed} := by
  intro first addressed second addressed' same
  have sameKind : first.kind = second.kind := by
    have starts := word_prefix_bytes codecs first
    rw [same] at starts
    exact ((word_prefix_iff codecs first.kind second).mp starts).symm
  cases first with
  | prevote denom voter =>
      cases second with
      | prevote denom' voter' =>
          rcases entry_unique codecs addressed addressed' same with ⟨rfl, rfl⟩
          rfl
      | _ => cases sameKind
  | vote denom voter =>
      cases second with
      | vote denom' voter' =>
          rcases entry_unique codecs addressed addressed' same with ⟨rfl, rfl⟩
          rfl
      | _ => cases sameKind
  | price denom =>
      cases second with
      | price denom' => exact congrArg price (List.append_cancel_left same)
      | _ => cases sameKind
  | claim recipient =>
      cases second with
      | claim recipient' =>
          exact congrArg claim (codecs.acc.printed.injective addressed addressed'
            (List.append_cancel_left same))
      | _ => cases sameKind
  | feederDelegation operator =>
      cases second with
      | feederDelegation operator' =>
          exact congrArg feederDelegation (codecs.val.printed.injective addressed addressed'
            (List.append_cancel_left same))
      | _ => cases sameKind
  | swapFeePool =>
      cases second with
      | swapFeePool => rfl
      | _ => cases sameKind

end Key

/-- What the store is for: a map for every kind of record. -/
structure Maps where
  prevotes : Store (Denom × Address) PricePrevote
  votes : Store (Denom × Address) PriceVote
  prices : Store Denom Dec
  feederDelegations : Store Address Address
  swapFeePool : Option Coins
  claims : Store Address ℤ
  prevotes_keyed : ∀ (key : Denom × Address) prevote,
    prevotes[key]? = some prevote → (prevote.denom, prevote.voter) = key
  votes_keyed : ∀ (key : Denom × Address) vote,
    votes[key]? = some vote → (vote.denom, vote.voter) = key

/-- The writes of the keeper. -/
inductive Write where
  | addPrevote (prevote : PricePrevote)
  | deletePrevote (prevote : PricePrevote)
  | addVote (vote : PriceVote)
  | deleteVote (vote : PriceVote)
  | setLunaSwapRate (denom : Denom) (price : Dec)
  | deletePrice (denom : Denom)
  | setFeedDelegate (operator delegatedFeeder : Address)
  | addSwapFeePool (fees : Coins)
  | clearSwapFeePool
  | addClaimPool (pool : List (Claim ℤ))
  | clearClaimPool

/-- The addresses under which something is written have `addrLen` bytes. -/
def Write.Addressed : Write → Prop
  | addPrevote prevote => prevote.voter.length = addrLen
  | deletePrevote prevote => prevote.voter.length = addrLen
  | addVote vote => vote.voter.length = addrLen
  | deleteVote vote => vote.voter.length = addrLen
  | setFeedDelegate operator _ => operator.length = addrLen
  | addClaimPool pool => ∀ claim ∈ pool, claim.recipient.length = addrLen
  | _ => True

def Keyed.apply (codecs : Codecs) (flat : Keyed.Flat) : Write → Option Keyed.Flat
  | .addPrevote prevote => some (addPrevote codecs flat prevote)
  | .deletePrevote prevote => some (deletePrevote codecs flat prevote)
  | .addVote vote => some (addVote codecs flat vote)
  | .deleteVote vote => some (deleteVote codecs flat vote)
  | .setLunaSwapRate denom price => some (setLunaSwapRate flat denom price)
  | .deletePrice denom => some (deletePrice flat denom)
  | .setFeedDelegate operator delegatedFeeder =>
      some (setFeedDelegate codecs flat operator delegatedFeeder)
  | .addSwapFeePool fees => addSwapFeePool flat fees
  | .clearSwapFeePool => some (clearSwapFeePool flat)
  | .addClaimPool pool => addClaimPool codecs flat pool
  | .clearClaimPool => clearClaimPool codecs flat

namespace Maps

theorem no_prevotes_keyed (key : Denom × Address) (prevote : PricePrevote)
    (present : (∅ : Store (Denom × Address) PricePrevote)[key]? = some prevote) :
    (prevote.denom, prevote.voter) = key := by
  simp at present

theorem no_votes_keyed (key : Denom × Address) (vote : PriceVote)
    (present : (∅ : Store (Denom × Address) PriceVote)[key]? = some vote) :
    (vote.denom, vote.voter) = key := by
  simp at present

def empty : Maps where
  prevotes := ∅
  votes := ∅
  prices := ∅
  feederDelegations := ∅
  swapFeePool := none
  claims := ∅
  prevotes_keyed := no_prevotes_keyed
  votes_keyed := no_votes_keyed

def addClaim (maps : Maps) (claim : Claim ℤ) : Maps :=
  { maps with claims := maps.claims.accumulate claim.recipient claim.weight }

def apply (maps : Maps) : Write → Maps
  | .addPrevote prevote =>
      { maps with
        prevotes := maps.prevotes.insert (prevote.denom, prevote.voter) prevote
        prevotes_keyed := Store.forall_get_insert maps.prevotes_keyed rfl }
  | .deletePrevote prevote =>
      { maps with
        prevotes := maps.prevotes.erase (prevote.denom, prevote.voter)
        prevotes_keyed := by
          intro key found present
          rw [Store.get_erase] at present
          split at present
          · cases present
          · exact maps.prevotes_keyed key found present }
  | .addVote vote =>
      { maps with
        votes := maps.votes.insert (vote.denom, vote.voter) vote
        votes_keyed := Store.forall_get_insert maps.votes_keyed rfl }
  | .deleteVote vote =>
      { maps with
        votes := maps.votes.erase (vote.denom, vote.voter)
        votes_keyed := by
          intro key found present
          rw [Store.get_erase] at present
          split at present
          · cases present
          · exact maps.votes_keyed key found present }
  | .setLunaSwapRate denom price => { maps with prices := maps.prices.insert denom price }
  | .deletePrice denom => { maps with prices := maps.prices.erase denom }
  | .setFeedDelegate operator delegatedFeeder =>
      { maps with feederDelegations := maps.feederDelegations.insert operator delegatedFeeder }
  | .addSwapFeePool fees =>
      { maps with swapFeePool := some ((maps.swapFeePool.getD .empty).add fees) }
  | .clearSwapFeePool => { maps with swapFeePool := none }
  | .addClaimPool pool => pool.foldl addClaim maps
  | .clearClaimPool => { maps with claims := ∅ }

/-- The record under a key. -/
def get (maps : Maps) : Key → Option Record
  | .prevote denom voter => maps.prevotes[(denom, voter)]?.map .prevote
  | .vote denom voter => maps.votes[(denom, voter)]?.map .vote
  | .price denom => maps.prices[denom]?.map .price
  | .claim recipient => maps.claims[recipient]?.map .weight
  | .feederDelegation operator => maps.feederDelegations[operator]?.map .delegate
  | .swapFeePool => maps.swapFeePool.map .pool

end Maps

/-- The entries of the flat store are the records of the maps under their keys. -/
def Represents (codecs : Codecs) (flat : Keyed.Flat) (maps : Maps) : Prop :=
  Store.Holds {key | key.Addressed} (Key.bytes codecs) (fun _ => True) flat maps.get

section Writes

variable {codecs : Codecs} {flat : Keyed.Flat} {maps after : Maps}

theorem represents_empty (codecs : Codecs) : Represents codecs ∅ .empty where
  within := by
    intro key record present
    cases key <;> simp [Maps.get, Maps.empty] at present
  entries := by
    intro text record _
    constructor
    · intro present
      simp at present
    · rintro ⟨key, _, present⟩
      cases key <;> simp [Maps.get, Maps.empty] at present

theorem Represents.get (represents : Represents codecs flat maps) (key : Key)
    (addressed : key.Addressed) : flat[key.bytes codecs]? = maps.get key := by
  have inside : key ∈ {key : Key | key.Addressed} := addressed
  exact Store.Holds.get represents (Key.bytes_injOn codecs) inside trivial

theorem Represents.insert (represents : Represents codecs flat maps) (key : Key)
    (addressed : key.Addressed) {record : Record}
    (afterEq : ∀ other, after.get other = if key = other then some record else maps.get other) :
    Represents codecs (flat.insert (key.bytes codecs) record) after := by
  have inside : key ∈ {key : Key | key.Addressed} := addressed
  have inserted := Store.Holds.insert represents (Key.bytes_injOn codecs) inside afterEq
  exact inserted

theorem Represents.erase (represents : Represents codecs flat maps) (key : Key)
    (addressed : key.Addressed)
    (afterEq : ∀ other, after.get other = if key = other then none else maps.get other) :
    Represents codecs (flat.erase (key.bytes codecs)) after := by
  have inside : key ∈ {key : Key | key.Addressed} := addressed
  have erased := Store.Holds.erase represents (Key.bytes_injOn codecs) inside afterEq
  exact erased

end Writes

section Iterators

variable {codecs : Codecs} {flat : Keyed.Flat} {maps : Maps}

/-- A scan for a kind finds the records of this kind, here as the items that stand for them. -/
theorem Represents.scan_eq {τ : Type} (represents : Represents codecs flat maps) (kind : Kind)
    (embed : τ → Key × Record) (P : τ → Prop) (injective : Function.Injective embed)
    (covers : ∀ key record, (key.kind = kind ∧ maps.get key = some record) ↔
      ∃ item, embed item = (key, record) ∧ P item) :
    ∃ items : List τ, items.Nodup ∧ (∀ item, item ∈ items ↔ P item) ∧
      Store.scan flat kind.word =
        items.map fun item => ((embed item).1.bytes codecs, (embed item).2) := by
  have found : ∀ entry ∈ Store.scan flat kind.word,
      ∃ item, ((embed item).1.bytes codecs, (embed item).2) = entry ∧ P item := by
    intro entry entryMem
    rcases (Store.mem_scan_iff flat kind.word entry).mp entryMem with ⟨present, starts⟩
    rcases (represents.entries _ _ trivial).mp present with ⟨key, bytesEq, stored⟩
    rw [← bytesEq] at starts
    rcases (covers key entry.2).mp ⟨(Key.word_prefix_iff codecs kind key).mp starts, stored⟩ with
      ⟨item, embedEq, holds⟩
    refine ⟨item, ?_, holds⟩
    rw [embedEq, bytesEq]
  rcases Store.exists_map_eq found with ⟨items, itemsEq, all⟩
  refine ⟨items, ?_, ?_, itemsEq.symm⟩
  · have distinct := Store.nodup_scan flat kind.word
    rw [← itemsEq] at distinct
    exact distinct.of_map
  · intro item
    constructor
    · exact all item
    · intro holds
      rcases (covers (embed item).1 (embed item).2).mpr ⟨item, rfl, holds⟩ with ⟨isKind, stored⟩
      have listed : ((embed item).1.bytes codecs, (embed item).2) ∈ Store.scan flat kind.word := by
        apply (Store.mem_scan_iff flat kind.word _).mpr
        refine ⟨(represents.entries _ _ trivial).mpr ⟨_, rfl, stored⟩, ?_⟩
        exact (Key.word_prefix_iff codecs kind _).mpr isKind
      rw [← itemsEq] at listed
      rcases List.mem_map.mp listed with ⟨other, otherMem, same⟩
      rcases Prod.mk.inj same with ⟨sameBytes, sameRecord⟩
      have otherStored := ((covers (embed other).1 (embed other).2).mpr
        ⟨other, rfl, all other otherMem⟩).2
      have sameKey := Key.bytes_injOn codecs (represents.within _ _ otherStored)
        (represents.within _ _ stored) sameBytes
      rwa [← injective (Prod.ext sameKey sameRecord)]

/-- An iterator over a kind visits its records, decoded one by one. -/
theorem Represents.visits {τ ρ : Type} (represents : Represents codecs flat maps) (kind : Kind)
    (embed : τ → Key × Record) (P : τ → Prop) (injective : Function.Injective embed)
    (covers : ∀ key record, (key.kind = kind ∧ maps.get key = some record) ↔
      ∃ item, embed item = (key, record) ∧ P item)
    (decode : Bytes × Record → Option ρ) (read : τ → ρ)
    (decodes : ∀ item, P item →
      decode ((embed item).1.bytes codecs, (embed item).2) = some (read item)) :
    ∃ items : List τ, items.Nodup ∧ (∀ item, item ∈ items ↔ P item) ∧
      ∀ (σ : Type) (handler : σ → ρ → σ × Bool) (state : σ),
        Store.iterate decode handler (Store.scan flat kind.word) state =
          some (Store.visit handler (items.map read) state) := by
  rcases represents.scan_eq kind embed P injective covers with
    ⟨items, distinct, entries, scanEq⟩
  refine ⟨items, distinct, entries, ?_⟩
  intro σ handler state
  rw [scanEq]
  apply Store.iterate_map
  intro item itemMem
  exact decodes item ((entries item).mp itemMem)

/-- An iterator calls its handler on the items it is for, each once. -/
def Visits {τ : Type} (iterator : (σ : Type) → (σ → τ → σ × Bool) → σ → Option σ)
    (P : τ → Prop) : Prop :=
  ∃ visited : List τ, visited.Nodup ∧ (∀ item, item ∈ visited ↔ P item) ∧
    ∀ (σ : Type) (handler : σ → τ → σ × Bool) (state : σ),
      iterator σ handler state = some (Store.visit handler visited state)

theorem Represents.visits_items {τ : Type} (represents : Represents codecs flat maps)
    (kind : Kind) (embed : τ → Key × Record) (P : τ → Prop) (injective : Function.Injective embed)
    (covers : ∀ key record, (key.kind = kind ∧ maps.get key = some record) ↔
      ∃ item, embed item = (key, record) ∧ P item)
    (decode : Bytes × Record → Option τ)
    (decodes : ∀ item, P item →
      decode ((embed item).1.bytes codecs, (embed item).2) = some item) :
    Visits (fun _ handler => Store.iterate decode handler (Store.scan flat kind.word)) P := by
  rcases represents.visits kind embed P injective covers decode id decodes with
    ⟨items, distinct, entries, iterates⟩
  refine ⟨items, distinct, entries, ?_⟩
  intro σ handler state
  have iterated := iterates σ handler state
  rw [List.map_id] at iterated
  exact iterated

theorem readAddress_eq {codec : AddressCodec} {word : Bytes} (noColon : colon ∉ word)
    {address : Address} (addressed : address.length = addrLen) :
    Keyed.readAddress codec (word ++ ascii ":" ++ codec.print address) = some address := by
  have joined : word ++ ascii ":" ++ codec.print address =
      [colon].intercalate [word, codec.print address] := by
    simp [ascii_colon, List.intercalate]
  have fields : (word ++ ascii ":" ++ codec.print address).splitOn colon =
      [word, codec.print address] := by
    rw [joined]
    apply List.splitOn_intercalate
    · intro field listed
      simp only [List.mem_cons, List.not_mem_nil, or_false] at listed
      rcases listed with rfl | rfl
      · exact noColon
      · exact codec.printed.noColon addressed
    · simp
  rw [Keyed.readAddress, fields]
  simp [codec.parse_print addressed]

theorem readDenom_eq (denom : Denom) : Keyed.readDenom (Keyed.keyPrice denom) = some denom := by
  simp [Keyed.readDenom, Keyed.keyPrice, prefixPrice, ascii]

/-- The iterators visit the entries of their own map, each once, under the
denomination and the addresses they were stored under. -/
structure VisitsExactly (codecs : Codecs) (flat : Keyed.Flat) (maps : Maps) : Prop where
  prevotes : Visits (fun _ => Keyed.iteratePrevotes flat) fun prevote =>
    maps.prevotes[(prevote.denom, prevote.voter)]? = some prevote
  votes : Visits (fun _ => Keyed.iterateVotes flat) fun vote =>
    maps.votes[(vote.denom, vote.voter)]? = some vote
  activeDenoms : ∃ denoms : List Denom, denoms.Nodup ∧
    (∀ denom, denom ∈ denoms ↔ ∃ price, maps.prices[denom]? = some price) ∧
    Keyed.getActiveDenoms flat = some denoms
  claims : Visits (fun _ => Keyed.iterateClaimPool codecs flat) fun claim =>
    maps.claims[claim.1]? = some claim.2
  feederDelegations : Visits (fun _ => Keyed.iterateFeederDelegations codecs flat)
    fun delegation => maps.feederDelegations[delegation.2]? = some delegation.1

theorem Represents.iteratePrevotes (represents : Represents codecs flat maps) :
    Visits (fun _ => Keyed.iteratePrevotes flat) fun prevote =>
      maps.prevotes[(prevote.denom, prevote.voter)]? = some prevote := by
  refine represents.visits_items .prevote
    (fun prevote => (.prevote prevote.denom prevote.voter, .prevote prevote)) _ ?_ ?_
    (fun entry => entry.2.asPrevote) (fun _ _ => rfl)
  · intro first second same
    exact Record.prevote.inj (Prod.mk.inj same).2
  · intro key record
    constructor
    · rintro ⟨isPrevote, stored⟩
      cases key <;> cases isPrevote
      rcases Option.map_eq_some_iff.mp stored with ⟨prevote, present, rfl⟩
      have keyed := Prod.mk.inj (maps.prevotes_keyed _ _ present)
      rw [← keyed.1, ← keyed.2] at present
      exact ⟨prevote, by rw [keyed.1, keyed.2], present⟩
    · rintro ⟨prevote, same, present⟩
      cases same
      simp [Key.kind, Maps.get, present]

theorem Represents.iterateVotes (represents : Represents codecs flat maps) :
    Visits (fun _ => Keyed.iterateVotes flat) fun vote =>
      maps.votes[(vote.denom, vote.voter)]? = some vote := by
  refine represents.visits_items .vote
    (fun vote => (.vote vote.denom vote.voter, .vote vote)) _ ?_ ?_
    (fun entry => entry.2.asVote) (fun _ _ => rfl)
  · intro first second same
    exact Record.vote.inj (Prod.mk.inj same).2
  · intro key record
    constructor
    · rintro ⟨isVote, stored⟩
      cases key <;> cases isVote
      rcases Option.map_eq_some_iff.mp stored with ⟨vote, present, rfl⟩
      have keyed := Prod.mk.inj (maps.votes_keyed _ _ present)
      rw [← keyed.1, ← keyed.2] at present
      exact ⟨vote, by rw [keyed.1, keyed.2], present⟩
    · rintro ⟨vote, same, present⟩
      cases same
      simp [Key.kind, Maps.get, present]

theorem Represents.getActiveDenoms (represents : Represents codecs flat maps) :
    ∃ denoms : List Denom, denoms.Nodup ∧
      (∀ denom, denom ∈ denoms ↔ ∃ price, maps.prices[denom]? = some price) ∧
      Keyed.getActiveDenoms flat = some denoms := by
  have visits := represents.visits .price
    (fun entry : Denom × Dec => (.price entry.1, .price entry.2))
    (fun entry => maps.prices[entry.1]? = some entry.2) ?_ ?_
    (fun entry => Keyed.readDenom entry.1) Prod.fst (fun entry _ => readDenom_eq entry.1)
  · rcases visits with ⟨entries, distinct, covers, iterates⟩
    refine ⟨entries.map Prod.fst, ?_, ?_, ?_⟩
    · refine distinct.map_on ?_
      intro first firstMem second secondMem same
      have firstStored := (covers first).mp firstMem
      rw [same, (covers second).mp secondMem] at firstStored
      exact Prod.ext same (Option.some.inj firstStored).symm
    · intro denom
      rw [List.mem_map]
      constructor
      · rintro ⟨entry, entryMem, rfl⟩
        exact ⟨entry.2, (covers entry).mp entryMem⟩
      · rintro ⟨price, stored⟩
        exact ⟨(denom, price), (covers _).mpr stored, rfl⟩
    · have iterated := iterates (List Denom) (fun denoms denom => (denoms ++ [denom], false)) []
      rw [Store.visit_of_endless fun denoms denom => denoms ++ [denom],
        List.foldl_append_eq_append, List.nil_append, ← List.flatMap_def,
        List.flatMap_singleton'] at iterated
      exact iterated
  · intro first second same
    rcases Prod.mk.inj same with ⟨sameKey, sameRecord⟩
    exact Prod.ext (Key.price.inj sameKey) (Record.price.inj sameRecord)
  · intro key record
    constructor
    · rintro ⟨isPrice, stored⟩
      cases key <;> cases isPrice
      rcases Option.map_eq_some_iff.mp stored with ⟨price, present, rfl⟩
      exact ⟨(_, price), rfl, present⟩
    · rintro ⟨entry, same, present⟩
      cases same
      simp [Key.kind, Maps.get, present]

theorem Represents.iterateClaimPool (represents : Represents codecs flat maps) :
    Visits (fun _ => Keyed.iterateClaimPool codecs flat) fun claim =>
      maps.claims[claim.1]? = some claim.2 := by
  refine represents.visits_items .claim (fun claim => (.claim claim.1, .weight claim.2)) _ ?_ ?_
    (fun entry => do
      let recipient ← Keyed.readAddress codecs.acc entry.1
      let weight ← entry.2.asWeight
      some (recipient, weight)) ?_
  · intro first second same
    rcases Prod.mk.inj same with ⟨sameKey, sameRecord⟩
    exact Prod.ext (Key.claim.inj sameKey) (Record.weight.inj sameRecord)
  · intro key record
    constructor
    · rintro ⟨isClaim, stored⟩
      cases key <;> cases isClaim
      rcases Option.map_eq_some_iff.mp stored with ⟨weight, present, rfl⟩
      exact ⟨(_, weight), rfl, present⟩
    · rintro ⟨claim, same, present⟩
      cases same
      simp [Key.kind, Maps.get, present]
  · intro claim present
    have addressed : claim.1.length = addrLen :=
      represents.within (.claim claim.1) (.weight claim.2) (by simp [Maps.get, present])
    have noColon : colon ∉ prefixClaim := by decide
    simp only [Key.bytes, Keyed.keyClaim, readAddress_eq noColon addressed]
    rfl

theorem Represents.iterateFeederDelegations (represents : Represents codecs flat maps) :
    Visits (fun _ => Keyed.iterateFeederDelegations codecs flat) fun delegation =>
      maps.feederDelegations[delegation.2]? = some delegation.1 := by
  refine represents.visits_items .feederDelegation
    (fun delegation => (.feederDelegation delegation.2, .delegate delegation.1)) _ ?_ ?_
    (fun entry => do
      let operator ← Keyed.readAddress codecs.val entry.1
      let delegate ← entry.2.asDelegate
      some (delegate, operator)) ?_
  · intro first second same
    rcases Prod.mk.inj same with ⟨sameKey, sameRecord⟩
    exact Prod.ext (Record.delegate.inj sameRecord) (Key.feederDelegation.inj sameKey)
  · intro key record
    constructor
    · rintro ⟨isDelegation, stored⟩
      cases key <;> cases isDelegation
      rcases Option.map_eq_some_iff.mp stored with ⟨delegate, present, rfl⟩
      exact ⟨(delegate, _), rfl, present⟩
    · rintro ⟨delegation, same, present⟩
      cases same
      simp [Key.kind, Maps.get, present]
  · intro delegation present
    have addressed : delegation.2.length = addrLen :=
      represents.within (.feederDelegation delegation.2) (.delegate delegation.1)
        (by simp [Maps.get, present])
    have noColon : colon ∉ prefixFeederDelegation := by decide
    simp only [Key.bytes, Keyed.keyFeederDelegation, readAddress_eq noColon addressed]
    rfl

theorem Represents.visitsExactly (represents : Represents codecs flat maps) :
    VisitsExactly codecs flat maps :=
  ⟨represents.iteratePrevotes, represents.iterateVotes, represents.getActiveDenoms,
    represents.iterateClaimPool, represents.iterateFeederDelegations⟩

end Iterators

section Runs

variable {codecs : Codecs} {flat : Keyed.Flat} {maps : Maps}

/-- A write of one record. -/
def Write.single : Write → Option (Key × Option Record)
  | .addPrevote prevote => some (.prevote prevote.denom prevote.voter, some (.prevote prevote))
  | .deletePrevote prevote => some (.prevote prevote.denom prevote.voter, none)
  | .addVote vote => some (.vote vote.denom vote.voter, some (.vote vote))
  | .deleteVote vote => some (.vote vote.denom vote.voter, none)
  | .setLunaSwapRate denom price => some (.price denom, some (.price price))
  | .deletePrice denom => some (.price denom, none)
  | .setFeedDelegate operator delegatedFeeder =>
      some (.feederDelegation operator, some (.delegate delegatedFeeder))
  | .clearSwapFeePool => some (.swapFeePool, none)
  | _ => none

theorem Maps.get_apply_single {write : Write} {key : Key} {record : Option Record}
    (single : write.single = some (key, record)) (other : Key) :
    (maps.apply write).get other = if key = other then record else maps.get other := by
  cases write <;> cases single <;> cases other <;>
    simp [Maps.apply, Maps.get, Store.get_insert, Store.get_erase] <;> split <;> simp_all

/-- The flat store after a write of one record. -/
def Keyed.put (codecs : Codecs) (flat : Keyed.Flat) (key : Key) : Option Record → Keyed.Flat
  | some record => flat.insert (key.bytes codecs) record
  | none => flat.erase (key.bytes codecs)

theorem Keyed.apply_single {write : Write} {key : Key} {record : Option Record}
    (single : write.single = some (key, record)) :
    Keyed.apply codecs flat write = some (Keyed.put codecs flat key record) := by
  cases write <;> cases single <;> rfl

theorem Write.Addressed.key {write : Write} (addressed : write.Addressed) {key : Key}
    {record : Option Record} (single : write.single = some (key, record)) : key.Addressed := by
  cases write <;> cases single <;> exact addressed

theorem Represents.apply_single (represents : Represents codecs flat maps) {write : Write}
    (addressed : write.Addressed) {key : Key} {record : Option Record}
    (single : write.single = some (key, record)) :
    Represents codecs (Keyed.put codecs flat key record) (maps.apply write) := by
  have afterEq := @Maps.get_apply_single maps write key record single
  cases record with
  | some record => exact represents.insert key (addressed.key single) afterEq
  | none => exact represents.erase key (addressed.key single) afterEq

theorem Represents.addSwapFeePool (represents : Represents codecs flat maps) (fees : Coins) :
    ∃ after, Keyed.addSwapFeePool flat fees = some after ∧
      Represents codecs after (maps.apply (.addSwapFeePool fees)) := by
  have stored : flat[keySwapFeePool]? = maps.swapFeePool.map .pool :=
    represents.get .swapFeePool trivial
  have pool : Keyed.getSwapFeePool flat = some (maps.swapFeePool.getD .empty) := by
    rw [Keyed.getSwapFeePool, stored]
    cases maps.swapFeePool <;> rfl
  have afterEq : ∀ other, (maps.apply (.addSwapFeePool fees)).get other =
      if Key.swapFeePool = other then some (.pool ((maps.swapFeePool.getD .empty).add fees))
      else maps.get other := by
    intro other
    cases other <;> simp [Maps.apply, Maps.get]
  refine ⟨_, by rw [Keyed.addSwapFeePool, pool]; rfl, ?_⟩
  exact represents.insert .swapFeePool trivial afterEq

theorem Represents.addClaim (represents : Represents codecs flat maps) {claim : Claim ℤ}
    (addressed : claim.recipient.length = addrLen) :
    ∃ after, Keyed.addClaim codecs flat claim = some after ∧
      Represents codecs after (maps.addClaim claim) := by
  have stored : flat[Keyed.keyClaim codecs claim.recipient]? =
      maps.claims[claim.recipient]?.map .weight :=
    represents.get (.claim claim.recipient) addressed
  have afterEq : ∀ other, (maps.addClaim claim).get other =
      if Key.claim claim.recipient = other then
        some (.weight (claim.weight + (maps.claims[claim.recipient]?).getD 0))
      else maps.get other := by
    intro other
    cases other <;> simp [Maps.addClaim, Maps.get, Store.get_accumulate]
    split <;> simp_all
  have written := represents.insert (.claim claim.recipient) addressed afterEq
  refine ⟨_, ?_, written⟩
  rw [Keyed.addClaim, stored]
  cases maps.claims[claim.recipient]? with
  | none => simp [Key.bytes]
  | some weight => rfl

theorem Represents.addClaimPool (represents : Represents codecs flat maps)
    {pool : List (Claim ℤ)} (addressed : ∀ claim ∈ pool, claim.recipient.length = addrLen) :
    ∃ after, Keyed.addClaimPool codecs flat pool = some after ∧
      Represents codecs after (maps.apply (.addClaimPool pool)) := by
  simp only [Keyed.addClaimPool, Maps.apply]
  induction pool generalizing flat maps with
  | nil => exact ⟨flat, rfl, represents⟩
  | cons claim pool ih =>
      rcases List.forall_mem_cons.mp addressed with ⟨here, rest⟩
      rcases represents.addClaim here with ⟨next, nextEq, nextRepresents⟩
      rcases ih nextRepresents rest with ⟨after, afterEq, afterRepresents⟩
      refine ⟨after, ?_, afterRepresents⟩
      rw [List.foldlM_cons, nextEq]
      exact afterEq

/-- Deleting claims one by one. -/
theorem Represents.deleteClaims (represents : Represents codecs flat maps)
    {claims : List (Address × ℤ)} (addressed : ∀ claim ∈ claims, claim.1.length = addrLen) :
    Represents codecs
      (claims.foldl (fun flat claim => flat.erase (Keyed.keyClaim codecs claim.1)) flat)
      { maps with claims := Store.eraseAll maps.claims (claims.map Prod.fst) } := by
  induction claims generalizing flat maps with
  | nil => exact represents
  | cons claim claims ih =>
      rcases List.forall_mem_cons.mp addressed with ⟨here, rest⟩
      have afterEq : ∀ other,
          ({ maps with claims := maps.claims.erase claim.1 } : Maps).get other =
            if Key.claim claim.1 = other then none else maps.get other := by
        intro other
        cases other <;> simp [Maps.get, Store.get_erase]
        split <;> simp_all
      have erased := represents.erase (.claim claim.1) here afterEq
      exact ih erased rest

theorem Represents.clearClaimPool (represents : Represents codecs flat maps) :
    ∃ after, Keyed.clearClaimPool codecs flat = some after ∧
      Represents codecs after (maps.apply .clearClaimPool) := by
  rcases represents.iterateClaimPool with ⟨visited, _, entries, iterates⟩
  have addressed : ∀ claim ∈ visited, claim.1.length = addrLen := by
    intro claim claimMem
    exact represents.within (.claim claim.1) (.weight claim.2)
      (by simp [Maps.get, (entries claim).mp claimMem])
  have cleared : Store.eraseAll maps.claims (visited.map Prod.fst) = ∅ := by
    apply Store.ext_get
    intro recipient
    rw [Store.get_eraseAll, Store.get_empty]
    split
    · rfl
    · next unlisted =>
        cases stored : maps.claims[recipient]? with
        | none => rfl
        | some weight =>
            refine absurd ?_ unlisted
            exact List.mem_map.mpr ⟨(recipient, weight), (entries _).mpr stored, rfl⟩
  have deleted := represents.deleteClaims addressed
  rw [cleared] at deleted
  refine ⟨_, ?_, deleted⟩
  have endless := Store.visit_of_endless
    (fun (store : Keyed.Flat) (claim : Address × ℤ) =>
      store.erase (Keyed.keyClaim codecs claim.1)) visited flat
  exact (iterates _ _ flat).trans (congrArg some endless)

theorem Represents.apply (represents : Represents codecs flat maps) {write : Write}
    (addressed : write.Addressed) :
    ∃ after, Keyed.apply codecs flat write = some after ∧
      Represents codecs after (maps.apply write) := by
  cases single : write.single with
  | some target =>
      exact ⟨_, Keyed.apply_single single, represents.apply_single addressed single⟩
  | none =>
      cases write with
      | addSwapFeePool fees => exact represents.addSwapFeePool fees
      | addClaimPool pool => exact represents.addClaimPool addressed
      | clearClaimPool => exact represents.clearClaimPool
      | _ => cases single

theorem Represents.run (represents : Represents codecs flat maps) {writes : List Write}
    (addressed : ∀ write ∈ writes, write.Addressed) :
    ∃ after, writes.foldlM (Keyed.apply codecs) flat = some after ∧
      Represents codecs after (writes.foldl Maps.apply maps) := by
  induction writes generalizing flat maps with
  | nil => exact ⟨flat, rfl, represents⟩
  | cons write writes ih =>
      rcases List.forall_mem_cons.mp addressed with ⟨here, rest⟩
      rcases represents.apply here with ⟨next, nextEq, nextRepresents⟩
      rcases ih nextRepresents rest with ⟨after, afterEq, afterRepresents⟩
      refine ⟨after, ?_, afterRepresents⟩
      rw [List.foldlM_cons, nextEq]
      exact afterEq

end Runs

/-- The keys tell the kinds of records and their fields apart. -/
structure Separated (codecs : Codecs) : Prop where
  injective : Set.InjOn (Key.bytes codecs) {key | key.Addressed}
  kinds : ∀ (kind : Kind) (key : Key), kind.word <+: key.bytes codecs ↔ key.kind = kind
  pool : ∀ key : Key, key.bytes codecs = keySwapFeePool ↔ key = .swapFeePool

theorem separated (codecs : Codecs) : Separated codecs where
  injective := Key.bytes_injOn codecs
  kinds := Key.word_prefix_iff codecs
  pool := by
    intro key
    constructor
    · intro same
      have isPool : key.kind = .swapFeePool := by
        apply (Key.word_prefix_iff codecs .swapFeePool key).mp
        rw [same]
        exact List.prefix_rfl
      cases key <;> cases isPool
      rfl
    · rintro rfl
      rfl

/-- Through any writes the flat store behaves as separate maps: every record is
read under its own key, and the iterators visit their own records. -/
theorem flat_store_separated (codecs : Codecs) (writes : List Write)
    (addressed : ∀ write ∈ writes, write.Addressed) :
    Separated codecs ∧
      ∃ flat, writes.foldlM (Keyed.apply codecs) ∅ = some flat ∧
        (∀ key : Key, key.Addressed →
          flat[key.bytes codecs]? = (writes.foldl Maps.apply .empty).get key) ∧
        VisitsExactly codecs flat (writes.foldl Maps.apply .empty) := by
  refine ⟨separated codecs, ?_⟩
  rcases (represents_empty codecs).run addressed with ⟨flat, flatEq, represents⟩
  exact ⟨flat, flatEq, fun key isAddressed => represents.get key isAddressed,
    represents.visitsExactly⟩

/-- A price of a denomination with a colon, beside a vote and two claims of one account. -/
def sampleWrites : List Write :=
  [.addVote ⟨Dec.one, ascii "price", List.replicate 20 1⟩,
    .setLunaSwapRate (ascii "vote:terra") Dec.one,
    .addClaimPool [⟨3, List.replicate 20 2⟩, ⟨4, List.replicate 20 2⟩],
    .deletePrice (ascii "vote")]

theorem flat_store_separated_sample :
    ∃ flat, sampleWrites.foldlM (Keyed.apply ⟨.account, .validator⟩) ∅ = some flat ∧
      ∃ denoms, Keyed.getActiveDenoms flat = some denoms ∧ ascii "vote:terra" ∈ denoms := by
  have addressed : ∀ write ∈ sampleWrites, write.Addressed := by
    intro write listed
    simp only [sampleWrites, List.mem_cons, List.not_mem_nil, or_false] at listed
    rcases listed with rfl | rfl | rfl | rfl <;> simp [Write.Addressed, addrLen]
  rcases flat_store_separated ⟨.account, .validator⟩ sampleWrites addressed with
    ⟨_, flat, flatEq, _, visits⟩
  rcases visits.activeDenoms with ⟨denoms, _, covers, denomsEq⟩
  refine ⟨flat, flatEq, denoms, denomsEq, ?_⟩
  rw [covers]
  refine ⟨Dec.one, ?_⟩
  decide +kernel

end TerraCore.Oracle
