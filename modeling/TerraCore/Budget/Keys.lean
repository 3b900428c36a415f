import TerraCore.Budget.QueueKeys
import TerraCore.Library.Keyspace

/-!
# Keys of the budget

Programs, votes, the candidate queue, claims and the last program id share one
store, under texts that start with the name of their kind. The keeper reads and
writes this store. It keeps the records of the typed model: each write of the
keeper is the write of the model, and each iterator finds the records of its
kind, in the order of the texts.

A record is decoded as what it was encoded from; decoding another record panics.
-/

namespace TerraCore.Budget

inductive Record where
  | program (program : Program)
  | option (option : Bool)
  | programID (programID : ℕ)
  | weight (weight : ℤ)
deriving DecidableEq

namespace Record

def asProgram : Record → Option Program
  | .program found => some found
  | _ => none

def asOption : Record → Option Bool
  | .option found => some found
  | _ => none

def asProgramID : Record → Option ℕ
  | .programID found => some found
  | _ => none

def asWeight : Record → Option ℤ
  | .weight found => some found
  | _ => none

end Record

namespace Keyed

def prefixProgram : Bytes := ascii "program"

def prefixVote : Bytes := ascii "vote"

def prefixClaim : Bytes := ascii "claim"

def keyNextProgramID : Bytes := ascii "new-program-id"

def keyProgram (programID : ℕ) : Bytes :=
  prefixProgram ++ (ascii ":" ++ Decimal.print programID)

def keyVote (codec : AddressCodec) (programID : ℕ) (voter : Address) : Bytes :=
  prefixVote ++ ascii ":" ++ Decimal.print programID ++ ascii ":" ++ codec.print voter

def keyClaim (codec : AddressCodec) (recipient : Address) : Bytes :=
  prefixClaim ++ (ascii ":" ++ codec.print recipient)

end Keyed

/-- Program ids are kept as records. -/
def recordCodec : Keyed.IDCodec Record where
  marshal := .programID
  unmarshal := Record.asProgramID
  unmarshal_marshal := fun _ _ => rfl

/-- The store of the module and its parameters, which are kept elsewhere. -/
structure Flat where
  params : Params
  store : Store Bytes Record

namespace Flat

variable (codec : AddressCodec) (prefixEndBytes : Bytes → Option Bytes) (flat : Flat)

def insert (key : Bytes) (record : Record) : Flat :=
  { flat with store := flat.store.insert key record }

def erase (key : Bytes) : Flat := { flat with store := flat.store.erase key }

/-- Decode the record under a key, if there is one. -/
def read {τ : Type} (decode : Record → Option τ) (key : Bytes) : Option (Option τ) :=
  match flat.store[key]? with
  | some record => (decode record).map some
  | none => some none

def getVote (programID : ℕ) (voter : Address) : Option (Option Bool) :=
  flat.read Record.asOption (Keyed.keyVote codec programID voter)

def addVote (programID : ℕ) (voter : Address) (option : Bool) : Flat :=
  flat.insert (Keyed.keyVote codec programID voter) (.option option)

def deleteVote (programID : ℕ) (voter : Address) : Flat :=
  flat.erase (Keyed.keyVote codec programID voter)

def deleteVotesForProgram (programID : ℕ) : Flat :=
  (Store.scan flat.store (Keyed.keyVote codec programID [])).foldl
    (fun flat entry => flat.erase entry.1) flat

/-- Program, voter and option of an entry. An entry is skipped when its program
or its voter cannot be parsed; a key of too few fields panics. -/
def readVote (entry : Bytes × Record) : Option (Option (ℕ × Address × Bool)) := do
  let option ← entry.2.asOption
  match entry.1.splitOn colon with
  | _ :: programField :: rest =>
      match Decimal.parseUint programField with
      | none => some none
      | some programID =>
          match rest with
          | voterField :: _ =>
              some ((codec.parse voterField).map fun voter => (programID, voter, option))
          | [] => none
  | _ => none

/-- What `IterateVotesWithPrefix` passes to its handler. -/
def iterateVotesWithPrefix (start : Bytes) : Option (List (ℕ × Address × Bool)) :=
  ((Store.scan flat.store start).mapM (readVote codec)).map List.reduceOption

def newProgramID : Option (ℕ × Flat) := do
  let last ← flat.read Record.asProgramID Keyed.keyNextProgramID
  let programID :=
    match last with
    | some last => last + 1
    | none => 1
  some (programID, flat.insert Keyed.keyNextProgramID (.programID programID))

def getProgram (programID : ℕ) : Option (Option Program) :=
  flat.read Record.asProgram (Keyed.keyProgram programID)

def storeProgram (program : Program) : Flat :=
  flat.insert (Keyed.keyProgram program.programID) (.program program)

def deleteProgram (programID : ℕ) : Flat := flat.erase (Keyed.keyProgram programID)

/-- What `IteratePrograms` decodes. -/
def programs : Option (List Program) :=
  (Store.scan flat.store Keyed.prefixProgram).mapM fun entry => entry.2.asProgram

def candQueueInsert (endBlock : ℤ) (programID : ℕ) : Flat :=
  { flat with store := Keyed.candQueueInsert recordCodec flat.store endBlock programID }

def candQueueHas (endBlock : ℤ) (programID : ℕ) : Bool :=
  Keyed.candQueueHas flat.store endBlock programID

def candQueueRemove (endBlock : ℤ) (programID : ℕ) : Flat :=
  { flat with store := Keyed.candQueueRemove flat.store endBlock programID }

/-- What `CandQueueIterate` passes to its handler. -/
def candQueueIterate : Option (List ℕ) :=
  (Store.scan flat.store Keyed.prefixCandQueue).mapM fun entry => entry.2.asProgramID

/-- What `CandQueueIterateExpired` passes to its handler. -/
def candQueueIterateExpired (endBlock : ℤ) : Option (List ℕ) :=
  Keyed.candQueueIterateExpired recordCodec prefixEndBytes flat.store endBlock
    (fun programIDs programID => (programIDs ++ [programID], false)) []

/-- Recipient and weight of an entry; a parse error is ignored. -/
def readClaim (entry : Bytes × Record) : Option (Address × ℤ) :=
  match entry.1.splitOn colon with
  | _ :: recipientAddress :: _ => do
      let weight ← entry.2.asWeight
      some ((codec.parse recipientAddress).getD [], weight)
  | _ => none

/-- What `iterateClaimPool` passes to its handler. -/
def iterateClaimPool : Option (List (Address × ℤ)) :=
  (Store.scan flat.store Keyed.prefixClaim).mapM (readClaim codec)

/-- The body of the loop of `addClaimPool`. -/
def addClaim (claim : Claim ℤ) : Option Flat := do
  let prevWeight ← flat.read Record.asWeight (Keyed.keyClaim codec claim.recipient)
  let weight :=
    match prevWeight with
    | some prevWeight => claim.weight + prevWeight
    | none => claim.weight
  some (flat.insert (Keyed.keyClaim codec claim.recipient) (.weight weight))

def addClaimPool (pool : List (Claim ℤ)) : Option Flat := pool.foldlM (addClaim codec) flat

def clearClaimPool : Option Flat := do
  let claims ← flat.iterateClaimPool codec
  some (claims.foldl (fun flat claim => flat.erase (Keyed.keyClaim codec claim.1)) flat)

end Flat

section VoteKeys

variable (codec : AddressCodec)

theorem keyVote_eq (programID : ℕ) (voter : Address) :
    Keyed.keyVote codec programID voter =
      (Keyed.prefixVote ++ [colon]) ++
        (Decimal.print programID ++ colon :: codec.print voter) := by
  simp [Keyed.keyVote, ascii_colon]

theorem keyVote_eq_iff {first second : ℕ × Address} :
    Keyed.keyVote codec first.1 first.2 = Keyed.keyVote codec second.1 second.2 ↔
      first.1 = second.1 ∧ codec.print first.2 = codec.print second.2 := by
  constructor
  · intro same
    simp only [keyVote_eq] at same
    rcases Separator.first_unique (colon_not_mem_print _) (colon_not_mem_print _)
      (List.append_cancel_left same) with ⟨programEq, voterEq⟩
    exact ⟨Decimal.print_injective programEq, voterEq⟩
  · rintro ⟨programEq, voterEq⟩
    rw [Keyed.keyVote, Keyed.keyVote, programEq, voterEq]

theorem keyVote_injOn :
    Set.InjOn (fun key : ℕ × Address => Keyed.keyVote codec key.1 key.2)
      {key | key.2.length = addrLen} := by
  intro first addressed second addressed' same
  rcases (keyVote_eq_iff codec).mp same with ⟨programEq, voterEq⟩
  exact Prod.ext programEq (codec.printed.injective addressed addressed' voterEq)

/-- The keys that start like those of a program are those of the program. -/
theorem keyVote_prefix_iff (programID other : ℕ) {voter : Address}
    (noColon : colon ∉ codec.print voter) :
    Keyed.keyVote codec programID [] <+: Keyed.keyVote codec other voter ↔ programID = other := by
  have noField : ¬Decimal.print programID ++ [colon] <+: Decimal.print other := by
    intro starts
    exact colon_not_mem_print other (starts.subset (by simp))
  rw [keyVote_eq, keyVote_eq, List.prefix_append_right_inj, codec.printed.nil,
    Separator.prefix_iff List.not_mem_nil noColon]
  simp [noField, Decimal.print_injective.eq_iff]

/-- The fields of a key are read back from it. -/
theorem readVote_keyVote {programID : ℕ} (bound : programID < 2 ^ 64) {voter : Address}
    (noColon : colon ∉ codec.print voter) (option : Bool) :
    Flat.readVote codec (Keyed.keyVote codec programID voter, .option option) =
      some ((codec.parse (codec.print voter)).map fun voter => (programID, voter, option)) := by
  have joined : Keyed.keyVote codec programID voter = [colon].intercalate
      [Keyed.prefixVote, Decimal.print programID, codec.print voter] := by
    simp [Keyed.keyVote, ascii_colon, List.intercalate]
  have fields : (Keyed.keyVote codec programID voter).splitOn colon =
      [Keyed.prefixVote, Decimal.print programID, codec.print voter] := by
    rw [joined]
    apply List.splitOn_intercalate
    · intro field listed
      simp only [List.mem_cons, List.not_mem_nil, or_false] at listed
      rcases listed with rfl | rfl | rfl
      · decide
      · exact colon_not_mem_print programID
      · exact noColon
    · simp
  simp [Flat.readVote, Record.asOption, fields, Decimal.parseUint_print bound]

theorem prefixVote_starts (programID : ℕ) (voter : Address) :
    Keyed.prefixVote <+: Keyed.keyVote codec programID voter := by
  simp [Keyed.keyVote]

end VoteKeys

inductive Kind where
  | program | vote | candidate | claim | nextProgramID
deriving DecidableEq

/-- The word that the keys of a kind start with. -/
def Kind.word : Kind → Bytes
  | program => Keyed.prefixProgram
  | vote => Keyed.prefixVote
  | candidate => Keyed.prefixCandQueue
  | claim => Keyed.prefixClaim
  | nextProgramID => Keyed.keyNextProgramID

inductive Key where
  | program (programID : ℕ)
  | vote (programID : ℕ) (voter : Address)
  | candidate (endBlock : ℤ) (programID : ℕ)
  | claim (recipient : Address)
  | nextProgramID
deriving DecidableEq

namespace Key

def kind : Key → Kind
  | program _ => .program
  | vote .. => .vote
  | candidate .. => .candidate
  | claim _ => .claim
  | nextProgramID => .nextProgramID

/-- Addresses have `addrLen` bytes, and numbers are those of the code. -/
def Sound : Key → Prop
  | vote programID voter => programID < 2 ^ 64 ∧ voter.length = addrLen
  | candidate endBlock programID => Queueable (endBlock, programID)
  | claim recipient => recipient.length = addrLen
  | _ => True

variable (codec : AddressCodec)

def bytes : Key → Bytes
  | program programID => Keyed.keyProgram programID
  | vote programID voter => Keyed.keyVote codec programID voter
  | candidate endBlock programID => Keyed.keyCandidate endBlock programID
  | claim recipient => Keyed.keyClaim codec recipient
  | nextProgramID => Keyed.keyNextProgramID

theorem word_prefix_bytes (key : Key) : key.kind.word <+: key.bytes codec := by
  cases key with
  | candidate endBlock programID => exact prefixCandQueue_starts endBlock programID
  | _ => simp [kind, Kind.word, bytes, Keyed.keyProgram, Keyed.keyVote, Keyed.keyClaim]

theorem kind_of_word_starts {kind kind' : Kind} (starts : kind.word <+: kind'.word) :
    kind = kind' := by
  revert starts
  cases kind <;> cases kind' <;> decide

/-- The keys that start with the word of a kind are those of the kind. -/
theorem starts_iff (kind : Kind) (key : Key) :
    kind.word <+: key.bytes codec ↔ key.kind = kind := by
  constructor
  · intro starts
    rcases List.prefix_or_prefix_of_prefix starts (word_prefix_bytes codec key) with
      shorter | longer
    · exact (kind_of_word_starts shorter).symm
    · exact kind_of_word_starts longer
  · rintro rfl
    exact word_prefix_bytes codec key

theorem kind_eq_of_bytes_eq {first second : Key}
    (same : first.bytes codec = second.bytes codec) : first.kind = second.kind := by
  have starts := word_prefix_bytes codec first
  rw [same] at starts
  exact ((starts_iff codec first.kind second).mp starts).symm

/-- Sound keys are the same only when they have the same fields. -/
theorem bytes_sound_injOn : Set.InjOn (bytes codec) {key | key.Sound} := by
  intro first sound second sound' same
  have sameKind := kind_eq_of_bytes_eq codec same
  cases first with
  | program programID =>
      cases second with
      | program other =>
          have printed := List.append_cancel_left (List.append_cancel_left same)
          exact congrArg program (Decimal.print_injective printed)
      | _ => cases sameKind
  | vote programID voter =>
      cases second with
      | vote other voter' =>
          have fields : (programID, voter) = (other, voter') :=
            keyVote_injOn codec sound.2 sound'.2 same
          rw [(Prod.mk.inj fields).1, (Prod.mk.inj fields).2]
      | _ => cases sameKind
  | candidate endBlock programID =>
      cases second with
      | candidate endBlock' other =>
          have fields : (endBlock, programID) = (endBlock', other) :=
            keyCandidate_injOn sound sound' same
          rw [(Prod.mk.inj fields).1, (Prod.mk.inj fields).2]
      | _ => cases sameKind
  | claim recipient =>
      cases second with
      | claim other =>
          have printed := List.append_cancel_left (List.append_cancel_left same)
          exact congrArg claim (codec.printed.injective sound sound' printed)
      | _ => cases sameKind
  | nextProgramID =>
      cases second with
      | nextProgramID => rfl
      | _ => cases sameKind

end Key

/-- The record under a key. -/
def contents (store : BudgetStore) : Key → Option Record
  | .program programID => store.programs[programID]?.map .program
  | .vote programID voter => store.votes[(programID, voter)]?.map .option
  | .candidate endBlock programID => store.candQueue[(endBlock, programID)]?.map .programID
  | .claim recipient => store.claims[recipient]?.map .weight
  | .nextProgramID => store.nextProgramID.map .programID

/-- The entries of the flat store are the records of the model under their keys. -/
structure Keeps (codec : AddressCodec) (flat : Flat) (store : BudgetStore) : Prop where
  params : flat.params = store.params
  records : Store.Holds {key | key.Sound} (Key.bytes codec) (fun _ => True) flat.store
    (contents store)

section Writes

variable {codec : AddressCodec} {flat : Flat} {store after : BudgetStore}

theorem keeps_initial (codec : AddressCodec) (params : Params) :
    Keeps codec ⟨params, ∅⟩ (BudgetStore.initial params) where
  params := rfl
  records :=
    { within := by
        intro key record present
        cases key <;> simp [contents, BudgetStore.initial] at present
      entries := by
        intro text record _
        constructor
        · intro present
          simp at present
        · rintro ⟨key, _, present⟩
          cases key <;> simp [contents, BudgetStore.initial] at present }

theorem Keeps.get (keeps : Keeps codec flat store) (key : Key) (sound : key.Sound) :
    flat.store[key.bytes codec]? = contents store key :=
  keeps.records.get (Key.bytes_sound_injOn codec) (show key ∈ {key | key.Sound} from sound) trivial

theorem Keeps.insert (keeps : Keeps codec flat store) (key : Key) (sound : key.Sound)
    {record : Record} (sameParams : after.params = store.params)
    (afterEq : ∀ other,
      contents after other = if key = other then some record else contents store other) :
    Keeps codec (flat.insert (key.bytes codec) record) after where
  params := keeps.params.trans sameParams.symm
  records := by
    have inserted := keeps.records.insert (Key.bytes_sound_injOn codec)
      (show key ∈ {key | key.Sound} from sound) afterEq
    exact inserted

theorem Keeps.erase (keeps : Keeps codec flat store) (key : Key) (sound : key.Sound)
    (sameParams : after.params = store.params)
    (afterEq : ∀ other, contents after other = if key = other then none else contents store other) :
    Keeps codec (flat.erase (key.bytes codec)) after where
  params := keeps.params.trans sameParams.symm
  records := by
    have erased := keeps.records.erase (Key.bytes_sound_injOn codec)
      (show key ∈ {key | key.Sound} from sound) afterEq
    exact erased

theorem Keeps.read (keeps : Keeps codec flat store) {τ : Type} {decode : Record → Option τ}
    (encode : τ → Record) (key : Key) (sound : key.Sound) {found : Option τ}
    (decodes : ∀ value, decode (encode value) = some value)
    (stored : contents store key = found.map encode) :
    flat.read decode (key.bytes codec) = some found := by
  rw [Flat.read, keeps.get key sound, stored]
  cases found with
  | none => rfl
  | some value => simp [decodes]

theorem Keeps.getVote (keeps : Keeps codec flat store) {programID : ℕ} {voter : Address}
    (sound : (Key.vote programID voter).Sound) :
    flat.getVote codec programID voter = some store.votes[(programID, voter)]? :=
  keeps.read .option (.vote programID voter) sound (fun _ => rfl) rfl

theorem Keeps.addVote (keeps : Keeps codec flat store) {programID : ℕ} {voter : Address}
    (sound : (Key.vote programID voter).Sound) (option : Bool) :
    Keeps codec (flat.addVote codec programID voter option)
      (store.addVote programID voter option) := by
  apply keeps.insert (.vote programID voter) sound
  · rfl
  · intro other
    cases other with
    | vote programID' voter' =>
        simp only [contents, BudgetStore.get_addVote, Key.vote.injEq, Prod.mk.injEq]
        split <;> rfl
    | _ => rfl

theorem Keeps.deleteVote (keeps : Keeps codec flat store) {programID : ℕ} {voter : Address}
    (sound : (Key.vote programID voter).Sound) :
    Keeps codec (flat.deleteVote codec programID voter) (store.deleteVote programID voter) := by
  apply keeps.erase (.vote programID voter) sound
  · rfl
  · intro other
    cases other with
    | vote programID' voter' =>
        simp only [contents, BudgetStore.deleteVote, Store.get_erase, Key.vote.injEq, Prod.mk.injEq]
        split <;> rfl
    | _ => rfl

theorem Keeps.getProgram (keeps : Keeps codec flat store) (programID : ℕ) :
    flat.getProgram programID = some store.programs[programID]? :=
  keeps.read .program (.program programID) trivial (fun _ => rfl) rfl

theorem Keeps.storeProgram (keeps : Keeps codec flat store) (program : Program) :
    Keeps codec (flat.storeProgram program) (store.storeProgram program) := by
  apply keeps.insert (.program program.programID) trivial
  · rfl
  · intro other
    cases other with
    | program programID =>
        simp only [contents, BudgetStore.get_storeProgram, Key.program.injEq]
        split <;> rfl
    | _ => rfl

theorem Keeps.deleteProgram (keeps : Keeps codec flat store) (programID : ℕ) :
    Keeps codec (flat.deleteProgram programID) (store.deleteProgram programID) := by
  apply keeps.erase (.program programID) trivial
  · rfl
  · intro other
    cases other with
    | program programID' =>
        simp only [contents, BudgetStore.get_deleteProgram, Key.program.injEq]
        split <;> rfl
    | _ => rfl

theorem Keeps.newProgramID (keeps : Keeps codec flat store) :
    ∃ after, flat.newProgramID = some (store.newProgramID.1, after) ∧
      Keeps codec after store.newProgramID.2 := by
  have last : flat.read Record.asProgramID Keyed.keyNextProgramID = some store.nextProgramID :=
    keeps.read .programID .nextProgramID trivial (fun _ => rfl) rfl
  refine ⟨flat.insert Keyed.keyNextProgramID (.programID store.newProgramID.1), ?_, ?_⟩
  · rw [Flat.newProgramID, last]
    rfl
  · apply keeps.insert .nextProgramID trivial
    · rfl
    · intro other
      cases other <;> simp [contents, BudgetStore.newProgramID]

/-- The flat store has a section for the queue. -/
theorem Keeps.represents (keeps : Keeps codec flat store) :
    Represents recordCodec flat.store store where
  within := by
    intro candidate record isQueued
    exact keeps.records.within (.candidate candidate.1 candidate.2) record isQueued
  entries := by
    intro text record starts
    rw [keeps.records.entries text record trivial]
    constructor
    · rintro ⟨key, rfl, stored⟩
      have isKind := (Key.starts_iff codec .candidate key).mp starts
      cases key <;> cases isKind
      exact ⟨(_, _), rfl, stored⟩
    · rintro ⟨candidate, rfl, isQueued⟩
      exact ⟨.candidate candidate.1 candidate.2, rfl, isQueued⟩

theorem Keeps.candQueueInsert (keeps : Keeps codec flat store) {endBlock : ℤ} {programID : ℕ}
    (queueable : Queueable (endBlock, programID)) :
    Keeps codec (flat.candQueueInsert endBlock programID)
      (store.candQueueInsert endBlock programID) := by
  apply keeps.insert (.candidate endBlock programID) queueable
  · rfl
  · intro other
    cases other with
    | candidate endBlock' programID' =>
        simp only [contents, BudgetStore.get_candQueueInsert, Key.candidate.injEq, Prod.mk.injEq]
        split <;> rfl
    | _ => rfl

theorem Keeps.candQueueRemove (keeps : Keeps codec flat store) {endBlock : ℤ} {programID : ℕ}
    (queueable : Queueable (endBlock, programID)) :
    Keeps codec (flat.candQueueRemove endBlock programID)
      (store.candQueueRemove endBlock programID) := by
  apply keeps.erase (.candidate endBlock programID) queueable
  · rfl
  · intro other
    cases other with
    | candidate endBlock' programID' =>
        simp only [contents, BudgetStore.get_candQueueRemove, Key.candidate.injEq, Prod.mk.injEq]
        split <;> rfl
    | _ => rfl

theorem Keeps.candQueueHas (keeps : Keeps codec flat store) {endBlock : ℤ} {programID : ℕ}
    (queueable : Queueable (endBlock, programID)) :
    flat.candQueueHas endBlock programID = store.candQueueHas endBlock programID :=
  keeps.represents.candQueueHas queueable

theorem Keeps.addClaim (keeps : Keeps codec flat store) {claim : Claim ℤ}
    (addressed : claim.recipient.length = addrLen) :
    ∃ after, flat.addClaim codec claim = some after ∧
      Keeps codec after (store.addClaimPool [claim]) := by
  have previous : flat.read Record.asWeight (Keyed.keyClaim codec claim.recipient) =
      some store.claims[claim.recipient]? :=
    keeps.read .weight (.claim claim.recipient) addressed (fun _ => rfl) rfl
  refine ⟨_, by rw [Flat.addClaim, previous]; rfl, ?_⟩
  apply keeps.insert (.claim claim.recipient) addressed
  · rfl
  · intro other
    cases other with
    | claim recipient =>
        simp only [contents, BudgetStore.addClaimPool, addClaims, List.map_cons, List.map_nil,
          Store.accumulateAll_cons, Key.claim.injEq]
        rw [Store.accumulateAll, List.foldl_nil, Store.accumulate, Store.get_insert]
        split
        · cases store.claims[claim.recipient]? <;> rfl
        · rfl
    | _ => rfl

theorem Keeps.addClaimPool (keeps : Keeps codec flat store) {pool : List (Claim ℤ)}
    (addressed : ∀ claim ∈ pool, claim.recipient.length = addrLen) :
    ∃ after, flat.addClaimPool codec pool = some after ∧
      Keeps codec after (store.addClaimPool pool) := by
  induction pool generalizing flat store with
  | nil => exact ⟨flat, rfl, keeps⟩
  | cons claim pool ih =>
      rcases List.forall_mem_cons.mp addressed with ⟨here, rest⟩
      rcases keeps.addClaim here with ⟨middle, added, keepsMiddle⟩
      rcases ih keepsMiddle rest with ⟨final, others, keepsFinal⟩
      refine ⟨final, ?_, keepsFinal⟩
      simp only [Flat.addClaimPool, List.foldlM_cons, added] at others ⊢
      exact others

end Writes

end TerraCore.Budget
