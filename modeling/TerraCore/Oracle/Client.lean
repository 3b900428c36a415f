import TerraCore.Oracle.Participant

/-!
# Clients of the oracle

A vote is prepared in two steps, by two commands or by two requests: the first
sends the hash of salt, price, denomination and validator, in hexadecimal digits,
and the second one reveals what was hashed. A client that prepared both from the
same data is never locked out. If its prevote was accepted, the vote is accepted
exactly in the next vote period, whatever the other participants do.
-/

namespace TerraCore.Oracle

open Transition

/-- The lower-case digit of a value below sixteen. -/
def toHexChar (value : UInt8) : UInt8 := if value < 10 then value + 48 else value + 87

/-- `hex.EncodeToString` -/
def encodeToString : Bytes → Bytes
  | [] => []
  | byte :: rest => toHexChar (byte / 16) :: toHexChar (byte % 16) :: encodeToString rest

theorem fromHexChar_toHexChar (byte : UInt8) :
    fromHexChar (toHexChar (byte / 16)) = some (byte / 16) ∧
      fromHexChar (toHexChar (byte % 16)) = some (byte % 16) ∧ byte / 16 * 16 + byte % 16 = byte := by
  revert byte
  decide +kernel

theorem decodeString_encodeToString (bytes : Bytes) :
    decodeString (encodeToString bytes) = (bytes, true) := by
  induction bytes with
  | nil => rfl
  | cons byte bytes ih =>
      rcases fromHexChar_toHexChar byte with ⟨high, low, halves⟩
      simp only [encodeToString, decodeString, high, low, ih, halves]

/-- What a client reports instead of sending a message. -/
inductive ClientError where
  | hashOrPriceMissing
  | invalidValidator
  | invalidPrice
  | rejected (failure : Failure)
deriving DecidableEq

/-- The flags of a command; one that is not set is empty. -/
structure Flags where
  denom : Denom
  price : Bytes
  hash : Bytes
  salt : Bytes
  validator : Bytes
deriving DecidableEq

/-- `PrevoteReq` and `VoteReq`, whose price has been read as a decimal. -/
structure Request where
  price : Dec
  hash : Bytes
  salt : Bytes
  validator : Bytes
deriving DecidableEq

/-- A message that does not pass its stateless checks is not sent. -/
def checked {α : Type} (validateBasic : Outcome Unit) (msg : α) : Except ClientError α :=
  match validateBasic with
  | .ok () => .ok msg
  | .error failure => .error (.rejected failure)

theorem checked_eq_ok {α : Type} {validateBasic : Outcome Unit} {msg sent : α} :
    checked validateBasic msg = .ok sent ↔ validateBasic = .ok () ∧ sent = msg := by
  cases validateBasic with
  | ok done => simp [checked, eq_comm]
  | error failure => simp [checked]

section Commands

-- `sdk.ValAddressFromBech32` and `sdk.NewDecFromStr`
variable (valAddressFromBech32 : Bytes → Option Address)
variable (newDecFromStr : Bytes → Option Dec)

/-- By default the voter is voting on behalf of itself. -/
def onBehalfOf (voter : Address) (validator : Bytes) : Except ClientError Address :=
  if validator = [] then .ok voter
  else
    match valAddressFromBech32 validator with
    | some parsed => .ok parsed
    | none => .error .invalidValidator

/-- `terracli tx oracle prevote` -/
def getCmdPricePrevote (L : Type) [Sdk L] (voter : Address) (flags : Flags) :
    Except ClientError MsgPricePrevote :=
  if flags.hash = [] ∧ ¬(flags.price ≠ [] ∧ flags.salt ≠ []) then .error .hashOrPriceMissing
  else do
    let validator ← onBehalfOf valAddressFromBech32 voter flags.validator
    let hash ←
      if flags.hash = [] then
        match newDecFromStr flags.price with
        | some price => .ok (encodeToString (voteHash L flags.salt price flags.denom validator))
        | none => .error .invalidPrice
      else .ok flags.hash
    let msg : MsgPricePrevote := { hash, denom := flags.denom, feeder := voter, validator }
    checked msg.validateBasic msg

/-- `terracli tx oracle vote` -/
def getCmdPriceVote (voter : Address) (flags : Flags) : Except ClientError MsgPriceVote := do
  let validator ← onBehalfOf valAddressFromBech32 voter flags.validator
  let price ←
    if flags.price = [] then .ok Dec.zero
    else
      match newDecFromStr flags.price with
      | some price => .ok price
      | none => .error .invalidPrice
  let msg : MsgPriceVote :=
    { price, salt := flags.salt, denom := flags.denom, feeder := voter, validator }
  checked msg.validateBasic msg

/-- The request for a prevote. Without hash, price or salt the hash stays empty,
which the stateless check refuses. -/
def submitPrevote (L : Type) [Sdk L] (fromAddress : Address) (denom : Denom) (req : Request) :
    Except ClientError MsgPricePrevote := do
  let validator ← onBehalfOf valAddressFromBech32 fromAddress req.validator
  let hash :=
    if req.hash = [] ∧ (req.price ≠ Dec.zero ∧ req.salt ≠ []) then
      encodeToString (voteHash L req.salt req.price denom validator)
    else req.hash
  let msg : MsgPricePrevote := { hash, denom, feeder := fromAddress, validator }
  checked msg.validateBasic msg

/-- The request for a vote. -/
def submitVote (fromAddress : Address) (denom : Denom) (req : Request) :
    Except ClientError MsgPriceVote := do
  let validator ← onBehalfOf valAddressFromBech32 fromAddress req.validator
  let msg : MsgPriceVote :=
    { price := req.price, salt := req.salt, denom, feeder := fromAddress, validator }
  checked msg.validateBasic msg

/-- The two messages that a client prepares for one vote, from the same data and
without a hash of its own. -/
inductive Prepared (L : Type) [Sdk L] : MsgPricePrevote → MsgPriceVote → Prop where
  | commands {voter : Address} {flags : Flags} {prevote : MsgPricePrevote} {vote : MsgPriceVote}
      (noHash : flags.hash = [])
      (commits : getCmdPricePrevote valAddressFromBech32 newDecFromStr L voter flags = .ok prevote)
      (reveals : getCmdPriceVote valAddressFromBech32 newDecFromStr voter flags = .ok vote) :
      Prepared L prevote vote
  | requests {fromAddress : Address} {denom : Denom} {req : Request} {prevote : MsgPricePrevote}
      {vote : MsgPriceVote} (noHash : req.hash = [])
      (commits : submitPrevote valAddressFromBech32 L fromAddress denom req = .ok prevote)
      (reveals : submitVote valAddressFromBech32 fromAddress denom req = .ok vote) :
      Prepared L prevote vote

/-- The prevote names what the vote reveals. -/
structure Reveals (L : Type) [Sdk L] (prevote : MsgPricePrevote) (vote : MsgPriceVote) : Prop where
  valid : vote.validateBasic = .ok ()
  denom : prevote.denom = vote.denom
  validator : prevote.validator = vote.validator
  hash : (decodeString prevote.hash).1 =
    voteHash L vote.salt vote.price vote.denom vote.validator

variable {valAddressFromBech32 newDecFromStr}
variable {L : Type} [Sdk L]

theorem Prepared.reveals {prevote : MsgPricePrevote} {vote : MsgPriceVote}
    (prepared : Prepared valAddressFromBech32 newDecFromStr L prevote vote) :
    Reveals L prevote vote := by
  cases prepared with
  | @commands voter flags _ _ noHash commits reveals =>
      simp only [getCmdPricePrevote, noHash, true_and, if_true] at commits
      split at commits
      · cases commits
      · next given =>
          have priceGiven : flags.price ≠ [] := (not_not.mp given).1
          simp only [getCmdPriceVote, if_neg priceGiven] at reveals
          cases behalf : onBehalfOf valAddressFromBech32 voter flags.validator with
          | error error =>
              rw [behalf] at commits
              cases commits
          | ok validator =>
              cases parsed : newDecFromStr flags.price with
              | none =>
                  simp only [behalf, parsed, bind, Except.bind] at commits
                  cases commits
              | some price =>
                  simp only [behalf, parsed, bind, Except.bind] at commits reveals
                  rcases checked_eq_ok.mp commits with ⟨-, rfl⟩
                  rcases checked_eq_ok.mp reveals with ⟨valid, rfl⟩
                  exact ⟨valid, rfl, rfl, by rw [decodeString_encodeToString]⟩
  | @requests fromAddress denom req _ _ noHash commits reveals =>
      simp only [submitPrevote, submitVote, noHash, true_and] at commits reveals
      cases behalf : onBehalfOf valAddressFromBech32 fromAddress req.validator with
      | error error =>
          rw [behalf] at commits
          cases commits
      | ok validator =>
          simp only [behalf, bind, Except.bind] at commits reveals
          rcases checked_eq_ok.mp commits with ⟨committed, rfl⟩
          rcases checked_eq_ok.mp reveals with ⟨valid, rfl⟩
          rcases MsgPriceVote.validateBasic_eq_ok.mp valid with ⟨-, -, -, positive, salted, -⟩
          -- A vote that passes its check has a price and a salt, so the hash is computed.
          have given : req.price ≠ Dec.zero ∧ req.salt ≠ [] := by
            refine ⟨?_, ?_⟩
            · intro isZero
              simp [isZero, Dec.zero] at positive
            · intro empty
              simp [empty] at salted
          exact ⟨valid, rfl, rfl, by simp only [if_pos given, decodeString_encodeToString]⟩

end Commands

variable {L : Type} [Sdk L]

/-- Nobody replaces or reveals the prevote. -/
def Undisturbed (denom : Denom) (validator : Address) (state : Context L) (action : Action L) :
    Prop :=
  ¬StoresPrevote denom validator state action ∧ ¬RevealsPrevote denom validator state action

/-- A prevote that is left alone is dropped at the end of a period only. -/
theorem step_prevote_kept {ctx next : Context L} {action : Action L} {prevote : PricePrevote}
    (taken : step ctx action = some next)
    (present : ctx.oracle.prevotes[(prevote.denom, prevote.voter)]? = some prevote)
    (undisturbed : Undisturbed prevote.denom prevote.voter ctx action)
    (spared : ∀ order, action = .endBlock order → ctx.LastBlock ctx.oracle.params.votePeriod →
      (ctx.height : ℤ) ≤ prevote.submitBlock + ctx.oracle.params.votePeriod) :
    next.oracle.prevotes[(prevote.denom, prevote.voter)]? = some prevote := by
  cases step_effect taken with
  | kept _ keeps => rw [keeps.prevotes, present]
  | @prevoted msg _ accepted _ _ nextEq =>
      rcases accepted with ⟨result, done⟩
      have different : (msg.denom, msg.validator) ≠ (prevote.denom, prevote.voter) := by
        intro same
        rcases Prod.mk.inj same with ⟨denomEq, validatorEq⟩
        exact undisturbed.1 ⟨msg, rfl, denomEq, validatorEq, _, done⟩
      rw [nextEq]
      exact ((Store.get_insert ..).trans (if_neg different)).trans present
  | @voted msg _ other accepted found _ _ _ nextEq =>
      rcases accepted with ⟨result, done⟩
      have different : (prevote.denom, prevote.voter) ∉ [(other.denom, other.voter)] := by
        rw [List.mem_singleton, ctx.oracle.prevotes_keyed _ _ found]
        intro same
        rcases Prod.mk.inj same with ⟨denomEq, validatorEq⟩
        exact undisturbed.2 ⟨msg, rfl, denomEq.symm, validatorEq.symm, _, done⟩
      rw [nextEq]
      exact ((Store.get_eraseAll ..).trans (if_neg different)).trans present
  | ended _ _ oracleEq => rw [oracleEq, present]
  | periodEnded _ last _ _ _ =>
      exact (periodEnd_prevotes taken last _ prevote).mpr ⟨present, spared _ rfl last⟩

omit [Sdk L] in
/-- Before the period after the one of the prevote has ended, the end of a period spares it. -/
theorem spared_of_lastBlock {ctx : Context L} {votePeriod submitBlock : ℤ}
    (positive : 0 < votePeriod) (last : ctx.LastBlock votePeriod)
    (early : (ctx.height : ℤ) + 1 < (submitBlock / votePeriod + 2) * votePeriod) :
    (ctx.height : ℤ) ≤ submitBlock + votePeriod := by
  rcases Int.dvd_of_tmod_eq_zero last with ⟨periods, heightEq⟩
  have ratio := Int.ediv_mul_le submitBlock positive.ne'
  rw [heightEq, mul_comm] at early
  have fewer := lt_of_mul_lt_mul_right early positive.le
  have most : votePeriod * periods ≤ (submitBlock / votePeriod + 1) * votePeriod := by
    rw [mul_comm]
    exact mul_le_mul_of_nonneg_right (by omega) positive.le
  rw [add_mul, one_mul] at most
  omega

/-- While a prevote is left alone, no other one is stored in its place, and it
is there until the end of the period after the one in which it was submitted. -/
theorem undisturbed_prevote {start later : Context L} {actions : List (Action L)}
    {prevote : PricePrevote} (positive : 0 < start.oracle.params.votePeriod)
    (stored : start.oracle.prevotes[(prevote.denom, prevote.voter)]? = some prevote)
    (reached : Reaches step start actions later)
    (undisturbed : Along step (Undisturbed prevote.denom prevote.voter) start actions) :
    later.oracle.params.votePeriod = start.oracle.params.votePeriod ∧
      (∀ found, later.oracle.prevotes[(prevote.denom, prevote.voter)]? = some found →
        found = prevote) ∧
      ((later.height : ℤ) < (prevote.submitBlock / start.oracle.params.votePeriod + 2) *
          start.oracle.params.votePeriod →
        later.oracle.prevotes[(prevote.denom, prevote.voter)]? = some prevote) := by
  have invariant := reached.invariant_of_along (fun state =>
    state.oracle.params.votePeriod = start.oracle.params.votePeriod ∧
      (∀ found, state.oracle.prevotes[(prevote.denom, prevote.voter)]? = some found →
        found = prevote) ∧
      ((state.height : ℤ) < (prevote.submitBlock / start.oracle.params.votePeriod + 2) *
          start.oracle.params.votePeriod →
        state.oracle.prevotes[(prevote.denom, prevote.voter)]? = some prevote)) ?_ undisturbed
    ⟨rfl, fun found present => Option.some.inj (present.symm.trans stored),
      fun _ => stored⟩
  · exact invariant
  rintro before action after ⟨period, only, early⟩ untouched taken
  have grows : (before.height : ℤ) ≤ after.height := by exact_mod_cast step_height taken
  refine ⟨(step_votePeriod taken).trans period, ?_, ?_⟩
  · intro found present
    rcases step_prevote_cases taken present with ⟨msg, rfl, foundEq, ⟨result, done⟩, -⟩ | ⟨had, -⟩
    · -- The message would have replaced the prevote.
      have keyed := after.oracle.prevotes_keyed _ _ present
      rw [foundEq, Prod.mk.injEq] at keyed
      exact absurd ⟨msg, rfl, keyed.1, keyed.2, _, done⟩ untouched.1
    · exact only found had
  · intro stillEarly
    refine step_prevote_kept taken (early (by omega)) untouched ?_
    rintro order rfl last
    have next := (endBlock_cases taken).1
    rw [period] at last ⊢
    exact spared_of_lastBlock positive last (by omega)

/-- A prevote that a client prepared, and that was accepted, is opened by the vote
that the client prepared with it exactly in the next vote period, as long as the
validator stays in the validator set, the sender stays permitted, and nobody who
may act for the validator replaces or reveals the prevote. -/
theorem prepared_vote_accepted_iff {valAddressFromBech32 : Bytes → Option Address}
    {newDecFromStr : Bytes → Option Dec} {prevote : MsgPricePrevote} {vote : MsgPriceVote}
    (prepared : Prepared valAddressFromBech32 newDecFromStr L prevote vote)
    {ctx committed later : Context L} {result : Result} {actions : List (Action L)}
    (positive : 0 < ctx.oracle.params.votePeriod)
    (accepted : deliverPricePrevote ctx prevote = .ok (result, committed))
    (reached : Reaches step committed actions later)
    (undisturbed : Along step (Undisturbed prevote.denom prevote.validator) committed actions)
    (bonded : (later.staking.validator vote.validator).isSome)
    (permitted : Permitted later.oracle vote.feeder vote.validator) :
    (∃ (result : Result) (revealed : Context L),
        deliverPriceVote later vote = .ok (result, revealed) ∧
          revealed.oracle.votes[(vote.denom, vote.validator)]? =
            some ⟨vote.price, vote.denom, vote.validator⟩ ∧
          revealed.oracle.prevotes[(vote.denom, vote.validator)]? = none) ↔
      (later.height : ℤ) / ctx.oracle.params.votePeriod =
        (ctx.height : ℤ) / ctx.oracle.params.votePeriod + 1 := by
  have pair := prepared.reveals
  rcases deliverPricePrevote_eq_ok accepted with ⟨-, handled⟩
  rcases handleMsgPricePrevote_eq_ok handled with ⟨-, -, rfl⟩
  generalize storedEq : (⟨prevote.hash, prevote.denom, prevote.validator, ctx.height⟩ :
    PricePrevote) = stored at reached undisturbed
  have denomEq : stored.denom = vote.denom := by rw [← storedEq, pair.denom]
  have voterEq : stored.voter = vote.validator := by rw [← storedEq, pair.validator]
  have blockEq : stored.submitBlock = ctx.height := by rw [← storedEq]
  have hashEq : (decodeString stored.hash).1 =
      voteHash L vote.salt vote.price vote.denom vote.validator := by
    rw [← storedEq]
    exact pair.hash
  have first : (ctx.oracle.addPrevote stored).prevotes[(stored.denom, stored.voter)]? =
      some stored := (Store.get_insert ..).trans (if_pos rfl)
  have alone : Along step (Undisturbed stored.denom stored.voter)
      { ctx with oracle := ctx.oracle.addPrevote stored } actions := by
    rw [denomEq, voterEq, ← pair.denom, ← pair.validator]
    exact undisturbed
  have begun : 0 < { ctx with
      oracle := ctx.oracle.addPrevote stored }.oracle.params.votePeriod := positive
  rcases undisturbed_prevote begun first reached alone with ⟨period, only, early⟩
  simp only [denomEq, voterEq, blockEq] at only early
  replace period : later.oracle.params.votePeriod = ctx.oracle.params.votePeriod := period
  have window : InRevealPeriod later stored ↔
      (later.height : ℤ) / ctx.oracle.params.votePeriod =
        (ctx.height : ℤ) / ctx.oracle.params.votePeriod + 1 := by
    simp only [InRevealPeriod, period, blockEq]
    rw [Int.tdiv_eq_ediv_of_nonneg (Int.natCast_nonneg _),
      Int.tdiv_eq_ediv_of_nonneg (Int.natCast_nonneg _)]
    omega
  constructor
  · rintro ⟨_, revealed, done, -⟩
    rcases handleMsgPriceVote_eq_ok (deliverPriceVote_eq_ok done).2 with
      ⟨found, present, -, inPeriod, -⟩
    rw [only found present] at inPeriod
    exact window.mp inPeriod
  · intro nextPeriod
    have inTime : (later.height : ℤ) <
        ((ctx.height : ℤ) / ctx.oracle.params.votePeriod + 2) * ctx.oracle.params.votePeriod := by
      have below := Int.lt_ediv_add_one_mul_self (later.height : ℤ) positive
      rw [nextPeriod] at below
      rw [show (2 : ℤ) = 1 + 1 from rfl, ← add_assoc]
      exact below
    rcases handleMsgPriceVote_isOk (early inTime) permitted bonded (by rw [period]; exact positive.ne')
      (window.mpr nextPeriod) hashEq with ⟨answer, handled'⟩
    have delivered : deliverPriceVote later vote = handleMsgPriceVote later vote := by
      simp only [deliverPriceVote, pair.valid, Outcome.ok_bind]
    rw [← delivered] at handled'
    refine ⟨answer, _, handled', ?_, ?_⟩
    · exact (Store.get_insert ..).trans (if_pos rfl)
    · refine (Store.get_eraseAll ..).trans (if_pos ?_)
      rw [List.map_singleton, denomEq, voterEq]
      exact List.mem_singleton_self _

/-- The validator votes on its own behalf. -/
def sampleFlags : Flags :=
  { denom := microSDRDenom, price := ascii "1.0", hash := [], salt := ascii "1", validator := [] }

def parseSamplePrice (text : Bytes) : Option Dec := if text = ascii "1.0" then some Dec.one else none

theorem sample_prepared :
    Prepared accAddressFromBech32 parseSamplePrice Book samplePrevote sampleVote := by
  refine @Prepared.commands accAddressFromBech32 parseSamplePrice Book _ (List.replicate 20 1)
    sampleFlags _ _ rfl ?_ ?_ <;> decide +kernel

/-- Periods have one block: the vote is sent in the next one. -/
theorem sample_revealable :
    (match deliverPricePrevote sampleStart samplePrevote with
      | .ok (_, committed) => (step committed (.endBlock MapOrder.sorted)).map fun later =>
          (later.height, (later.staking.validator sampleVote.validator).isSome,
            decide (Permitted later.oracle sampleVote.feeder sampleVote.validator))
      | .error _ => none) = some (1, true, true) := by
  decide +kernel

theorem prepared_vote_accepted_iff_sample :
    ∃ (later : Context Book) (result : Result) (revealed : Context Book),
      deliverPriceVote later sampleVote = .ok (result, revealed) ∧
        revealed.oracle.votes[(microSDRDenom, (List.replicate 20 1 : Address))]? =
          some ⟨Dec.one, microSDRDenom, List.replicate 20 1⟩ := by
  have revealable := sample_revealable
  split at revealable
  · next result committed accepted =>
      rcases Option.map_eq_some_iff.mp revealable with ⟨later, taken, values⟩
      simp only [Prod.mk.injEq, decide_eq_true_eq] at values
      have opened := (prepared_vote_accepted_iff sample_prepared (by decide) accepted
        (Reaches.single taken) ⟨⟨by rintro ⟨_, ⟨⟩, _⟩, by rintro ⟨_, ⟨⟩, _⟩⟩, fun _ _ => trivial⟩
        values.2.1 values.2.2).mpr (by rw [values.1]; decide)
      rcases opened with ⟨answer, revealed, handled, stored, -⟩
      exact ⟨later, answer, revealed, handled, stored⟩
  · cases revealable

end TerraCore.Oracle
