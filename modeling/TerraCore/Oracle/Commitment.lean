import TerraCore.Oracle.Run
import TerraCore.Sdk.Text

/-!
# Binding commitments

A prevote commits to the hash of `salt:price:denom:voter`. Salt and denomination
may contain colons, so the text is not parsed from one side. The voter has none
and ends the text; the salt is shorter than any printed price, which has none
either and follows it. A commitment can therefore be opened in one way only, and
by the validator that made it, unless two texts have the same hash.
-/

namespace TerraCore.Oracle

variable {L : Type} [Sdk L]

/-- The text `salt:price:denom:voter` that `VoteHash` hashes. -/
def MsgPriceVote.commitment (L : Type) [Sdk L] (msg : MsgPriceVote) : Bytes :=
  msg.salt ++ ascii ":" ++ msg.price.string ++ ascii ":" ++ msg.denom ++ ascii ":" ++
    Sdk.printValAddress L msg.validator

theorem voteHash_eq (msg : MsgPriceVote) :
    voteHash L msg.salt msg.price msg.denom msg.validator =
      Sdk.truncatedHash L (msg.commitment L) :=
  rfl

theorem commitment_eq (msg : MsgPriceVote) :
    msg.commitment L = (msg.salt ++ colon :: (msg.price.string ++ colon :: msg.denom)) ++
      colon :: Sdk.printValAddress L msg.validator := by
  simp [MsgPriceVote.commitment, ascii_colon]

/-- The text determines all of its fields. -/
theorem commitment_unique (printed : Printed (Sdk.printValAddress L)) {first second : MsgPriceVote}
    (valid : first.validateBasic = .ok ()) (valid' : second.validateBasic = .ok ())
    (addressed : first.validator.length = addrLen)
    (addressed' : second.validator.length = addrLen)
    (same : first.commitment L = second.commitment L) :
    first.salt = second.salt ∧ first.price = second.price ∧ first.denom = second.denom ∧
      first.validator = second.validator := by
  rcases MsgPriceVote.validateBasic_eq_ok.mp valid with ⟨-, -, -, positive, -, short⟩
  rcases MsgPriceVote.validateBasic_eq_ok.mp valid' with ⟨-, -, -, positive', -, short'⟩
  have nonneg := positive.le
  have nonneg' := positive'.le
  have long := Dec.length_string nonneg
  have long' := Dec.length_string nonneg'
  have fits : second.salt.length ≤ first.price.string.length := by omega
  have fits' : first.salt.length ≤ second.price.string.length := by omega
  have noColon := Dec.colon_not_mem_string nonneg
  have noColon' := Dec.colon_not_mem_string nonneg'
  rw [commitment_eq, commitment_eq] at same
  -- The voter ends the text, the salt ends before the price, and the price at the next colon.
  rcases Separator.last_unique (printed.noColon addressed) (printed.noColon addressed') same with
    ⟨front, voterEq⟩
  rcases Separator.header_unique fits fits' noColon noColon' front with ⟨saltEq, middle⟩
  rcases Separator.first_unique noColon noColon' middle with ⟨priceEq, denomEq⟩
  exact ⟨saltEq, Dec.string_inj nonneg nonneg' priceEq, denomEq,
    printed.injective addressed addressed' voterEq⟩

/-- Two different texts have the same hash. -/
def Collision (L : Type) [Sdk L] (first second : Bytes) : Prop :=
  first ≠ second ∧ Sdk.truncatedHash L first = Sdk.truncatedHash L second

/-- The prevote holds the hash of what the message reveals. -/
structure Commits (L : Type) [Sdk L] (prevote : PricePrevote) (msg : MsgPriceVote) : Prop where
  valid : msg.validateBasic = .ok ()
  addressed : msg.validator.length = addrLen
  denom : msg.denom = prevote.denom
  voter : msg.validator = prevote.voter
  hash : (decodeString prevote.hash).1 = Sdk.truncatedHash L (msg.commitment L)

/-- The message finds the prevote in the store and the handler accepts it. -/
structure Opens (ctx : Context L) (msg : MsgPriceVote) (prevote : PricePrevote) : Prop where
  valid : msg.validateBasic = .ok ()
  stored : ctx.oracle.prevotes[(msg.denom, msg.validator)]? = some prevote
  handled : ∃ done, handleMsgPriceVote ctx msg = .ok done

theorem Opens.commits {ctx : Context L} {msg : MsgPriceVote} {prevote : PricePrevote}
    (opens : Opens ctx msg prevote) : Commits L prevote msg := by
  rcases opens.handled with ⟨⟨result, after⟩, handled⟩
  rcases handleMsgPriceVote_eq_ok handled with ⟨found, stored, -, -, hashEq, -⟩
  have foundEq : found = prevote := Option.some.inj (stored.symm.trans opens.stored)
  subst foundEq
  rcases Outcome.bind_eq_ok.mp handled with ⟨_, checked, -⟩
  rcases Option.isSome_iff_exists.mp (checkFeeder_eq_ok.mp checked).2 with ⟨tokens, isValidator⟩
  have keyed := ctx.oracle.prevotes_keyed _ _ stored
  rw [Prod.mk.injEq] at keyed
  exact
    { valid := opens.valid
      addressed := ctx.staking.validator_length _ _ isValidator
      denom := keyed.1.symm
      voter := keyed.2.symm
      hash := hashEq.trans (voteHash_eq msg) }

/-- Two messages under one hash reveal the same, or their texts collide. -/
theorem Commits.unique (printed : Printed (Sdk.printValAddress L)) {prevote other : PricePrevote}
    {first second : MsgPriceVote} (commits : Commits L prevote first)
    (commits' : Commits L other second) (sameHash : other.hash = prevote.hash)
    (noCollision : ¬Collision L (first.commitment L) (second.commitment L)) :
    first.salt = second.salt ∧ first.price = second.price ∧ first.denom = second.denom ∧
      first.validator = second.validator := by
  have hashes : Sdk.truncatedHash L (first.commitment L) =
      Sdk.truncatedHash L (second.commitment L) := by
    rw [← commits.hash, ← commits'.hash, sameHash]
  apply commitment_unique printed commits.valid commits'.valid commits.addressed commits'.addressed
  by_contra different
  exact noCollision ⟨different, hashes⟩

/-- Commitments are binding: the text determines its fields, a prevote is opened
with one price and salt, and a copy of another validator's prevote with none. -/
theorem commitment_binding (printed : Printed (Sdk.printValAddress L)) :
    (∀ first second : MsgPriceVote,
        first.validateBasic = .ok () → second.validateBasic = .ok () →
        first.validator.length = addrLen → second.validator.length = addrLen →
        first.commitment L = second.commitment L →
          first.salt = second.salt ∧ first.price = second.price ∧ first.denom = second.denom ∧
            first.validator = second.validator) ∧
      (∀ (ctx later : Context L) (prevote : PricePrevote) (first second : MsgPriceVote),
        Opens ctx first prevote → Opens later second prevote →
        ¬Collision L (first.commitment L) (second.commitment L) →
          first.price = second.price ∧ first.salt = second.salt) ∧
      ∀ (prevote copy : PricePrevote) (first : MsgPriceVote),
        Commits L prevote first → copy.hash = prevote.hash → copy.voter ≠ prevote.voter →
        ∀ (ctx : Context L) (second : MsgPriceVote),
          ¬Collision L (first.commitment L) (second.commitment L) → ¬Opens ctx second copy := by
  refine ⟨?_, ?_, ?_⟩
  · intro first second valid valid' addressed addressed' same
    exact commitment_unique printed valid valid' addressed addressed' same
  · intro ctx later prevote first second opens opens' noCollision
    rcases opens.commits.unique printed opens'.commits rfl noCollision with
      ⟨saltEq, priceEq, -⟩
    exact ⟨priceEq, saltEq⟩
  · intro prevote copy first commits copied otherVoter ctx second noCollision opens
    rcases commits.unique printed opens.commits copied noCollision with ⟨-, -, -, voterEq⟩
    apply otherVoter
    rw [← commits.voter, ← opens.commits.voter, voterEq]

/-- The prevote of the short run, as it is stored. -/
def sampleCommitted : PricePrevote := ⟨samplePrevote.hash, microSDRDenom, List.replicate 20 1, 0⟩

/-- The block in which it is revealed. -/
def revealing : Context PrintedBook :=
  { Context.genesis PrintedBook.empty (Staking.single (List.replicate 20 1) 10 single_length) with
    height := 1
    oracle := (OracleStore.initGenesis { defaultParams with votePeriod := 1 }).addPrevote
      sampleCommitted }

theorem sampleVote_opens : Opens revealing sampleVote sampleCommitted where
  valid := rfl
  stored := by decide +kernel
  handled := by
    have accepted : (handleMsgPriceVote revealing sampleVote).isOk = true := by decide +kernel
    cases handled : handleMsgPriceVote revealing sampleVote with
    | ok done => exact ⟨done, rfl⟩
    | error failure =>
        rw [handled] at accepted
        cases accepted

theorem commitment_binding_sample :
    Opens revealing sampleVote sampleCommitted ∧
      (∀ (later : Context PrintedBook) (msg : MsgPriceVote), Opens later msg sampleCommitted →
        ¬Collision PrintedBook (sampleVote.commitment PrintedBook) (msg.commitment PrintedBook) →
          msg.price = Dec.one ∧ msg.salt = ascii "1") ∧
      ∀ (ctx : Context PrintedBook) (msg : MsgPriceVote),
        ¬Collision PrintedBook (sampleVote.commitment PrintedBook) (msg.commitment PrintedBook) →
          ¬Opens ctx msg { sampleCommitted with voter := List.replicate 20 2 } := by
  rcases commitment_binding PrintedBook.printed with ⟨-, oneOpening, noCopy⟩
  refine ⟨sampleVote_opens, ?_, ?_⟩
  · intro later msg opens noCollision
    rcases oneOpening _ _ _ _ _ sampleVote_opens opens noCollision with ⟨priceEq, saltEq⟩
    exact ⟨priceEq.symm, saltEq.symm⟩
  · exact noCopy sampleCommitted _ sampleVote sampleVote_opens.commits rfl (by decide)

end TerraCore.Oracle
