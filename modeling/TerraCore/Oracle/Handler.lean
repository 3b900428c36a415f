import TerraCore.Oracle.Keeper

/-!
# Oracle messages

A price is published in two steps. A prevote stores the hash of a price with a
salt, and in the next vote period the vote reveals price and salt, which must
hash to what was stored. Both may be sent by the validator's own account or by
the account that it delegated the right to.
-/

namespace TerraCore.Oracle

structure MsgPricePrevote where
  hash : Bytes
  denom : Denom
  feeder : Address
  validator : Address
deriving DecidableEq

structure MsgPriceVote where
  price : Dec
  salt : Bytes
  denom : Denom
  feeder : Address
  validator : Address
deriving DecidableEq

structure MsgDelegateFeederPermission where
  operator : Address
  feedDelegate : Address
deriving DecidableEq

def truncatedSize : ℕ := 20

/-- The value of a hexadecimal digit. -/
def fromHexChar (character : UInt8) : Option UInt8 :=
  if 48 ≤ character ∧ character ≤ 57 then some (character - 48)
  else if 97 ≤ character ∧ character ≤ 102 then some (character - 87)
  else if 65 ≤ character ∧ character ≤ 70 then some (character - 55)
  else none

/-- `hex.DecodeString`: the bytes decoded before the first error, and whether
there was none. -/
def decodeString : Bytes → Bytes × Bool
  | [] => ([], true)
  | [_] => ([], false)
  | high :: low :: rest =>
      match fromHexChar high, fromHexChar low with
      | some first, some second =>
          let decoded := decodeString rest
          ((first * 16 + second) :: decoded.1, decoded.2)
      | _, _ => ([], false)

/-- `VoteHash`: the hash of `salt:price:denom:voter`. -/
def voteHash (L : Type) [Sdk L] (salt : Bytes) (price : Dec) (denom : Denom) (voter : Address) :
    Bytes :=
  Sdk.truncatedHash L (salt ++ ascii ":" ++ price.string ++ ascii ":" ++ denom ++
    ascii ":" ++ Sdk.printValAddress L voter)

def MsgPricePrevote.validateBasic (msg : MsgPricePrevote) : Outcome Unit :=
  let decoded := decodeString msg.hash
  if decoded.1.length ≠ truncatedSize ∨ decoded.2 = false then
    .error (.error (.invalidHashLength msg.hash.length))
  else if msg.denom = [] then .error (.error (.unknownDenomination []))
  else if msg.feeder = [] then .error (.error (.invalidAddress msg.feeder))
  else if msg.validator = [] then .error (.error (.invalidAddress msg.feeder))
  else .ok ()

def MsgPriceVote.validateBasic (msg : MsgPriceVote) : Outcome Unit :=
  if msg.denom = [] then .error (.error (.unknownDenomination []))
  else if msg.feeder = [] then .error (.error (.invalidAddress msg.feeder))
  else if msg.validator = [] then .error (.error (.invalidAddress msg.feeder))
  else if msg.price ≤ Dec.zero then .error (.error (.invalidPrice msg.price))
  else if 4 < msg.salt.length ∨ msg.salt.length < 1 then
    .error (.error (.invalidSaltLength msg.salt.length))
  else .ok ()

theorem MsgPriceVote.validateBasic_eq_ok {msg : MsgPriceVote} :
    msg.validateBasic = .ok () ↔
      msg.denom ≠ [] ∧ msg.feeder ≠ [] ∧ msg.validator ≠ [] ∧ 0 < msg.price.raw ∧
        1 ≤ msg.salt.length ∧ msg.salt.length ≤ 4 := by
  have positive : ¬msg.price ≤ Dec.zero ↔ 0 < msg.price.raw := by
    rw [Dec.le_def, not_le]
    rfl
  have bounded : ¬(4 < msg.salt.length ∨ msg.salt.length < 1) ↔
      1 ≤ msg.salt.length ∧ msg.salt.length ≤ 4 := by omega
  rw [← positive, ← bounded]
  simp only [validateBasic]
  split_ifs <;> simp_all

def MsgDelegateFeederPermission.validateBasic (msg : MsgDelegateFeederPermission) :
    Outcome Unit :=
  if msg.operator = [] then .error (.error (.invalidAddress msg.operator))
  else if msg.feedDelegate = [] then .error (.error (.invalidAddress msg.operator))
  else .ok ()

section Handlers

variable {L : Type}

/-- The feeder is the validator's own account or its feed delegate. -/
def Permitted (store : OracleStore) (feeder validator : Address) : Prop :=
  feeder = validator ∨ store.getFeedDelegate validator = feeder

instance (store : OracleStore) (feeder validator : Address) :
    Decidable (Permitted store feeder validator) :=
  inferInstanceAs (Decidable (_ ∨ _))

/-- The checks with which both voting handlers start. -/
def checkFeeder (ctx : Context L) (feeder validator : Address) : Outcome Unit :=
  if Permitted ctx.oracle feeder validator then
    if (ctx.staking.validator validator).isSome then .ok ()
    else .error (.error .noValidatorFound)
  else .error (.error (.noVotingPermission feeder validator))

theorem checkFeeder_eq_ok {ctx : Context L} {feeder validator : Address} :
    checkFeeder ctx feeder validator = .ok () ↔
      Permitted ctx.oracle feeder validator ∧ (ctx.staking.validator validator).isSome := by
  unfold checkFeeder
  split
  · split <;> simp_all
  · simp_all

def handleMsgPricePrevote (ctx : Context L) (ppm : MsgPricePrevote) :
    Outcome (Result × Context L) := do
  checkFeeder ctx ppm.feeder ppm.validator
  let prevote : PricePrevote :=
    { hash := ppm.hash, denom := ppm.denom, voter := ppm.validator, submitBlock := ctx.height }
  pure (
    { tags := [.denom ppm.denom, .voter ppm.validator, .feedDelegate ppm.feeder], log := [] },
    { ctx with oracle := ctx.oracle.addPrevote prevote })

/-- The height is in the vote period after the one in which the prevote was submitted. -/
def InRevealPeriod (ctx : Context L) (prevote : PricePrevote) : Prop :=
  (ctx.height : ℤ).tdiv ctx.oracle.params.votePeriod -
    prevote.submitBlock.tdiv ctx.oracle.params.votePeriod = 1

instance (ctx : Context L) (prevote : PricePrevote) : Decidable (InRevealPeriod ctx prevote) :=
  inferInstanceAs (Decidable (_ = _))

def handleMsgPriceVote [Sdk L] (ctx : Context L) (pvm : MsgPriceVote) :
    Outcome (Result × Context L) := do
  checkFeeder ctx pvm.feeder pvm.validator
  match ctx.oracle.prevotes[(pvm.denom, pvm.validator)]? with
  | none => .error (.error (.noPrevote pvm.validator pvm.denom))
  | some prevote =>
      if ctx.oracle.params.votePeriod = 0 then .error (.panic .divisionByZero)
      else if ¬InRevealPeriod ctx prevote then .error (.error .notRevealPeriod)
      else
        let hash := (decodeString prevote.hash).1
        let retrievedHash := voteHash L pvm.salt pvm.price prevote.denom prevote.voter
        if hash ≠ retrievedHash then .error (.error (.verificationFailed hash retrievedHash))
        else
          let vote : PriceVote :=
            { price := pvm.price, denom := prevote.denom, voter := prevote.voter }
          .ok (
            { tags := [.denom pvm.denom, .voter pvm.validator, .feedDelegate pvm.feeder]
              log := [.price pvm.price] },
            { ctx with oracle := (ctx.oracle.deletePrevotes [prevote]).addVote vote })

def handleMsgDelegateFeederPermission (ctx : Context L) (dfpm : MsgDelegateFeederPermission) :
    Outcome (Result × Context L) :=
  if (ctx.staking.validator dfpm.operator).isSome then
    .ok (
      { tags := [.operator dfpm.operator, .feedDelegate dfpm.feedDelegate], log := [] },
      { ctx with oracle := ctx.oracle.setFeedDelegate dfpm.operator dfpm.feedDelegate })
  else .error (.error .noValidatorFound)

theorem handleMsgPricePrevote_eq_ok {ctx after : Context L} {ppm : MsgPricePrevote}
    {result : Result} (handled : handleMsgPricePrevote ctx ppm = .ok (result, after)) :
    Permitted ctx.oracle ppm.feeder ppm.validator ∧
      (ctx.staking.validator ppm.validator).isSome ∧
      after = { ctx with
        oracle := ctx.oracle.addPrevote ⟨ppm.hash, ppm.denom, ppm.validator, ctx.height⟩ } := by
  rcases Outcome.bind_eq_ok.mp handled with ⟨_, checked, done⟩
  rcases checkFeeder_eq_ok.mp checked with ⟨permitted, exists_⟩
  exact ⟨permitted, exists_, (Prod.ext_iff.mp (Except.ok.inj done)).2.symm⟩

/-- A handled vote was permitted, fell into the reveal period of the stored
prevote and matched its hash. -/
theorem handleMsgPriceVote_eq_ok [Sdk L] {ctx after : Context L} {pvm : MsgPriceVote}
    {result : Result} (handled : handleMsgPriceVote ctx pvm = .ok (result, after)) :
    ∃ prevote, ctx.oracle.prevotes[(pvm.denom, pvm.validator)]? = some prevote ∧
      Permitted ctx.oracle pvm.feeder pvm.validator ∧
      InRevealPeriod ctx prevote ∧
      (decodeString prevote.hash).1 = voteHash L pvm.salt pvm.price pvm.denom pvm.validator ∧
      after = { ctx with
        oracle := (ctx.oracle.deletePrevotes [prevote]).addVote
          ⟨pvm.price, pvm.denom, pvm.validator⟩ } := by
  rcases Outcome.bind_eq_ok.mp handled with ⟨_, checked, done⟩
  rcases checkFeeder_eq_ok.mp checked with ⟨permitted, -⟩
  cases present : ctx.oracle.prevotes[(pvm.denom, pvm.validator)]? with
  | none =>
      rw [present] at done
      cases done
  | some prevote =>
      rw [present] at done
      have keyed := ctx.oracle.prevotes_keyed _ _ present
      simp only [Prod.mk.injEq] at keyed
      simp only [keyed.1, keyed.2] at done
      split at done
      · cases done
      · split at done
        · cases done
        · next inPeriod =>
            split at done
            · cases done
            · next matches_ =>
                exact ⟨prevote, rfl, permitted, not_not.mp inPeriod, not_not.mp matches_,
                  (Prod.ext_iff.mp (Except.ok.inj done)).2.symm⟩

theorem handleMsgDelegateFeederPermission_eq_ok {ctx after : Context L}
    {dfpm : MsgDelegateFeederPermission} {result : Result}
    (handled : handleMsgDelegateFeederPermission ctx dfpm = .ok (result, after)) :
    after = { ctx with
      oracle := ctx.oracle.setFeedDelegate dfpm.operator dfpm.feedDelegate } := by
  unfold handleMsgDelegateFeederPermission at handled
  split at handled
  · exact (Prod.ext_iff.mp (Except.ok.inj handled)).2.symm
  · cases handled

end Handlers

end TerraCore.Oracle
