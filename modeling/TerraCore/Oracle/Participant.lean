import TerraCore.Oracle.Expiry

/-!
# Participants of the oracle

The oracle is a protocol between validators. What it keeps of one of them is
small: the account that may feed prices for it, the hashes that it committed to
and the prices that it revealed. `Participant` is this local state, with the
readings of the chain that its rules depend on, and `act` and `endBlock` are the
rules. The handlers and the end blocker follow them: a message moves the
participant that it names, and no other.
-/

namespace TerraCore

open Oracle

/-- The part of the oracle store that validators write with their messages. -/
structure Poll where
  prevotes : Store (Denom × Address) PricePrevote
  votes : Store (Denom × Address) PriceVote
  feederDelegations : Store Address Address
  prevotes_keyed : ∀ (key : Denom × Address) prevote,
    prevotes[key]? = some prevote → (prevote.denom, prevote.voter) = key
  votes_keyed : ∀ (key : Denom × Address) vote,
    votes[key]? = some vote → (vote.denom, vote.voter) = key

def OracleStore.poll (store : OracleStore) : Poll where
  prevotes := store.prevotes
  votes := store.votes
  feederDelegations := store.feederDelegations
  prevotes_keyed := store.prevotes_keyed
  votes_keyed := store.votes_keyed

namespace Context

variable {L : Type}

/-- The same chain with other prevotes, votes and delegations. -/
def recast (ctx : Context L) (poll : Poll) : Context L :=
  { ctx with
    oracle := { ctx.oracle with
      prevotes := poll.prevotes
      votes := poll.votes
      feederDelegations := poll.feederDelegations
      prevotes_keyed := poll.prevotes_keyed
      votes_keyed := poll.votes_keyed } }

@[simp]
theorem recast_poll (ctx : Context L) : ctx.recast ctx.oracle.poll = ctx := rfl

@[simp]
theorem poll_recast (ctx : Context L) (poll : Poll) : (ctx.recast poll).oracle.poll = poll := rfl

@[simp]
theorem recast_recast (ctx : Context L) (first second : Poll) :
    (ctx.recast first).recast second = ctx.recast second := rfl

end Context

namespace Oracle

/-- What the oracle keeps of one validator, and the readings that its rules depend on. -/
structure Participant where
  height : ℕ
  votePeriod : ℤ
  /-- The validator is in the validator set. -/
  bonded : Bool
  /-- The account that the validator delegated its right to, if it did. -/
  feeder : Option Address
  /-- The hash that the validator committed to, and the block of the commitment. -/
  committed : Denom → Option (Bytes × ℤ)
  revealed : Denom → Option Dec

/-- What a validator, or its feeder, can ask for. -/
inductive Move where
  | commit (feeder : Address) (denom : Denom) (hash : Bytes)
  | reveal (feeder : Address) (denom : Denom) (price : Dec) (salt : Bytes)
  | delegate (feeder : Address)

namespace Participant

/-- The sender of a move is the validator itself or its feeder. -/
def Permits (validator : Address) (participant : Participant) (feeder : Address) : Prop :=
  feeder = validator ∨ participant.feeder.getD validator = feeder

instance (validator : Address) (participant : Participant) (feeder : Address) :
    Decidable (participant.Permits validator feeder) :=
  inferInstanceAs (Decidable (_ ∨ _))

/-- The commitment can be opened now, with this price and salt. -/
def Opens (L : Type) [Sdk L] (validator : Address) (participant : Participant) (denom : Denom)
    (price : Dec) (salt : Bytes) (commitment : Bytes × ℤ) : Prop :=
  participant.votePeriod ≠ 0 ∧
    (participant.height : ℤ).tdiv participant.votePeriod -
      commitment.2.tdiv participant.votePeriod = 1 ∧
    (decodeString commitment.1).1 = voteHash L salt price denom validator

instance (L : Type) [Sdk L] (validator : Address) (participant : Participant) (denom : Denom)
    (price : Dec) (salt : Bytes) (commitment : Bytes × ℤ) :
    Decidable (participant.Opens L validator denom price salt commitment) :=
  inferInstanceAs (Decidable (_ ∧ _))

/-- The rule by which a move is accepted. -/
def accepts (L : Type) [Sdk L] (validator : Address) (participant : Participant) : Move → Bool
  | .commit feeder _ _ => decide (participant.Permits validator feeder) && participant.bonded
  | .reveal feeder denom price salt =>
      decide (participant.Permits validator feeder) && participant.bonded &&
        (participant.committed denom).any fun commitment =>
          decide (participant.Opens L validator denom price salt commitment)
  | .delegate _ => participant.bonded

/-- What an accepted move does. -/
def apply (participant : Participant) : Move → Participant
  | .commit _ denom hash =>
      { participant with
        committed := Function.update participant.committed denom
          (some (hash, (participant.height : ℤ))) }
  | .reveal _ denom price _ =>
      { participant with
        committed := Function.update participant.committed denom none
        revealed := Function.update participant.revealed denom (some price) }
  | .delegate feeder => { participant with feeder := some feeder }

/-- A move that is not accepted is ignored. -/
def act (L : Type) [Sdk L] (validator : Address) (participant : Participant) (move : Move) :
    Participant :=
  if participant.accepts L validator move then participant.apply move else participant

/-- The height is the last one of a vote period. -/
def LastBlock (participant : Participant) : Prop :=
  ((participant.height : ℤ) + 1).tmod participant.votePeriod = 0

instance (participant : Participant) : Decidable participant.LastBlock :=
  inferInstanceAs (Decidable (_ = _))

/-- At the end of a vote period the revealed prices are tallied and old commitments dropped. -/
def endPeriod (participant : Participant) : Participant :=
  { participant with
    committed := fun denom => (participant.committed denom).filter fun commitment =>
      decide ((participant.height : ℤ) ≤ commitment.2 + participant.votePeriod)
    revealed := fun _ => none }

/-- The end of a block. -/
def endBlock (participant : Participant) : Participant :=
  let ended := if participant.LastBlock then participant.endPeriod else participant
  { ended with height := participant.height + 1 }

end Participant

variable {L : Type}

/-- The local state of a validator. -/
def participant (ctx : Context L) (validator : Address) : Participant where
  height := ctx.height
  votePeriod := ctx.oracle.params.votePeriod
  bonded := (ctx.staking.validator validator).isSome
  feeder := ctx.oracle.feederDelegations[validator]?
  committed denom := (ctx.oracle.prevotes[(denom, validator)]?).map fun prevote =>
    (prevote.hash, prevote.submitBlock)
  revealed denom := (ctx.oracle.votes[(denom, validator)]?).map PriceVote.price

theorem committed_eq_some {ctx : Context L} {denom : Denom} {validator : Address} {hash : Bytes}
    {submitBlock : ℤ} :
    (participant ctx validator).committed denom = some (hash, submitBlock) ↔
      ctx.oracle.prevotes[(denom, validator)]? = some ⟨hash, denom, validator, submitBlock⟩ := by
  simp only [participant, Option.map_eq_some_iff]
  constructor
  · rintro ⟨⟨_, prevoteDenom, voter, _⟩, present, same⟩
    have keyed := ctx.oracle.prevotes_keyed _ _ present
    simp only [Prod.mk.injEq] at keyed same
    rw [present, keyed.1, keyed.2, same.1, same.2]
  · intro present
    exact ⟨_, present, rfl⟩

theorem revealed_eq_some {ctx : Context L} {denom : Denom} {validator : Address} {price : Dec} :
    (participant ctx validator).revealed denom = some price ↔
      ctx.oracle.votes[(denom, validator)]? = some ⟨price, denom, validator⟩ := by
  simp only [participant, Option.map_eq_some_iff]
  constructor
  · rintro ⟨⟨_, voteDenom, voter⟩, present, same⟩
    have keyed := ctx.oracle.votes_keyed _ _ present
    simp only [Prod.mk.injEq] at keyed same
    rw [present, keyed.1, keyed.2, same]
  · intro present
    exact ⟨_, present, rfl⟩

/-- Two prevotes of one key are told apart by what the participant knows of them. -/
theorem prevotes_eq_of_committed {left right : Context L} {denom : Denom} {validator : Address}
    (same : (participant left validator).committed denom =
      (participant right validator).committed denom) :
    left.oracle.prevotes[(denom, validator)]? = right.oracle.prevotes[(denom, validator)]? := by
  cases known : (participant right validator).committed denom with
  | none =>
      rw [known] at same
      simp only [participant, Option.map_eq_none_iff] at same known
      rw [same, known]
  | some commitment =>
      rw [known] at same
      rw [committed_eq_some.mp same, committed_eq_some.mp known]

theorem votes_eq_of_revealed {left right : Context L} {denom : Denom} {validator : Address}
    (same : (participant left validator).revealed denom =
      (participant right validator).revealed denom) :
    left.oracle.votes[(denom, validator)]? = right.oracle.votes[(denom, validator)]? := by
  cases known : (participant right validator).revealed denom with
  | none =>
      rw [known] at same
      simp only [participant, Option.map_eq_none_iff] at same known
      rw [same, known]
  | some price =>
      rw [known] at same
      rw [revealed_eq_some.mp same, revealed_eq_some.mp known]

/-- The participants together make up the poll. -/
theorem poll_eq_of_participants {left right : Context L}
    (same : ∀ validator, participant left validator = participant right validator) :
    left.oracle.poll = right.oracle.poll := by
  have prevotesEq : left.oracle.prevotes = right.oracle.prevotes := by
    apply Store.ext_get
    rintro ⟨denom, validator⟩
    exact prevotes_eq_of_committed (by rw [same validator])
  have votesEq : left.oracle.votes = right.oracle.votes := by
    apply Store.ext_get
    rintro ⟨denom, validator⟩
    exact votes_eq_of_revealed (by rw [same validator])
  have feedersEq : left.oracle.feederDelegations = right.oracle.feederDelegations := by
    apply Store.ext_get
    intro validator
    exact congrArg Participant.feeder (same validator)
  simp only [OracleStore.poll, prevotesEq, votesEq, feedersEq]

/-- Chains with the same participants, which are alike otherwise, are the same. -/
theorem eq_of_participants {left right : Context L} (poll : Poll)
    (rest : left.recast poll = right.recast poll)
    (same : ∀ validator, participant left validator = participant right validator) :
    left = right := by
  calc left = (left.recast poll).recast left.oracle.poll := rfl
    _ = (right.recast poll).recast right.oracle.poll := by
      rw [rest, poll_eq_of_participants same]
    _ = right := rfl

theorem permits_iff {ctx : Context L} {feeder validator : Address} :
    (participant ctx validator).Permits validator feeder ↔
      Permitted ctx.oracle feeder validator := Iff.rfl

/-- Only the named participant has moved. -/
def Acted (L : Type) [Sdk L] (validator : Address) (move : Move) (before after : Context L) :
    Prop :=
  ∀ other, participant after other =
    if other = validator then (participant before other).act L validator move
    else participant before other

section Handlers

variable [Sdk L]

theorem Acted.of_ignored {ctx : Context L} {validator : Address} {move : Move}
    (ignored : (participant ctx validator).accepts L validator move = false) :
    Acted L validator move ctx ctx := by
  intro other
  split
  · next here =>
      subst here
      simp [Participant.act, ignored]
  · rfl

theorem handleMsgPricePrevote_accepted (ctx : Context L) (ppm : MsgPricePrevote) :
    (∃ done, handleMsgPricePrevote ctx ppm = .ok done) ↔
      (participant ctx ppm.validator).accepts L ppm.validator
        (.commit ppm.feeder ppm.denom ppm.hash) = true := by
  have accepts_iff : (participant ctx ppm.validator).accepts L ppm.validator
      (.commit ppm.feeder ppm.denom ppm.hash) = true ↔
        checkFeeder ctx ppm.feeder ppm.validator = .ok () := by
    rw [checkFeeder_eq_ok, Participant.accepts, Bool.and_eq_true, decide_eq_true_eq, permits_iff]
    rfl
  rw [accepts_iff]
  constructor
  · rintro ⟨⟨result, after⟩, handled⟩
    rcases handleMsgPricePrevote_eq_ok handled with ⟨permitted, bonded, -⟩
    exact checkFeeder_eq_ok.mpr ⟨permitted, bonded⟩
  · intro checked
    simp only [handleMsgPricePrevote, checked]
    exact ⟨_, rfl⟩

/-- A prevote is a commitment. -/
theorem handleMsgPricePrevote_moves (ctx : Context L) (ppm : MsgPricePrevote) :
    Acted L ppm.validator (.commit ppm.feeder ppm.denom ppm.hash) ctx
      (ctx.deliver (handleMsgPricePrevote ctx ppm)) := by
  rcases ctx.deliver_cases (handleMsgPricePrevote ctx ppm) with ⟨result, handled⟩ | ⟨failed, same⟩
  · have accepted := (handleMsgPricePrevote_accepted ctx ppm).mp ⟨_, handled⟩
    rw [(handleMsgPricePrevote_eq_ok handled).2.2]
    intro other
    have stored (denom : Denom) : (ctx.oracle.addPrevote
        ⟨ppm.hash, ppm.denom, ppm.validator, ctx.height⟩).prevotes[(denom, other)]? =
          if (ppm.denom, ppm.validator) = (denom, other)
            then some ⟨ppm.hash, ppm.denom, ppm.validator, ctx.height⟩
            else ctx.oracle.prevotes[(denom, other)]? := Store.get_insert _ _ _ _
    by_cases here : other = ppm.validator
    · subst here
      rw [if_pos rfl, Participant.act, if_pos accepted]
      simp only [participant, Participant.apply, stored]
      congr 1
      funext denom
      by_cases same : denom = ppm.denom
      · subst same
        simp
      · simp [Function.update_of_ne same, Ne.symm same]
    · simp only [participant, stored, if_neg here, Prod.mk.injEq, Ne.symm here, and_false, if_false]
      rfl
  · rw [same]
    apply Acted.of_ignored
    rw [Bool.eq_false_iff]
    intro accepted
    rcases (handleMsgPricePrevote_accepted ctx ppm).mpr accepted with ⟨done, handled⟩
    exact failed done handled

/-- A vote that opens the stored prevote in the period after it is accepted. -/
theorem handleMsgPriceVote_isOk {ctx : Context L} {pvm : MsgPriceVote} {prevote : PricePrevote}
    (found : ctx.oracle.prevotes[(pvm.denom, pvm.validator)]? = some prevote)
    (permitted : Permitted ctx.oracle pvm.feeder pvm.validator)
    (bonded : (ctx.staking.validator pvm.validator).isSome)
    (nonzero : ctx.oracle.params.votePeriod ≠ 0) (inPeriod : InRevealPeriod ctx prevote)
    (verified : (decodeString prevote.hash).1 =
      voteHash L pvm.salt pvm.price pvm.denom pvm.validator) :
    ∃ result, handleMsgPriceVote ctx pvm = .ok (result, { ctx with
      oracle := (ctx.oracle.deletePrevotes [prevote]).addVote
        ⟨pvm.price, pvm.denom, pvm.validator⟩ }) := by
  have keyed := ctx.oracle.prevotes_keyed _ _ found
  simp only [Prod.mk.injEq] at keyed
  have checked := checkFeeder_eq_ok.mpr ⟨permitted, bonded⟩
  simp only [handleMsgPriceVote, checked, Outcome.ok_bind, found, if_neg nonzero]
  rw [if_neg (not_not.mpr inPeriod), keyed.1, keyed.2, if_neg (not_not.mpr verified)]
  exact ⟨_, rfl⟩

theorem accepts_reveal_iff {ctx : Context L} {pvm : MsgPriceVote} :
    (participant ctx pvm.validator).accepts L pvm.validator
        (.reveal pvm.feeder pvm.denom pvm.price pvm.salt) = true ↔
      ∃ prevote, ctx.oracle.prevotes[(pvm.denom, pvm.validator)]? = some prevote ∧
        Permitted ctx.oracle pvm.feeder pvm.validator ∧
        (ctx.staking.validator pvm.validator).isSome ∧ ctx.oracle.params.votePeriod ≠ 0 ∧
        InRevealPeriod ctx prevote ∧
        (decodeString prevote.hash).1 = voteHash L pvm.salt pvm.price pvm.denom pvm.validator := by
  simp only [Participant.accepts, permits_iff, Bool.and_eq_true, decide_eq_true_eq,
    Option.any_eq_true]
  constructor
  · rintro ⟨⟨permitted, bonded⟩, ⟨hash, submitBlock⟩, known, nonzero, inPeriod, verified⟩
    exact ⟨_, committed_eq_some.mp known, permitted, bonded, nonzero, inPeriod, verified⟩
  · rintro ⟨⟨hash, denom, voter, submitBlock⟩, found, permitted, bonded, nonzero, inPeriod, verified⟩
    have keyed := ctx.oracle.prevotes_keyed _ _ found
    simp only [Prod.mk.injEq] at keyed
    rcases keyed with ⟨rfl, rfl⟩
    exact ⟨⟨permitted, bonded⟩, _, committed_eq_some.mpr found, nonzero, inPeriod, verified⟩

theorem handleMsgPriceVote_accepted (ctx : Context L) (pvm : MsgPriceVote) :
    (∃ done, handleMsgPriceVote ctx pvm = .ok done) ↔
      (participant ctx pvm.validator).accepts L pvm.validator
        (.reveal pvm.feeder pvm.denom pvm.price pvm.salt) = true := by
  rw [accepts_reveal_iff]
  constructor
  · rintro ⟨⟨result, after⟩, handled⟩
    rcases Outcome.bind_eq_ok.mp handled with ⟨_, checked, -⟩
    rcases handleMsgPriceVote_eq_ok handled with
      ⟨prevote, found, permitted, inPeriod, verified, -⟩
    have nonzero : ctx.oracle.params.votePeriod ≠ 0 := by
      intro isZero
      simp [InRevealPeriod, isZero] at inPeriod
    exact ⟨prevote, found, permitted, (checkFeeder_eq_ok.mp checked).2, nonzero, inPeriod, verified⟩
  · rintro ⟨prevote, found, permitted, bonded, nonzero, inPeriod, verified⟩
    rcases handleMsgPriceVote_isOk found permitted bonded nonzero inPeriod verified with
      ⟨result, handled⟩
    exact ⟨_, handled⟩

/-- A vote opens a commitment. -/
theorem handleMsgPriceVote_moves (ctx : Context L) (pvm : MsgPriceVote) :
    Acted L pvm.validator (.reveal pvm.feeder pvm.denom pvm.price pvm.salt) ctx
      (ctx.deliver (handleMsgPriceVote ctx pvm)) := by
  rcases ctx.deliver_cases (handleMsgPriceVote ctx pvm) with ⟨result, handled⟩ | ⟨failed, same⟩
  · have accepted := (handleMsgPriceVote_accepted ctx pvm).mp ⟨_, handled⟩
    rcases handleMsgPriceVote_eq_ok handled with ⟨prevote, found, -, -, -, afterEq⟩
    have keyed := ctx.oracle.prevotes_keyed _ _ found
    rw [afterEq]
    intro other
    have prevotes (denom : Denom) :
        (Store.eraseAll ctx.oracle.prevotes [(prevote.denom, prevote.voter)])[(denom, other)]? =
          if (pvm.denom, pvm.validator) = (denom, other) then none
            else ctx.oracle.prevotes[(denom, other)]? := by
      rw [keyed, Store.get_eraseAll]
      by_cases here : (pvm.denom, pvm.validator) = (denom, other)
      · rw [if_pos here, if_pos (List.mem_singleton.mpr here.symm)]
      · rw [if_neg here, if_neg fun listed => here (List.mem_singleton.mp listed).symm]
    have votes (denom : Denom) :
        (ctx.oracle.votes.insert (pvm.denom, pvm.validator)
            (⟨pvm.price, pvm.denom, pvm.validator⟩ : PriceVote))[(denom, other)]? =
          if (pvm.denom, pvm.validator) = (denom, other)
            then some ⟨pvm.price, pvm.denom, pvm.validator⟩
            else ctx.oracle.votes[(denom, other)]? := Store.get_insert _ _ _ _
    simp only [participant, OracleStore.addVote, OracleStore.deletePrevotes,
      List.map_cons, List.map_nil, prevotes, votes]
    by_cases here : other = pvm.validator
    · subst here
      rw [if_pos rfl]
      change _ = (participant ctx pvm.validator).act L pvm.validator _
      rw [Participant.act, if_pos accepted]
      simp only [participant, Participant.apply]
      congr 1
      · funext denom
        by_cases same : denom = pvm.denom
        · subst same
          simp
        · simp [Function.update_of_ne same, Ne.symm same]
      · funext denom
        by_cases same : denom = pvm.denom
        · subst same
          simp
        · simp [Function.update_of_ne same, Ne.symm same]
    · simp only [if_neg here, Prod.mk.injEq, Ne.symm here, and_false, if_false]
  · rw [same]
    apply Acted.of_ignored
    rw [Bool.eq_false_iff]
    intro accepted
    rcases (handleMsgPriceVote_accepted ctx pvm).mpr accepted with ⟨done, handled⟩
    exact failed done handled

theorem handleMsgDelegateFeederPermission_accepted (ctx : Context L)
    (dfpm : MsgDelegateFeederPermission) :
    (∃ done, handleMsgDelegateFeederPermission ctx dfpm = .ok done) ↔
      (participant ctx dfpm.operator).accepts L dfpm.operator (.delegate dfpm.feedDelegate) =
        true := by
  change _ ↔ (ctx.staking.validator dfpm.operator).isSome = true
  simp only [handleMsgDelegateFeederPermission]
  split
  · next bonded => simp [bonded]
  · next unbonded => simp [unbonded]

/-- A delegation names another feeder. -/
theorem handleMsgDelegateFeederPermission_moves (ctx : Context L)
    (dfpm : MsgDelegateFeederPermission) :
    Acted L dfpm.operator (.delegate dfpm.feedDelegate) ctx
      (ctx.deliver (handleMsgDelegateFeederPermission ctx dfpm)) := by
  simp only [handleMsgDelegateFeederPermission]
  split
  · next bonded =>
      intro other
      have feeders : (ctx.oracle.setFeedDelegate dfpm.operator
          dfpm.feedDelegate).feederDelegations[other]? =
            if dfpm.operator = other then some dfpm.feedDelegate
              else ctx.oracle.feederDelegations[other]? := Store.get_insert _ _ _ _
      simp only [participant, Context.deliver, feeders]
      by_cases here : other = dfpm.operator
      · subst here
        have accepted : (participant ctx dfpm.operator).accepts L dfpm.operator
            (.delegate dfpm.feedDelegate) = true := bonded
        rw [if_pos rfl, if_pos rfl]
        change _ = (participant ctx dfpm.operator).act L dfpm.operator _
        rw [Participant.act, if_pos accepted]
        rfl
      · rw [if_neg here, if_neg (Ne.symm here)]
        rfl
  · next unbonded =>
      apply Acted.of_ignored
      simpa [Participant.accepts, participant] using unbonded

/-- The end blocker ends the period of every participant alike. -/
theorem endBlocker_participant {order : MapOrder} {ctx after : Context L} {tags : Tags}
    (done : endBlocker order ctx = .ok (tags, after)) (validator : Address) :
    participant { after with height := after.height + 1 } validator =
      (participant ctx validator).endBlock := by
  by_cases last : ctx.LastBlock ctx.oracle.params.votePeriod
  · have isLast : (participant ctx validator).LastBlock := last
    rcases endBlocker_of_lastBlock order last with
      ⟨_, paid, finished, oracleEq, stakingEq, -, changes⟩
    rw [finished] at done
    cases done
    rcases settled_frame ctx.oracle with ⟨-, paramsEq, prevotesEq, feedersEq⟩
    have paidPrevotes : paid.oracle.prevotes = ctx.oracle.prevotes := by rw [oracleEq, prevotesEq]
    have paidParams : paid.oracle.params = ctx.oracle.params := by rw [oracleEq, paramsEq]
    have paidFeeders : paid.oracle.feederDelegations = ctx.oracle.feederDelegations := by
      rw [oracleEq, feedersEq]
    simp only [Participant.endBlock, if_pos isLast, Participant.endPeriod]
    have committedEq (denom : Denom) :
        ((tallied order paid).prevotes[(denom, validator)]?).map
            (fun prevote => (prevote.hash, prevote.submitBlock)) =
          ((participant ctx validator).committed denom).filter fun commitment =>
            decide ((ctx.height : ℤ) ≤ commitment.2 + ctx.oracle.params.votePeriod) := by
      ext ⟨hash, submitBlock⟩
      have kept := get_expirePrevotes paid.height paid.oracle (denom, validator)
      simp only [Option.map_eq_some_iff, Option.filter_eq_some_iff, decide_eq_true_eq]
      constructor
      · rintro ⟨prevote, present, same⟩
        rcases (kept prevote).mp present with ⟨stored, young⟩
        rw [paidPrevotes] at stored
        rw [paidParams, changes.height] at young
        simp only [Prod.mk.injEq] at same
        rcases same with ⟨rfl, rfl⟩
        exact ⟨Option.map_eq_some_iff.mpr ⟨prevote, stored, rfl⟩, young⟩
      · rintro ⟨known, young⟩
        rcases Option.map_eq_some_iff.mp known with ⟨prevote, stored, same⟩
        simp only [Prod.mk.injEq] at same
        rcases same with ⟨rfl, rfl⟩
        refine ⟨prevote, (kept prevote).mpr ⟨?_, ?_⟩, rfl⟩
        · rw [paidPrevotes]
          exact stored
        · rw [paidParams, changes.height]
          exact young
    simp only [participant] at committedEq ⊢
    simp only [stakingEq, changes.height, tallied_votes, Store.get_empty, Option.map_none,
      committedEq]
    congr 1
    · exact congrArg Params.votePeriod paidParams
    · change paid.oracle.feederDelegations[validator]? = _
      rw [paidFeeders]
  · have notLast : ¬(participant ctx validator).LastBlock := last
    rcases endBlocker_eq_ok done with ⟨-, afterEq⟩ | ⟨isLast, -⟩
    · rw [afterEq, Participant.endBlock, if_neg notLast]
      rfl
    · exact absurd isLast last

end Handlers

end Oracle

end TerraCore
