import TerraCore.Oracle.Run

/-!
# Commit and reveal

Every stored vote can be traced back through the run to the two messages that
produced it: a prevote which committed to the price, and a vote in the next
period which revealed it. The trace is built by induction on the run. A stored
prevote remembers when it was committed and that it was not overwritten since,
and a stored vote remembers the prevote that it consumed. Votes are cleared
exactly when the height enters a new period, which keeps every stored vote in
the period of its reveal.
-/

namespace TerraCore.Oracle

open Transition

variable {L : Type} [Sdk L]

/-- The action stores a prevote of the validator on the denomination. -/
def StoresPrevote (denom : Denom) (validator : Address) (state : Context L) (action : Action L) :
    Prop :=
  ∃ msg, action = .pricePrevote msg ∧ msg.denom = denom ∧ msg.validator = validator ∧
    ∃ done, deliverPricePrevote state msg = .ok done

/-- The origin of a stored prevote: the message that committed it, in the state
`committing`, after which no other prevote took its place. -/
structure Commit (start : Context L) (actions : List (Action L)) (ctx : Context L)
    (prevote : PricePrevote) where
  message : MsgPricePrevote
  earlier : List (Action L)
  since : List (Action L)
  actions_eq : actions = earlier ++ .pricePrevote message :: since
  committing : Context L
  committed : Context L
  reaches : Reaches step start earlier committing
  accepted : ∃ result, deliverPricePrevote committing message = .ok (result, committed)
  reachesEnd : Reaches step committed since ctx
  notReplaced : Along step (fun state action =>
    ¬StoresPrevote prevote.denom prevote.voter state action) committed since
  valid : message.validateBasic = .ok ()
  on : message.denom = prevote.denom ∧ message.validator = prevote.voter
  hash_eq : prevote.hash = message.hash
  submitBlock_eq : prevote.submitBlock = committing.height
  permitted : Permitted committing.oracle message.feeder message.validator

/-- The origin of a stored vote: a prevote, and in the following period the
message that revealed it in the state `revealing`. -/
structure CommitReveal (start : Context L) (actions : List (Action L)) (ctx : Context L)
    (vote : PriceVote) where
  commit : MsgPricePrevote
  reveal : MsgPriceVote
  earlier : List (Action L)
  between : List (Action L)
  later : List (Action L)
  actions_eq : actions =
    earlier ++ .pricePrevote commit :: between ++ .priceVote reveal :: later
  committing : Context L
  committed : Context L
  revealing : Context L
  revealed : Context L
  reachesCommit : Reaches step start earlier committing
  commitAccepted : ∃ result, deliverPricePrevote committing commit = .ok (result, committed)
  reachesReveal : Reaches step committed between revealing
  revealAccepted : ∃ result, deliverPriceVote revealing reveal = .ok (result, revealed)
  reachesEnd : Reaches step revealed later ctx
  commitOn : commit.denom = vote.denom ∧ commit.validator = vote.voter
  revealOn : reveal.denom = vote.denom ∧ reveal.validator = vote.voter ∧ reveal.price = vote.price
  notReplaced : Along step (fun state action =>
    ¬StoresPrevote vote.denom vote.voter state action) committed between
  nextPeriod : (revealing.height : ℤ) / start.oracle.params.votePeriod -
    (committing.height : ℤ) / start.oracle.params.votePeriod = 1
  samePeriod : (revealing.height : ℤ) / start.oracle.params.votePeriod =
    (ctx.height : ℤ) / start.oracle.params.votePeriod
  before : revealing.height ≤ ctx.height
  hash_eq : decodeString commit.hash =
    (voteHash L reveal.salt vote.price vote.denom vote.voter, true)
  commitSender : Permitted committing.oracle commit.feeder vote.voter
  revealSender : Permitted revealing.oracle reveal.feeder vote.voter

/-- A prevote that is neither consumed nor replaced keeps its origin. -/
def Commit.extend {start ctx next : Context L} {actions : List (Action L)} {action : Action L}
    {prevote : PricePrevote} (commit : Commit start actions ctx prevote)
    (taken : step ctx action = some next)
    (notReplaced : ¬StoresPrevote prevote.denom prevote.voter ctx action) :
    Commit start (actions ++ [action]) next prevote :=
  { commit with
    since := commit.since ++ [action]
    actions_eq := (congrArg (· ++ [action]) commit.actions_eq).trans (by simp)
    reachesEnd := commit.reachesEnd.snoc taken
    notReplaced := commit.notReplaced.snoc commit.reachesEnd notReplaced }

/-- A vote that stays stored keeps its origin as long as the period lasts. -/
def CommitReveal.extend {start ctx next : Context L} {actions : List (Action L)}
    {action : Action L} {vote : PriceVote} (origin : CommitReveal start actions ctx vote)
    (taken : step ctx action = some next) (later : ctx.height ≤ next.height)
    (samePeriod : (ctx.height : ℤ) / start.oracle.params.votePeriod =
      (next.height : ℤ) / start.oracle.params.votePeriod) :
    CommitReveal start (actions ++ [action]) next vote :=
  { origin with
    later := origin.later ++ [action]
    actions_eq := (congrArg (· ++ [action]) origin.actions_eq).trans (by simp)
    reachesEnd := origin.reachesEnd.snoc taken
    samePeriod := origin.samePeriod.trans samePeriod
    before := origin.before.trans later }

theorem decodeString_of_valid {msg : MsgPricePrevote} (valid : msg.validateBasic = .ok ()) :
    (decodeString msg.hash).2 = true := by
  unfold MsgPricePrevote.validateBasic at valid
  simp only at valid
  split at valid
  · cases valid
  · next decoded => simpa using fun failed => decoded (Or.inr failed)

/-- Revealing a committed prevote. -/
def Commit.reveal {start ctx next : Context L} {actions : List (Action L)} {msg : MsgPriceVote}
    {prevote : PricePrevote} (commit : Commit start actions ctx prevote)
    (accepted : ∃ result, deliverPriceVote ctx msg = .ok (result, next))
    (onKey : prevote.denom = msg.denom ∧ prevote.voter = msg.validator)
    (permitted : Permitted ctx.oracle msg.feeder msg.validator)
    (constant : ctx.oracle.params.votePeriod = start.oracle.params.votePeriod)
    (inPeriod : InRevealPeriod ctx prevote)
    (verified : (decodeString prevote.hash).1 =
      voteHash L msg.salt msg.price msg.denom msg.validator)
    (sameHeight : next.height = ctx.height) :
    CommitReveal start (actions ++ [.priceVote msg]) next
      ⟨msg.price, msg.denom, msg.validator⟩ where
  commit := commit.message
  reveal := msg
  earlier := commit.earlier
  between := commit.since
  later := []
  actions_eq := congrArg (· ++ [.priceVote msg]) commit.actions_eq
  committing := commit.committing
  committed := commit.committed
  revealing := ctx
  revealed := next
  reachesCommit := commit.reaches
  commitAccepted := commit.accepted
  reachesReveal := commit.reachesEnd
  revealAccepted := accepted
  reachesEnd := .refl
  commitOn := ⟨commit.on.1.trans onKey.1, commit.on.2.trans onKey.2⟩
  revealOn := ⟨rfl, rfl, rfl⟩
  notReplaced := by
    have notReplaced := commit.notReplaced
    rw [onKey.1, onKey.2] at notReplaced
    exact notReplaced
  nextPeriod := by
    have window := inPeriod
    unfold InRevealPeriod at window
    rw [commit.submitBlock_eq, constant, Int.tdiv_eq_ediv_of_nonneg (Int.natCast_nonneg _),
      Int.tdiv_eq_ediv_of_nonneg (Int.natCast_nonneg _)] at window
    exact window
  samePeriod := by rw [sameHeight]
  before := by rw [sameHeight]
  hash_eq := by
    rw [commit.hash_eq] at verified
    exact Prod.ext verified (decodeString_of_valid commit.valid)
  commitSender := by
    have permitted := commit.permitted
    rw [commit.on.2, onKey.2] at permitted
    exact permitted
  revealSender := permitted

/-- Every stored prevote and every stored vote has an origin in the run. -/
structure Traced (start : Context L) (actions : List (Action L)) (ctx : Context L) : Prop where
  votePeriod : ctx.oracle.params.votePeriod = start.oracle.params.votePeriod
  prevotes : ∀ (key : Denom × Address) prevote, ctx.oracle.prevotes[key]? = some prevote →
    Nonempty (Commit start actions ctx prevote)
  votes : ∀ (key : Denom × Address) vote, ctx.oracle.votes[key]? = some vote →
    Nonempty (CommitReveal start actions ctx vote)

/-- Steps that store no prevote only need what they store traced back to what was stored. -/
theorem Traced.extend {start ctx next : Context L} {actions : List (Action L)}
    {action : Action L} (traced : Traced start actions ctx) (taken : step ctx action = some next)
    (notPrevoted : ∀ denom validator, ¬StoresPrevote denom validator ctx action)
    (later : ctx.height ≤ next.height)
    (prevotes : ∀ (key : Denom × Address) prevote, next.oracle.prevotes[key]? = some prevote →
      ctx.oracle.prevotes[key]? = some prevote)
    (votes : ∀ (key : Denom × Address) vote, next.oracle.votes[key]? = some vote →
      ctx.oracle.votes[key]? = some vote ∧
        (ctx.height : ℤ) / start.oracle.params.votePeriod =
          (next.height : ℤ) / start.oracle.params.votePeriod) :
    Traced start (actions ++ [action]) next where
  votePeriod := (step_votePeriod taken).trans traced.votePeriod
  prevotes key prevote present := by
    rcases traced.prevotes key prevote (prevotes key prevote present) with ⟨commit⟩
    exact ⟨commit.extend taken (notPrevoted _ _)⟩
  votes key vote present := by
    rcases votes key vote present with ⟨wasStored, samePeriod⟩
    rcases traced.votes key vote wasStored with ⟨origin⟩
    exact ⟨origin.extend taken later samePeriod⟩

omit [Sdk L] in
/-- Inside a period the next height belongs to the same period. -/
theorem samePeriod_of_not_lastBlock {ctx : Context L} {votePeriod : ℤ} (positive : 0 < votePeriod)
    (notLast : ¬ctx.LastBlock votePeriod) :
    (ctx.height : ℤ) / votePeriod = ((ctx.height + 1 : ℕ) : ℤ) / votePeriod := by
  unfold Context.LastBlock at notLast
  rw [Int.tmod_eq_emod_of_nonneg (by omega)] at notLast
  push_cast
  have quotient := Int.mul_ediv_add_emod (ctx.height : ℤ) votePeriod
  have nextQuotient := Int.mul_ediv_add_emod ((ctx.height : ℤ) + 1) votePeriod
  have remainder := Int.emod_nonneg (ctx.height : ℤ) positive.ne'
  have remainderLt := Int.emod_lt_of_pos (ctx.height : ℤ) positive
  have nextRemainder := Int.emod_nonneg ((ctx.height : ℤ) + 1) positive.ne'
  have nextRemainderLt := Int.emod_lt_of_pos ((ctx.height : ℤ) + 1) positive
  -- The remainder does not wrap around, so the quotient stays.
  apply le_antisymm
  · exact Int.ediv_le_ediv positive (by omega)
  · by_contra grows
    have jump : (ctx.height : ℤ) / votePeriod + 1 ≤ ((ctx.height : ℤ) + 1) / votePeriod := by
      omega
    have scaled := mul_le_mul_of_nonneg_left jump positive.le
    rw [mul_add, mul_one] at scaled
    omega

/-- The origin of the prevote that a message has just stored. -/
def Commit.start {start ctx next : Context L} {actions : List (Action L)} {msg : MsgPricePrevote}
    (reached : Reaches step start actions ctx)
    (accepted : ∃ result, deliverPricePrevote ctx msg = .ok (result, next))
    (valid : msg.validateBasic = .ok ())
    (permitted : Permitted ctx.oracle msg.feeder msg.validator) :
    Commit start (actions ++ [.pricePrevote msg]) next
      ⟨msg.hash, msg.denom, msg.validator, ctx.height⟩ where
  message := msg
  earlier := actions
  since := []
  actions_eq := rfl
  committing := ctx
  committed := next
  reaches := reached
  accepted := accepted
  reachesEnd := .refl
  notReplaced := trivial
  valid := valid
  on := ⟨rfl, rfl⟩
  hash_eq := rfl
  submitBlock_eq := rfl
  permitted := permitted

/-- A prevote starts a trace of its own and ends that of the prevote it replaces. -/
theorem Traced.prevoted {start ctx next : Context L} {actions : List (Action L)}
    {msg : MsgPricePrevote} (traced : Traced start actions ctx)
    (reached : Reaches step start actions ctx)
    (taken : step ctx (.pricePrevote msg) = some next)
    (accepted : ∃ result, deliverPricePrevote ctx msg = .ok (result, next))
    (valid : msg.validateBasic = .ok ())
    (permitted : Permitted ctx.oracle msg.feeder msg.validator)
    (nextEq : next = { ctx with
      oracle := ctx.oracle.addPrevote ⟨msg.hash, msg.denom, msg.validator, ctx.height⟩ }) :
    Traced start (actions ++ [.pricePrevote msg]) next := by
  subst nextEq
  refine ⟨traced.votePeriod, ?_, ?_⟩
  · intro key prevote present
    rcases Store.cases_get_insert present with ⟨-, rfl⟩ | ⟨different, stored⟩
    · exact ⟨Commit.start reached accepted valid permitted⟩
    · rcases traced.prevotes key prevote stored with ⟨commit⟩
      refine ⟨commit.extend taken ?_⟩
      rintro ⟨other, ⟨rfl⟩, denomEq, validatorEq, -⟩
      apply different
      rw [denomEq, validatorEq]
      exact ctx.oracle.prevotes_keyed key prevote stored
  · intro key vote present
    rcases traced.votes key vote present with ⟨origin⟩
    exact ⟨origin.extend taken le_rfl rfl⟩

/-- The prevote that a vote reveals becomes the origin of the vote. -/
theorem Traced.voted {start ctx next : Context L} {actions : List (Action L)} {msg : MsgPriceVote}
    {prevote : PricePrevote} (traced : Traced start actions ctx)
    (taken : step ctx (.priceVote msg) = some next)
    (accepted : ∃ result, deliverPriceVote ctx msg = .ok (result, next))
    (found : ctx.oracle.prevotes[(msg.denom, msg.validator)]? = some prevote)
    (permitted : Permitted ctx.oracle msg.feeder msg.validator)
    (inPeriod : InRevealPeriod ctx prevote)
    (verified : (decodeString prevote.hash).1 =
      voteHash L msg.salt msg.price msg.denom msg.validator)
    (nextEq : next = { ctx with
      oracle := (ctx.oracle.deletePrevotes [prevote]).addVote
        ⟨msg.price, msg.denom, msg.validator⟩ }) :
    Traced start (actions ++ [.priceVote msg]) next := by
  subst nextEq
  refine ⟨traced.votePeriod, ?_, ?_⟩
  · intro key other present
    rcases traced.prevotes key other (Store.get_of_get_eraseAll present) with ⟨commit⟩
    refine ⟨commit.extend taken ?_⟩
    rintro ⟨_, isPrevote, -⟩
    cases isPrevote
  · intro key vote present
    rcases Store.cases_get_insert present with ⟨-, rfl⟩ | ⟨-, stored⟩
    · have onKey : prevote.denom = msg.denom ∧ prevote.voter = msg.validator := by
        simpa using ctx.oracle.prevotes_keyed _ _ found
      rcases traced.prevotes _ prevote found with ⟨commit⟩
      exact ⟨commit.reveal accepted onKey permitted traced.votePeriod inPeriod verified rfl⟩
    · rcases traced.votes key vote stored with ⟨origin⟩
      exact ⟨origin.extend taken le_rfl rfl⟩

theorem step_traced {start ctx next : Context L} {actions : List (Action L)} {action : Action L}
    (positive : 0 < start.oracle.params.votePeriod) (traced : Traced start actions ctx)
    (reached : Reaches step start actions ctx) (taken : step ctx action = some next) :
    Traced start (actions ++ [action]) next := by
  cases step_effect taken with
  | kept notPrevoted keeps =>
      refine traced.extend taken ?_ keeps.height.ge ?_ ?_
      · rintro denom validator ⟨msg, isPrevote, -, -, done, accepted⟩
        exact notPrevoted msg isPrevote done accepted
      · intro key prevote present
        rw [← keeps.prevotes]
        exact present
      · intro key vote present
        rw [← keeps.votes, keeps.height]
        exact ⟨present, rfl⟩
  | prevoted accepted valid permitted nextEq =>
      exact traced.prevoted reached taken accepted valid permitted nextEq
  | voted accepted found permitted inPeriod verified nextEq =>
      exact traced.voted taken accepted found permitted inPeriod verified nextEq
  | ended height notLast oracleEq =>
      refine traced.extend taken ?_ (by omega) ?_ ?_
      · rintro denom validator ⟨_, isPrevote, -⟩
        cases isPrevote
      · intro key prevote present
        rw [← oracleEq]
        exact present
      · intro key vote present
        rw [traced.votePeriod] at notLast
        rw [← oracleEq, height]
        exact ⟨present, samePeriod_of_not_lastBlock positive notLast⟩
  | periodEnded height last staking rewarded oracleEq =>
      refine traced.extend taken ?_ (by omega) ?_ ?_
      · rintro denom validator ⟨_, isPrevote, -⟩
        cases isPrevote
      · intro key prevote present
        exact prevote_stored_before rewarded oracleEq present
      · intro key vote present
        rw [oracleEq, tallied_votes, Store.get_empty] at present
        cases present

theorem reaches_traced {params : Params} {start ctx : Context L} {actions : List (Action L)}
    (fresh : start.oracle = OracleStore.initGenesis params) (positive : 0 < params.votePeriod)
    (reached : Reaches step start actions ctx) : Traced start actions ctx := by
  induction reached with
  | refl =>
      -- Nothing is stored at the beginning.
      refine ⟨rfl, ?_, ?_⟩
      · intro key prevote present
        rw [fresh] at present
        exact absurd present (by simp [OracleStore.initGenesis])
      · intro key vote present
        rw [fresh] at present
        exact absurd present (by simp [OracleStore.initGenesis])
  | snoc before taken ih =>
      apply step_traced _ ih before taken
      rw [fresh]
      exact positive

/-- Commit-reveal safety: a vote that is stored at any point of a run was
committed by a prevote and revealed in the next period, which is still going on;
nothing replaced the prevote in between, its hash is the hash of what was
revealed, and both senders were allowed to act for the validator. -/
theorem stored_vote_was_committed {params : Params} {start ctx : Context L}
    {actions : List (Action L)} (fresh : start.oracle = OracleStore.initGenesis params)
    (positive : 0 < params.votePeriod) (reached : Reaches step start actions ctx)
    {denom : Denom} {validator : Address} {vote : PriceVote}
    (present : ctx.oracle.votes[(denom, validator)]? = some vote) :
    vote.denom = denom ∧ vote.voter = validator ∧
      Nonempty (CommitReveal start actions ctx vote) := by
  have traced := reaches_traced fresh positive reached
  have keyed := ctx.oracle.votes_keyed _ _ present
  simp only [Prod.mk.injEq] at keyed
  exact ⟨keyed.1, keyed.2, traced.votes _ vote present⟩

theorem stored_vote_was_committed_sample :
    ∃ ctx : Context Book,
      ctx.oracle.votes[(microSDRDenom, (List.replicate 20 1 : Address))]? =
          some ⟨Dec.one, microSDRDenom, List.replicate 20 1⟩ ∧
        Nonempty (CommitReveal sampleStart sampleActions ctx
          ⟨Dec.one, microSDRDenom, List.replicate 20 1⟩) := by
  rcases Option.map_eq_some_iff.mp sampleActions_stores_vote with ⟨ctx, performed, present⟩
  exact ⟨ctx, present, (stored_vote_was_committed rfl (by decide) (reaches_of_perform performed)
    present).2.2⟩

end TerraCore.Oracle
