import TerraCore.Chain.Recast
import TerraCore.Library.Interleaving

/-!
# The oracle as a protocol between participants

A block interleaves the messages of all validators with every other message of
the chain. Two facts say that the interleaving does not matter. The order in
which the messages of different validators and the rest of the chain are put
between two ends of blocks has no effect on the state. And what a validator has
committed, revealed and delegated is the result of its own messages: the run of
the whole chain refines a run of its local rules over what concerns it.
-/

namespace TerraCore.Chain.Block

open Oracle Transition

variable {L : Type} [Sdk L]

theorem deliver_moved (ctx : Context L) {msg : Msg} {validator : Address} {made : Move}
    (isMove : move msg = some (validator, made)) :
    Acted L validator made ctx (ctx.deliver (handle ctx msg)) := by
  cases msg with
  | pricePrevote msg =>
      cases isMove
      exact handleMsgPricePrevote_moves ctx msg
  | priceVote msg =>
      cases isMove
      exact handleMsgPriceVote_moves ctx msg
  | delegateFeederPermission msg =>
      cases isMove
      exact handleMsgDelegateFeederPermission_moves ctx msg
  | _ => cases isMove

/-- A move is accepted by the rule of the participant. -/
theorem handle_accepted (ctx : Context L) {msg : Msg} {validator : Address} {made : Move}
    (isMove : move msg = some (validator, made)) :
    (∃ done, handle ctx msg = .ok done) ↔
      (participant ctx validator).accepts L validator made = true := by
  cases msg with
  | pricePrevote msg =>
      cases isMove
      exact handleMsgPricePrevote_accepted ctx msg
  | priceVote msg =>
      cases isMove
      exact handleMsgPriceVote_accepted ctx msg
  | delegateFeederPermission msg =>
      cases isMove
      exact handleMsgDelegateFeederPermission_accepted ctx msg
  | _ => cases isMove

/-- A move reaches the participants only. -/
theorem deliver_move_recast (ctx : Context L) {msg : Msg} {validator : Address} {made : Move}
    (isMove : move msg = some (validator, made)) (poll : Poll) :
    (ctx.deliver (handle ctx msg)).recast poll = ctx.recast poll := by
  rcases ctx.deliver_cases (handle ctx msg) with ⟨result, handled⟩ | ⟨-, same⟩
  · cases msg with
    | pricePrevote msg =>
        rw [(handleMsgPricePrevote_eq_ok handled).2.2]
        rfl
    | priceVote msg =>
        rcases handleMsgPriceVote_eq_ok handled with ⟨_, -, -, -, -, afterEq⟩
        rw [afterEq]
        rfl
    | delegateFeederPermission msg =>
        rw [handleMsgDelegateFeederPermission_eq_ok handled]
        rfl
    | _ => cases isMove
  · rw [same]

/-- The parts are the participants and, under no address, the rest of the chain.
A message belongs to one of them. What happens elsewhere and the end of a block
concern all of them. -/
def Touches : Event L → Option Address → Prop
  | .deliver msg, part => part = (move msg).map Prod.fst
  | .elsewhere _, _ => True
  | .endBlock _ _, _ => True

instance (part : Option Address) : DecidablePred fun event : Event L => Touches event part
  | .deliver msg => inferInstanceAs (Decidable (part = (move msg).map Prod.fst))
  | .elsewhere _ => inferInstanceAs (Decidable True)
  | .endBlock _ _ => inferInstanceAs (Decidable True)

omit [Sdk L] in
theorem exists_touches (event : Event L) : ∃ part, Touches event part := by
  cases event with
  | deliver msg => exact ⟨(move msg).map Prod.fst, rfl⟩
  | elsewhere environment => exact ⟨none, trivial⟩
  | endBlock order accountKeeper => exact ⟨none, trivial⟩

/-- Moves of two validators can be swapped. -/
theorem deliver_moves_comm (ctx : Context L) {first second : Msg} {left right : Address}
    {leftMove rightMove : Move} (isFirst : move first = some (left, leftMove))
    (isSecond : move second = some (right, rightMove)) (different : left ≠ right) :
    (ctx.deliver (handle ctx first)).deliver (handle (ctx.deliver (handle ctx first)) second) =
      (ctx.deliver (handle ctx second)).deliver
        (handle (ctx.deliver (handle ctx second)) first) := by
  apply eq_of_participants ctx.oracle.poll
  · rw [deliver_move_recast _ isSecond, deliver_move_recast _ isFirst,
      deliver_move_recast _ isFirst, deliver_move_recast _ isSecond]
  · intro validator
    rw [deliver_moved _ isSecond, deliver_moved _ isFirst, deliver_moved _ isFirst,
      deliver_moved _ isSecond]
    by_cases isLeft : validator = left
    · have notRight : validator ≠ right := fun same => different (isLeft.symm.trans same)
      simp [isLeft, different]
    · simp [isLeft]

/-- A move can be swapped with any other message. -/
theorem deliver_move_comm (ctx : Context L) {moving other : Msg} {validator : Address}
    {made : Move} (isMove : move moving = some (validator, made)) (isOther : move other = none) :
    (ctx.deliver (handle ctx moving)).deliver (handle (ctx.deliver (handle ctx moving)) other) =
      (ctx.deliver (handle ctx other)).deliver (handle (ctx.deliver (handle ctx other)) moving) := by
  have aside := deliver_aside ctx isOther
  apply eq_of_participants ctx.oracle.poll
  · -- The rest of the chain sees the other message only.
    rw [← deliver_recast _ _ isOther, deliver_move_recast _ isMove, deliver_move_recast _ isMove,
      deliver_recast _ _ isOther]
  · intro each
    rw [(deliver_aside _ isOther).participant_eq, deliver_moved _ isMove, deliver_moved _ isMove,
      aside.participant_eq]

theorem step_commutes : Interleaving.Commutes (@step L _) Touches := by
  intro first second independent state
  cases first with
  | deliver first =>
      cases second with
      | deliver second =>
          simp only [step, Option.bind_some, Option.some.injEq]
          have apart : (move first).map Prod.fst ≠ (move second).map Prod.fst :=
            fun same => independent _ rfl same
          cases isFirst : move first with
          | none =>
              cases isSecond : move second with
              | none =>
                  rw [isFirst, isSecond] at apart
                  exact absurd rfl apart
              | some made => exact (deliver_move_comm state isSecond isFirst).symm
          | some made =>
              cases isSecond : move second with
              | none => exact deliver_move_comm state isFirst isSecond
              | some other =>
                  rw [isFirst, isSecond] at apart
                  refine deliver_moves_comm state isFirst isSecond fun same => apart ?_
                  exact congrArg some same
      | elsewhere environment => exact absurd trivial (independent _ rfl)
      | endBlock order accountKeeper => exact absurd trivial (independent _ rfl)
  | elsewhere environment =>
      rcases exists_touches second with ⟨part, touched⟩
      exact absurd touched (independent part trivial)
  | endBlock order accountKeeper =>
      rcases exists_touches second with ⟨part, touched⟩
      exact absurd touched (independent part trivial)

/-- Two orders of the same events end in the same state, if the oracle messages
of each validator have the same order in both, with respect to each other, to
the ends of blocks and to what happens elsewhere on the chain, and so have all
other messages. -/
theorem interleavings_agree {first second : List (Event L)}
    (same : ∀ part, Interleaving.view Touches part first = Interleaving.view Touches part second)
    (start : Context L) : perform step start first = perform step start second :=
  Interleaving.perform_eq_of_views step_commutes exists_touches same start

/-- The second validator commits to the same hash as the first one. -/
def otherPrevote : MsgPricePrevote :=
  { samplePrevote with feeder := List.replicate 20 2, validator := List.replicate 20 2 }

/-- Two validators commit while a program is submitted. -/
def sampleEvents : List (Event Book) :=
  [.deliver (.pricePrevote samplePrevote), .deliver (.submitProgram Budget.sampleProgram),
    .deliver (.pricePrevote otherPrevote), .endBlock MapOrder.sorted .empty]

def swappedEvents : List (Event Book) :=
  [.deliver (.pricePrevote otherPrevote), .deliver (.pricePrevote samplePrevote),
    .deliver (.submitProgram Budget.sampleProgram), .endBlock MapOrder.sorted .empty]

theorem interleavings_agree_sample :
    perform step Budget.sampleStart sampleEvents =
      perform step Budget.sampleStart swappedEvents := by
  refine interleavings_agree ?_ Budget.sampleStart
  intro part
  have ownFirst (other : Option Address) :
      Touches (.deliver (.pricePrevote samplePrevote) : Event Book) other ↔
        other = some (List.replicate 20 1) := Iff.rfl
  have ownSecond (other : Option Address) :
      Touches (.deliver (.pricePrevote otherPrevote) : Event Book) other ↔
        other = some (List.replicate 20 2) := Iff.rfl
  have ownRest (other : Option Address) :
      Touches (.deliver (.submitProgram Budget.sampleProgram) : Event Book) other ↔
        other = none := Iff.rfl
  have all (other : Option Address) :
      Touches (.endBlock MapOrder.sorted .empty : Event Book) other := trivial
  simp only [Interleaving.view, sampleEvents, swappedEvents, List.filter_cons, List.filter_nil,
    ownFirst, ownSecond, ownRest, all]
  by_cases isFirst : part = some (List.replicate 20 1)
  · subst isFirst
    rfl
  · by_cases isSecond : part = some (List.replicate 20 2)
    · subst isSecond
      rfl
    · simp only [decide_eq_true_eq, if_neg isFirst, if_neg isSecond]

/-- What a validator notices of an event. -/
inductive Notice where
  | move (move : Move)
  | elsewhere (votePeriod : ℤ) (bonded : Bool)
  | endBlock

def notice (validator : Address) : Event L → Option Notice
  | .deliver msg =>
      match move msg with
      | some (owner, made) => if owner = validator then some (.move made) else none
      | none => none
  | .elsewhere environment =>
      some (.elsewhere environment.oracleParams.votePeriod
        (environment.staking.validator validator).isSome)
  | .endBlock _ _ => some .endBlock

variable (L) in
/-- The rules of the oracle for one validator. -/
def follow (validator : Address) (local_ : Participant) : Notice → Participant
  | .move made => local_.act L validator made
  | .elsewhere votePeriod bonded => { local_ with votePeriod, bonded }
  | .endBlock => local_.endBlock

theorem endBlock_participant {order : MapOrder} {accountKeeper : Update.AccountKeeper}
    {before after : Context L} (taken : step before (.endBlock order accountKeeper) = some after)
    (validator : Address) :
    participant after validator = (participant before validator).endBlock := by
  rcases step_endBlock_stages taken with ⟨closed, _, updated, closes, update, band, cap, rfl⟩
  rcases Outcome.bind_eq_ok.mp closes with ⟨⟨_, tallied⟩, tally, closes⟩
  rcases Outcome.bind_eq_ok.mp closes with ⟨⟨_, rewarded⟩, reward, closes⟩
  cases closes
  have aside : Aside tallied updated :=
    (budgetEndBlocker_aside reward).trans (treasuryEndBlocker_aside update)
  have ended : Aside { tallied with height := tallied.height + 1 }
      { Update.withParams updated band cap with height := updated.height + 1 } :=
    ⟨congrArg (· + 1) aside.height, aside.poll, aside.votePeriod, aside.validator, aside.bonded⟩
  rw [ended.participant_eq, endBlocker_participant tally]

/-- One event of the chain is what the validator notices of it, or nothing. -/
theorem step_participant {before after : Context L} {event : Event L}
    (taken : step before event = some after) (validator : Address) :
    participant after validator =
      ((notice validator event).elim (participant before validator)
        (follow L validator (participant before validator))) := by
  cases event with
  | deliver msg =>
      cases taken
      simp only [notice]
      cases made : move msg with
      | none => exact (deliver_aside before made).participant_eq validator
      | some ownedMove =>
          rw [deliver_moved before made validator]
          by_cases here : ownedMove.1 = validator
          · simp [here, follow]
          · simp [here, Ne.symm here]
  | elsewhere environment =>
      cases taken
      rfl
  | endBlock order accountKeeper => exact endBlock_participant taken validator

/-- Whatever the rest of the chain does, what the oracle keeps of a validator is
the result of its own moves under the local rules, and so is the answer to the
next one. -/
theorem participant_refines {start finish : Context L} {events : List (Event L)}
    (reached : Reaches step start events finish) (validator : Address) :
    participant finish validator =
        (events.filterMap (notice validator)).foldl (follow L validator)
          (participant start validator) ∧
      ∀ msg made, move msg = some (validator, made) →
        ((∃ done, handle finish msg = .ok done) ↔
          ((events.filterMap (notice validator)).foldl (follow L validator)
            (participant start validator)).accepts L validator made = true) := by
  have localRun : participant finish validator =
      (events.filterMap (notice validator)).foldl (follow L validator)
        (participant start validator) := by
    induction reached with
    | refl => rfl
    | @snoc earlier state next event before taken ih =>
        rw [step_participant taken, ih, List.filterMap_append, List.foldl_append]
        cases noticed : notice validator event with
        | none => simp [noticed]
        | some seen => simp [noticed]
  refine ⟨localRun, ?_⟩
  intro msg made isMove
  rw [← localRun]
  exact handle_accepted finish isMove

theorem sampleEvents_reach :
    ∃ finish, Reaches step Budget.sampleStart sampleEvents finish := by
  have finishes : (perform step Budget.sampleStart sampleEvents).isSome = true := by
    decide +kernel
  rcases Option.isSome_iff_exists.mp finishes with ⟨finish, performed⟩
  exact ⟨finish, reaches_of_perform performed⟩

theorem participant_refines_sample :
    ∃ finish : Context Book,
      (participant finish (List.replicate 20 1)).committed microSDRDenom =
        some (samplePrevote.hash, 0) := by
  rcases sampleEvents_reach with ⟨finish, reached⟩
  refine ⟨finish, ?_⟩
  rw [(participant_refines reached (List.replicate 20 1)).1]
  decide +kernel

end TerraCore.Chain.Block
