import TerraCore.Library.Transition
import TerraCore.Oracle.Handler
import TerraCore.Oracle.Tally

/-!
# Runs of the oracle

A run interleaves the messages of the oracle with its end blocker, which ends
a block. Between these steps the rest of the chain may do anything: of the
oracle store it can reach nothing but the swap fee pool and the parameters
other than the vote period.
-/

namespace TerraCore.Oracle

variable {L : Type} [Sdk L]

/-- What can happen to the oracle. -/
inductive Action (L : Type) where
  | pricePrevote (msg : MsgPricePrevote)
  | priceVote (msg : MsgPriceVote)
  | delegateFeederPermission (msg : MsgDelegateFeederPermission)
  | endBlock (order : MapOrder)
  | elsewhere (change : Context L → Context L)

def deliverPricePrevote (ctx : Context L) (msg : MsgPricePrevote) :
    Outcome (Result × Context L) := do
  msg.validateBasic
  handleMsgPricePrevote ctx msg

def deliverPriceVote (ctx : Context L) (msg : MsgPriceVote) : Outcome (Result × Context L) := do
  msg.validateBasic
  handleMsgPriceVote ctx msg

def deliverDelegateFeederPermission (ctx : Context L) (msg : MsgDelegateFeederPermission) :
    Outcome (Result × Context L) := do
  msg.validateBasic
  handleMsgDelegateFeederPermission ctx msg

/-- Everything outside of the oracle changes in an arbitrary way. -/
def elsewhere (change : Context L → Context L) (ctx : Context L) : Context L :=
  { change ctx with
    height := ctx.height
    oracle :=
      { ctx.oracle with
        params :=
          { (change ctx).oracle.params with votePeriod := ctx.oracle.params.votePeriod }
        swapFeePool := (change ctx).oracle.swapFeePool } }

/-- One step. A failed message is rolled back; a panic of the end blocker halts the chain. -/
def step (ctx : Context L) : Action L → Option (Context L)
  | .pricePrevote msg => some (ctx.deliver (deliverPricePrevote ctx msg))
  | .priceVote msg => some (ctx.deliver (deliverPriceVote ctx msg))
  | .delegateFeederPermission msg => some (ctx.deliver (deliverDelegateFeederPermission ctx msg))
  | .endBlock order =>
      match endBlocker order ctx with
      | .ok (_, after) => some { after with height := after.height + 1 }
      | .error _ => none
  | .elsewhere change => some (elsewhere change ctx)

omit [Sdk L] in
theorem deliverPricePrevote_eq_ok {ctx after : Context L} {msg : MsgPricePrevote} {result : Result}
    (done : deliverPricePrevote ctx msg = .ok (result, after)) :
    msg.validateBasic = .ok () ∧ handleMsgPricePrevote ctx msg = .ok (result, after) := by
  rcases Outcome.bind_eq_ok.mp done with ⟨_, valid, handled⟩
  exact ⟨valid, handled⟩

theorem deliverPriceVote_eq_ok {ctx after : Context L} {msg : MsgPriceVote} {result : Result}
    (done : deliverPriceVote ctx msg = .ok (result, after)) :
    msg.validateBasic = .ok () ∧ handleMsgPriceVote ctx msg = .ok (result, after) := by
  rcases Outcome.bind_eq_ok.mp done with ⟨_, valid, handled⟩
  exact ⟨valid, handled⟩

/-- The oracle store at the end of a block. -/
theorem endBlock_cases {ctx next : Context L} {order : MapOrder}
    (taken : step ctx (.endBlock order) = some next) :
    next.height = ctx.height + 1 ∧
      ((¬ctx.LastBlock ctx.oracle.params.votePeriod ∧ next.oracle = ctx.oracle) ∨
        (ctx.LastBlock ctx.oracle.params.votePeriod ∧
          ∃ paid : Context L, paid.height = ctx.height ∧ paid.staking = ctx.staking ∧
            paid.oracle = settled ctx.oracle ∧ next.oracle = tallied order paid)) := by
  by_cases last : ctx.LastBlock ctx.oracle.params.votePeriod
  · rcases endBlocker_of_lastBlock order last with
      ⟨tags, paid, finished, oracleEq, stakingEq, -, changes⟩
    simp only [step, finished, Option.some.injEq] at taken
    subst taken
    refine ⟨?_, Or.inr ⟨last, paid, changes.height, stakingEq, oracleEq, rfl⟩⟩
    change paid.height + 1 = ctx.height + 1
    rw [changes.height]
  · by_cases isZero : ctx.oracle.params.votePeriod = 0
    · simp [step, endBlocker, Context.isPeriodLastBlock, isZero, bind, Except.bind] at taken
    · simp only [step, endBlocker_of_not_lastBlock order isZero last,
        Option.some.injEq] at taken
      subst taken
      exact ⟨rfl, Or.inl ⟨last, rfl⟩⟩

theorem tallied_frame (order : MapOrder) (ctx : Context L) :
    (tallied order ctx).params = ctx.oracle.params ∧
      ∀ (key : Denom × Address) prevote, (tallied order ctx).prevotes[key]? = some prevote →
        ctx.oracle.prevotes[key]? = some prevote :=
  ⟨rfl, fun _ _ present => Store.get_of_get_eraseAll present⟩

/-- The end of a period stores no prevote. -/
theorem prevote_stored_before {order : MapOrder} {ctx next paid : Context L}
    (rewarded : paid.oracle = settled ctx.oracle) (oracleEq : next.oracle = tallied order paid)
    {key : Denom × Address} {prevote : PricePrevote}
    (present : next.oracle.prevotes[key]? = some prevote) :
    ctx.oracle.prevotes[key]? = some prevote := by
  rw [oracleEq] at present
  have wasStored := (tallied_frame _ _).2 key prevote present
  rw [rewarded, (settled_frame ctx.oracle).2.2.1] at wasStored
  exact wasStored

/-- The parts of the oracle store that commits, reveals and tallies work on stay the same. -/
structure Keeps (ctx next : Context L) : Prop where
  height : next.height = ctx.height
  prevotes : next.oracle.prevotes = ctx.oracle.prevotes
  votes : next.oracle.votes = ctx.oracle.votes
  claims : next.oracle.claims = ctx.oracle.claims
  votePeriod : next.oracle.params.votePeriod = ctx.oracle.params.votePeriod

omit [Sdk L] in
theorem Keeps.refl (ctx : Context L) : Keeps ctx ctx := ⟨rfl, rfl, rfl, rfl, rfl⟩

/-- Everything that a step can do to prevotes, votes and claims. -/
inductive Effect (ctx : Context L) : Action L → Context L → Prop where
  | kept {action : Action L} {next : Context L}
      (notPrevoted : ∀ msg, action = .pricePrevote msg →
        ∀ done, deliverPricePrevote ctx msg ≠ .ok done)
      (keeps : Keeps ctx next) : Effect ctx action next
  | prevoted {msg : MsgPricePrevote} {next : Context L}
      (accepted : ∃ result, deliverPricePrevote ctx msg = .ok (result, next))
      (valid : msg.validateBasic = .ok ())
      (permitted : Permitted ctx.oracle msg.feeder msg.validator)
      (nextEq : next = { ctx with
        oracle := ctx.oracle.addPrevote ⟨msg.hash, msg.denom, msg.validator, ctx.height⟩ }) :
      Effect ctx (.pricePrevote msg) next
  | voted {msg : MsgPriceVote} {next : Context L} {prevote : PricePrevote}
      (accepted : ∃ result, deliverPriceVote ctx msg = .ok (result, next))
      (found : ctx.oracle.prevotes[(msg.denom, msg.validator)]? = some prevote)
      (permitted : Permitted ctx.oracle msg.feeder msg.validator)
      (inPeriod : InRevealPeriod ctx prevote)
      (verified : (decodeString prevote.hash).1 =
        voteHash L msg.salt msg.price msg.denom msg.validator)
      (nextEq : next = { ctx with
        oracle := (ctx.oracle.deletePrevotes [prevote]).addVote
          ⟨msg.price, msg.denom, msg.validator⟩ }) :
      Effect ctx (.priceVote msg) next
  | ended {order : MapOrder} {next : Context L} (height : next.height = ctx.height + 1)
      (notLast : ¬ctx.LastBlock ctx.oracle.params.votePeriod)
      (oracleEq : next.oracle = ctx.oracle) : Effect ctx (.endBlock order) next
  | periodEnded {order : MapOrder} {next paid : Context L} (height : next.height = ctx.height + 1)
      (last : ctx.LastBlock ctx.oracle.params.votePeriod)
      (staking : paid.staking = ctx.staking) (rewarded : paid.oracle = settled ctx.oracle)
      (oracleEq : next.oracle = tallied order paid) : Effect ctx (.endBlock order) next

theorem step_effect {ctx next : Context L} {action : Action L}
    (taken : step ctx action = some next) : Effect ctx action next := by
  cases action with
  | pricePrevote msg =>
      cases taken
      rcases ctx.deliver_cases (deliverPricePrevote ctx msg) with ⟨result, done⟩ | ⟨failed, same⟩
      · rcases deliverPricePrevote_eq_ok done with ⟨valid, handled⟩
        rcases handleMsgPricePrevote_eq_ok handled with ⟨permitted, -, nextEq⟩
        exact .prevoted ⟨result, done⟩ valid permitted nextEq
      · rw [same]
        refine .kept ?_ (Keeps.refl ctx)
        rintro _ ⟨rfl⟩
        exact failed
  | priceVote msg =>
      cases taken
      rcases ctx.deliver_cases (deliverPriceVote ctx msg) with ⟨result, done⟩ | ⟨_, same⟩
      · rcases deliverPriceVote_eq_ok done with ⟨-, handled⟩
        rcases handleMsgPriceVote_eq_ok handled with
          ⟨prevote, found, permitted, inPeriod, verified, nextEq⟩
        exact .voted ⟨result, done⟩ found permitted inPeriod verified nextEq
      · rw [same]
        exact .kept (by simp) (Keeps.refl ctx)
  | delegateFeederPermission msg =>
      cases taken
      refine .kept (by simp) ?_
      rcases ctx.deliver_cases (deliverDelegateFeederPermission ctx msg) with
        ⟨result, done⟩ | ⟨_, same⟩
      · rcases Outcome.bind_eq_ok.mp done with ⟨_, -, handled⟩
        rw [handleMsgDelegateFeederPermission_eq_ok handled]
        exact ⟨rfl, rfl, rfl, rfl, rfl⟩
      · rw [same]
        exact Keeps.refl ctx
  | endBlock order =>
      rcases endBlock_cases taken with
        ⟨height, ⟨notLast, same⟩ | ⟨last, paid, -, staking, rewarded, oracleEq⟩⟩
      · exact .ended height notLast same
      · exact .periodEnded height last staking rewarded oracleEq
  | elsewhere change =>
      cases taken
      exact .kept (by simp) ⟨rfl, rfl, rfl, rfl, rfl⟩

/-- The vote period is never changed. -/
theorem step_votePeriod {ctx next : Context L} {action : Action L}
    (taken : step ctx action = some next) :
    next.oracle.params.votePeriod = ctx.oracle.params.votePeriod := by
  cases step_effect taken with
  | kept _ keeps => exact keeps.votePeriod
  | prevoted _ _ _ nextEq => rw [nextEq]; rfl
  | voted _ _ _ _ _ nextEq => rw [nextEq]; rfl
  | ended _ _ oracleEq => rw [oracleEq]
  | periodEnded _ _ _ rewarded oracleEq =>
      rw [oracleEq, (tallied_frame _ _).1, rewarded, (settled_frame ctx.oracle).2.1]

/-- A validator commits to a price in one block and reveals it in the next one. -/
def sampleStart : Context Book :=
  { Context.genesis Book.empty (Staking.single (List.replicate 20 1) 10 single_length) with
    oracle := OracleStore.initGenesis { defaultParams with votePeriod := 1 } }

def samplePrevote : MsgPricePrevote :=
  ⟨ascii "34b6b48c1a1086ed55d923b6617af9cf79e17aea", microSDRDenom, List.replicate 20 1,
    List.replicate 20 1⟩

def sampleVote : MsgPriceVote :=
  ⟨Dec.one, ascii "1", microSDRDenom, List.replicate 20 1, List.replicate 20 1⟩

def sampleActions : List (Action Book) :=
  [.pricePrevote samplePrevote, .endBlock MapOrder.sorted, .priceVote sampleVote]

theorem sampleActions_stores_vote :
    (Transition.perform step sampleStart sampleActions).map (fun ctx =>
      ctx.oracle.votes[(microSDRDenom, (List.replicate 20 1 : Address))]?) =
        some (some ⟨Dec.one, microSDRDenom, List.replicate 20 1⟩) := by
  decide +kernel

theorem sampleActions_last :
    (Transition.perform step sampleStart sampleActions).map (fun ctx =>
      decide (ctx.LastBlock ctx.oracle.params.votePeriod)) = some true := by
  decide +kernel

end TerraCore.Oracle
