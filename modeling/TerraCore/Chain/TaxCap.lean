import TerraCore.Chain.TaxProceeds
import TerraCore.Treasury.Indicators

/-!
# Tax caps of a run

The cap of a denomination is computed when it is first needed and kept for good.
What is kept is the policy cap at the rates of that moment, or its bare number
when it cannot be converted, for instance because the denomination has no price
yet. So a first use before the first price decides the cap for all time.
-/

namespace TerraCore.Chain.Block

open Transition Treasury Pay

variable {L : Type}

/-- The policy cap in another denomination at the current rates, or the same
number when a rate is missing or the result is zero. -/
def capWorth (ctx : Context L) (denom : Denom) : ℤ :=
  let cap := ctx.treasury.params.taxPolicy.cap
  (Market.quotedAmount ctx cap denom).getD cap.amount

/-- A denomination without a price takes the number of the policy cap. -/
theorem capWorth_of_unpriced {ctx : Context L} {denom : Denom}
    (unpriced : ∀ rate, ctx.oracle.getLunaSwapRate denom ≠ .ok rate) :
    capWorth ctx denom = ctx.treasury.params.taxPolicy.cap.amount := by
  have unquoted : Market.quotedAmount ctx ctx.treasury.params.taxPolicy.cap denom = none := by
    rw [Option.eq_none_iff_forall_ne_some]
    intro ret quoted
    rcases Market.quotedAmount_eq_some.mp quoted with ⟨_, askRate, -, known, -⟩
    exact unpriced askRate known
  rw [capWorth, unquoted, Option.getD_none]

variable [Sdk L]

/-- A quote for the treasury is the quoted amount. -/
theorem getSwapCoin_quotedAmount {ctx after : Context L} {offerCoin retCoin : Coin}
    {askDenom : Denom} {spread : Dec}
    (done : Market.getSwapCoin ctx offerCoin askDenom true = .ok (retCoin, spread, after)) :
    Market.quotedAmount ctx offerCoin askDenom = some retCoin.amount := by
  rcases Market.getSwapCoin_eq_ok done with ⟨⟨offerRate, askRate, exact, quote⟩, -, -⟩
  have divided := quote.exact_eq
  rw [Dec.quo_eq] at divided
  split at divided
  · cases divided
  · cases divided
    exact Market.quotedAmount_eq_some.mpr ⟨offerRate, askRate, quote.offerRate_eq,
      quote.askRate_eq, quote.amount, quote.positive.ne'⟩

/-- The treasury is refused a quote only when there is no amount. -/
theorem getSwapCoin_unquoted {ctx : Context L} {offerCoin : Coin} {askDenom : Denom}
    {error : SdkError}
    (refused : Market.getSwapCoin ctx offerCoin askDenom true = .error (.error error)) :
    Market.quotedAmount ctx offerCoin askDenom = none := by
  rw [Option.eq_none_iff_forall_ne_some]
  intro ret quoted
  rcases Market.quotedAmount_eq_some.mp quoted with
    ⟨offerRate, askRate, offerKnown, askKnown, retEq, nonzero⟩
  by_cases zeroRate : offerRate.raw = 0
  · simp only [Market.getSwapCoin, Market.effectivePrice_eq_ok.mpr offerKnown,
      Market.effectivePrice_eq_ok.mpr askKnown, Dec.quo_eq, if_pos zeroRate, bind,
      Except.bind] at refused
    cases refused
  · rw [Market.getSwapCoin_eq offerKnown askKnown zeroRate, ← retEq] at refused
    simp only [if_neg nonzero, true_or, if_true] at refused
    cases made : newCoin askDenom ret with
    | ok coin =>
        rw [made] at refused
        cases refused
    | error failure =>
        rw [made] at refused
        cases refused
        simp only [newCoin] at made
        split at made
        · split at made <;> cases made
        · cases made

/-- A cap that is not stored yet is the worth of the policy cap. -/
theorem requestedCap_amount {ctx after : Context L} {denom : Denom} {reqCap : Coin}
    (done : requestedCap ctx denom = .ok (reqCap, after)) :
    reqCap.amount = capWorth ctx denom := by
  simp only [requestedCap] at done
  split at done
  · next quoted =>
      cases done
      rw [capWorth, getSwapCoin_quotedAmount quoted, Option.getD_some]
  · next refused =>
      rcases Outcome.bind_eq_ok.mp done with ⟨coin, made, done⟩
      cases done
      rcases newCoin_eq_ok.mp made with ⟨-, -, rfl⟩
      rw [capWorth, getSwapCoin_unquoted refused, Option.getD_none]
  · cases done

/-- The cap of a denomination is stored for good; it is computed if it was used
and there was none. -/
def CapAfter (denom : Denom) (used : Bool) (before after : Context L) : Prop :=
  after.treasury.taxCaps[denom]? =
    match before.treasury.taxCaps[denom]? with
    | some taxCap => some taxCap
    | none => if used then some (capWorth before denom) else none

/-- What happens to a cap in the course of one message. -/
structure Tracks (denom : Denom) (used : Bool) (before after : Context L) : Prop where
  height : after.height = before.height
  taxRate : currentTaxRate after = currentTaxRate before
  oracle : after.oracle = before.oracle
  params : after.treasury.params = before.treasury.params
  cap : CapAfter denom used before after

namespace Tracks

variable {denom : Denom} {used more : Bool} {before middle after : Context L}

omit [Sdk L] in
theorem refl (ctx : Context L) : Tracks denom false ctx ctx := by
  refine ⟨rfl, rfl, rfl, rfl, ?_⟩
  unfold CapAfter
  cases ctx.treasury.taxCaps[denom]? <;> rfl

omit [Sdk L] in
theorem capWorth_eq (tracks : Tracks denom used before middle) :
    capWorth middle denom = capWorth before denom := by
  simp only [capWorth, Market.quotedAmount, tracks.oracle, tracks.params]

omit [Sdk L] in
theorem trans (first : Tracks denom used before middle) (second : Tracks denom more middle after) :
    Tracks denom (used || more) before after := by
  refine ⟨second.height.trans first.height, second.taxRate.trans first.taxRate,
    second.oracle.trans first.oracle, second.params.trans first.params, ?_⟩
  have firstCap := first.cap
  have secondCap := second.cap
  unfold CapAfter at firstCap secondCap ⊢
  rw [secondCap, firstCap, first.capWorth_eq]
  cases before.treasury.taxCaps[denom]? with
  | some taxCap => rfl
  | none => cases used <;> rfl

omit [Sdk L] in
/-- A call that leaves the rates, the prices and the caps alone. -/
theorem of_same (height : after.height = before.height)
    (taxRates : after.treasury.taxRates = before.treasury.taxRates)
    (oracle : after.oracle = before.oracle)
    (params : after.treasury.params = before.treasury.params)
    (taxCaps : after.treasury.taxCaps = before.treasury.taxCaps) :
    Tracks denom false before after := by
  refine ⟨height, ?_, oracle, params, ?_⟩
  · simp only [currentTaxRate, getTaxRate, Context.getEpoch, height, taxRates]
  · unfold CapAfter
    rw [taxCaps]
    cases before.treasury.taxCaps[denom]? <;> rfl

end Tracks

theorem getTaxCap_tracks {before after : Context L} {other : Denom} {taxCap : ℤ}
    (done : getTaxCap before other = .ok (taxCap, after)) (denom : Denom) :
    Tracks denom (other == denom) before after := by
  have same := getTaxCap_same done
  rcases getTaxCap_frame done with ⟨taxCaps, afterEq⟩
  refine ⟨same.height, same.taxRate, by rw [afterEq], by rw [afterEq], ?_⟩
  simp only [getTaxCap] at done
  unfold CapAfter
  split at done
  · next stored =>
      cases done
      by_cases here : other = denom
      · subst here
        rw [stored]
      · cases before.treasury.taxCaps[denom]? <;> simp [here]
  · next absent =>
      rcases Outcome.bind_eq_ok.mp done with ⟨⟨reqCap, middle⟩, requested, done⟩
      cases done
      rw [requestedCap_eq_ok requested, setTaxCap, Store.get_insert]
      by_cases here : other = denom
      · subst here
        simp [absent, requestedCap_amount requested]
      · simp only [if_neg here, beq_eq_false_iff_ne.mpr here]
        cases before.treasury.taxCaps[denom]? <;> rfl

/-- The coins are of the denomination. -/
def taxable (denom : Denom) (principal : List Coin) : Bool :=
  principal.any fun coin => coin.denom == denom

theorem addTaxDue_tracks {taxRate : Dec} {coin : Coin} {before after : Coins × Context L}
    (done : addTaxDue taxRate before coin = .ok after) (denom : Denom) :
    Tracks denom (coin.denom == denom) before.2 after.2 := by
  rcases Outcome.bind_eq_ok.mp done with ⟨⟨taxCap, capped⟩, read, done⟩
  simp only at done
  split at done
  · cases done
    exact getTaxCap_tracks read denom
  · rcases Outcome.bind_eq_ok.mp done with ⟨_, -, done⟩
    rcases Outcome.bind_eq_ok.mp done with ⟨_, -, done⟩
    cases done
    exact getTaxCap_tracks read denom

theorem addTaxesDue_tracks {taxRate : Dec} {principal : List Coin}
    {before after : Coins × Context L}
    (done : principal.foldlM (addTaxDue taxRate) before = .ok after) (denom : Denom) :
    Tracks denom (taxable denom principal) before.2 after.2 := by
  induction principal generalizing before with
  | nil =>
      cases done
      exact Tracks.refl _
  | cons coin principal ih =>
      rw [List.foldlM_cons] at done
      rcases Outcome.bind_eq_ok.mp done with ⟨middle, first, rest⟩
      exact (addTaxDue_tracks first denom).trans (ih rest)

/-- The cap is used at a tax rate other than zero. -/
def taxed (ctx : Context L) (denom : Denom) (inputs : List (Address × List Coin)) : Bool :=
  currentTaxRate ctx != Dec.zero && inputs.any fun input => taxable denom input.2

theorem payTax_tracks {before after : Context L} {taxPayer : Address} {principal : List Coin}
    {taxes : Coins} (done : payTax before taxPayer principal = .ok (taxes, after))
    (denom : Denom) :
    Tracks denom (taxed before denom [(taxPayer, principal)]) before after := by
  have rateSame := getTaxRate_same before
  have rateRead : Tracks denom false before (getTaxRate before before.getEpoch).2 := by
    refine ⟨rfl, rateSame.taxRate, rfl, rfl, ?_⟩
    exact (Tracks.refl before).cap
  rcases payTax_eq_ok done with ⟨isZero, -, rfl⟩ | ⟨nonzero, capped, ledger, folded, -, rfl⟩
  · have isZero : currentTaxRate before = Dec.zero := isZero
    simpa [taxed, isZero] using rateRead
  · have nonzero : (currentTaxRate before != Dec.zero) = true := bne_iff_ne.mpr nonzero
    have collected : Tracks denom false capped (recordTaxProceeds
        { capped with ledger := Sdk.addCollectedFees ledger taxes } taxes) :=
      Tracks.of_same rfl rfl rfl rfl rfl
    have all := (rateRead.trans (addTaxesDue_tracks folded denom)).trans collected
    simpa [taxed, nonzero] using all

theorem payInputTaxes_tracks {inputs : List (Address × List Coin)}
    {before after : Coins × Context L}
    (done : inputs.foldlM payInputTax before = .ok after) (denom : Denom) :
    Tracks denom (taxed before.2 denom inputs) before.2 after.2 := by
  induction inputs generalizing before with
  | nil =>
      cases done
      simpa [taxed] using Tracks.refl after.2
  | cons input inputs ih =>
      rw [List.foldlM_cons] at done
      rcases Outcome.bind_eq_ok.mp done with ⟨middle, first, rest⟩
      rcases Outcome.bind_eq_ok.mp first with ⟨⟨taxes, paidCtx⟩, paid, first⟩
      cases first
      have firstTracks := payTax_tracks paid denom
      have both := firstTracks.trans (ih rest)
      simpa only [taxed, firstTracks.taxRate, List.any_cons, List.any_nil, Bool.or_false,
        Bool.and_or_distrib_left] using both

/-- The event uses the cap of the denomination: it is a transfer that taxes it
and is accepted. -/
def usesCap (denom : Denom) (ctx : Context L) : Event L → Bool
  | .deliver msg =>
      taxed ctx denom (transferInputs msg) && (handle ctx msg).isOk
  | _ => false

theorem handle_capAfter {before after : Context L} {msg : Msg} {result : Result}
    (handled : handle before msg = .ok (result, after)) (denom : Denom) :
    CapAfter denom (usesCap denom before (.deliver msg)) before after := by
  have uses : usesCap denom before (.deliver msg) =
      taxed before denom (transferInputs msg) := by
    simp [usesCap, handled, Except.isOk, Except.toBool]
  rw [uses]
  by_cases transfer : IsTransfer msg
  · rcases handle_transfer transfer handled with ⟨taxes, paidCtx, ledger, paid, rfl⟩
    exact (payInputTaxes_tracks paid denom).cap
  · have noInputs : taxed before denom (transferInputs msg) = false := by
      simp [taxed, transferInputs_of_not_transfer transfer]
    have unused : CapAfter denom false before before := (Tracks.refl before).cap
    unfold CapAfter at unused ⊢
    rw [noInputs, (handle_spares handled).treasury transfer]
    exact unused

/-- The end of a block uses no cap. -/
theorem step_endBlock_taxCaps {order : Oracle.MapOrder} {accountKeeper : Update.AccountKeeper}
    {before after : Context L} (taken : step before (.endBlock order accountKeeper) = some after) :
    after.treasury.taxCaps = before.treasury.taxCaps := by
  rcases step_endBlock_stages taken with ⟨closed, _, updated, closes, update, band, cap, rfl⟩
  rcases Outcome.bind_eq_ok.mp closes with ⟨⟨_, tallied⟩, tally, closes⟩
  rcases Outcome.bind_eq_ok.mp closes with ⟨⟨_, rewarded⟩, reward, closes⟩
  cases closes
  rcases endBlocker_bookkept update with ⟨_, _, _, rfl⟩
  have tallyKept : tallied.treasury = before.treasury := by
    rcases Oracle.endBlocker_eq_ok tally with ⟨-, afterEq⟩ | ⟨-, _, afterEq, sameTreasury, -⟩
    · rw [afterEq]
    · rw [afterEq]
      exact sameTreasury
  have frame := Budget.endBlocker_frame reward
  rcases Budget.weightRead_frame tallied with ⟨rewardWeights, read⟩
  rw [read] at frame
  have rewardKept : closed.treasury.taxCaps = tallied.treasury.taxCaps := by
    rw [frame.treasury]
  exact rewardKept.trans (congrArg TreasuryStore.taxCaps tallyKept)

/-- One event computes the cap of a denomination when it uses it for the first
time, and never changes it again. -/
theorem step_capAfter {before after : Context L} {event : Event L}
    (taken : step before event = some after) (denom : Denom) :
    CapAfter denom (usesCap denom before event) before after := by
  have unused : CapAfter denom false before before := (Tracks.refl before).cap
  cases event with
  | deliver msg =>
      cases taken
      rcases before.deliver_cases (handle before msg) with ⟨result, handled⟩ | ⟨refused, same⟩
      · exact handle_capAfter handled denom
      · have notUsed : usesCap denom before (.deliver msg) = false := by
          cases outcome : handle before msg with
          | ok done => exact absurd outcome (refused done)
          | error failure => simp [usesCap, outcome, Except.isOk, Except.toBool]
        rw [same, notUsed]
        exact unused
  | elsewhere environment =>
      cases taken
      exact unused
  | endBlock order accountKeeper =>
      unfold CapAfter at unused ⊢
      rw [step_endBlock_taxCaps taken]
      exact unused

theorem reaches_cap_stored {start state : Context L} {events : List (Event L)} {denom : Denom}
    {taxCap : ℤ} (reached : Reaches step start events state)
    (stored : start.treasury.taxCaps[denom]? = some taxCap) :
    state.treasury.taxCaps[denom]? = some taxCap := by
  refine reached.invariant (fun ctx => ctx.treasury.taxCaps[denom]? = some taxCap) ?_ stored
  intro before event after present taken
  have kept := step_capAfter taken denom
  unfold CapAfter at kept
  rw [kept, present]

omit [Sdk L] in
theorem CapAfter.eq_some {denom : Denom} {before after : Context L}
    (cap : CapAfter denom true before after)
    (absent : before.treasury.taxCaps[denom]? = none) :
    after.treasury.taxCaps[denom]? = some (capWorth before denom) := by
  unfold CapAfter at cap
  rw [cap, absent]
  rfl

theorem taxCapOf_of_stored {ctx : Context L} {denom : Denom} {taxCap : ℤ}
    (stored : ctx.treasury.taxCaps[denom]? = some taxCap) : taxCapOf ctx denom = .ok taxCap := by
  simp only [taxCapOf, getTaxCap, stored]
  rfl

/-- The state in which a run uses the cap of a denomination for the first time,
when the cap is used at its end at the latest. -/
def firstUse (denom : Denom) : Context L → List (Event L) → Context L
  | ctx, [] => ctx
  | ctx, event :: events =>
      if usesCap denom ctx event then ctx
      else
        match step ctx event with
        | some next => firstUse denom next events
        | none => ctx

/-- The cap at the end of a run is the one of its first use. -/
theorem reaches_cap_eq {start state : Context L} {events : List (Event L)} {denom : Denom}
    {taxCap : ℤ} (reached : Reaches step start events state)
    (absent : start.treasury.taxCaps[denom]? = none) (reported : taxCapOf state denom = .ok taxCap) :
    taxCap = capWorth (firstUse denom start events) denom := by
  induction events generalizing start with
  | nil =>
      rw [reached.eq_of_nil] at reported
      rw [firstUse]
      cases read : getTaxCap start denom with
      | error failure =>
          rw [taxCapOf, read] at reported
          cases reported
      | ok done =>
          rw [taxCapOf, read] at reported
          cases reported
          have tracked := getTaxCap_tracks read denom
          rw [beq_self_eq_true] at tracked
          have stored := tracked.cap.eq_some absent
          have again := (getTaxCap_same read).taxCap denom
          rw [taxCapOf_of_stored stored, taxCapOf, read] at again
          exact (Except.ok.inj again).symm
  | cons event events ih =>
      rcases reached.of_cons with ⟨next, taken, rest⟩
      have cap := step_capAfter taken denom
      rw [firstUse]
      cases used : usesCap denom start event with
      | true =>
          rw [used] at cap
          have stored := reaches_cap_stored rest (cap.eq_some absent)
          rw [taxCapOf_of_stored stored] at reported
          simpa using (Except.ok.inj reported).symm
      | false =>
          rw [used] at cap
          unfold CapAfter at cap
          rw [absent] at cap
          simp only [Bool.false_eq_true, if_false, taken]
          exact ih rest cap

/-- The cap of a denomination is evaluated once more, directly or by a transfer
that is taxed. -/
inductive Evaluates (denom : Denom) (before after : Context L) : Prop where
  | directly {taxCap : ℤ} (read : getTaxCap before denom = .ok (taxCap, after))
  | transfer {event : Event L} (used : usesCap denom before event = true)
      (taken : step before event = some after)

theorem Evaluates.capAfter {denom : Denom} {before after : Context L}
    (evaluates : Evaluates denom before after) : CapAfter denom true before after := by
  cases evaluates with
  | directly read =>
      have tracked := getTaxCap_tracks read denom
      rw [beq_self_eq_true] at tracked
      exact tracked.cap
  | transfer used taken =>
      have cap := step_capAfter taken denom
      rw [used] at cap
      exact cap

/-- A missing price. One of two runs evaluates the cap of a denomination that has
no price; everything else is the same. The cap that they report later is the
same exactly when it was stored before, or when the policy cap at the rates at
which the other run uses it for the first time has the number that it had
without a price. -/
theorem missing_price_iff {denom : Denom} {start evaluated left right : Context L}
    {events : List (Event L)} {leftCap rightCap : ℤ}
    (unpriced : ∀ rate, start.oracle.getLunaSwapRate denom ≠ .ok rate)
    (evaluates : Evaluates denom start evaluated)
    (leftReached : Reaches step start events left)
    (rightReached : Reaches step evaluated events right)
    (leftReported : taxCapOf left denom = .ok leftCap)
    (rightReported : taxCapOf right denom = .ok rightCap) :
    leftCap = rightCap ↔
      (∃ stored, start.treasury.taxCaps[denom]? = some stored) ∨
        capWorth (firstUse denom start events) denom =
          start.treasury.params.taxPolicy.cap.amount := by
  cases present : start.treasury.taxCaps[denom]? with
  | some stored =>
      have kept := evaluates.capAfter
      unfold CapAfter at kept
      rw [present] at kept
      rw [taxCapOf_of_stored (reaches_cap_stored leftReached present)] at leftReported
      rw [taxCapOf_of_stored (reaches_cap_stored rightReached kept)] at rightReported
      cases leftReported
      cases rightReported
      exact iff_of_true rfl (Or.inl ⟨_, rfl⟩)
  | none =>
      have fixed := evaluates.capAfter.eq_some present
      rw [capWorth_of_unpriced unpriced] at fixed
      rw [taxCapOf_of_stored (reaches_cap_stored rightReached fixed)] at rightReported
      cases rightReported
      rw [reaches_cap_eq leftReached present leftReported]
      simp

/-- The last block of a vote period. The votes give SDR the price one and a
denomination that has never had a price the given one. -/
def beforeFirstPrice (denom : Denom) (price : Dec) : Context Book :=
  let validator := List.replicate 20 1
  let start := Context.genesis Book.empty (Staking.single validator 10 single_length)
  { start with
    height := start.oracle.params.votePeriod.toNat - 1
    oracle := (start.oracle.addVote ⟨Dec.one, microSDRDenom, validator⟩).addVote
      ⟨price, denom, validator⟩ }

/-- The cap after the block, if the cap was evaluated in it and if it was not. -/
def capsAfterPrice (denom : Denom) (price : Dec) : Option (ℤ × ℤ) := do
  let start := beforeFirstPrice denom price
  let (_, evaluated) ← (getTaxCap start denom).toOption
  let left ← step start (.endBlock Oracle.MapOrder.sorted .empty)
  let right ← step evaluated (.endBlock Oracle.MapOrder.sorted .empty)
  let leftCap ← (taxCapOf left denom).toOption
  let rightCap ← (taxCapOf right denom).toOption
  let _ ← (left.oracle.getLunaSwapRate denom).toOption
  pure (leftCap, rightCap)

theorem toOption_eq_some {α : Type} {outcome : Outcome α} {value : α}
    (found : outcome.toOption = some value) : outcome = .ok value := by
  cases outcome with
  | ok result =>
      cases found
      rfl
  | error failure => cases found

theorem capsAfterPrice_runs {denom : Denom} {price : Dec} {leftCap rightCap : ℤ}
    (caps : capsAfterPrice denom price = some (leftCap, rightCap)) :
    ∃ evaluated left right : Context Book,
      Evaluates denom (beforeFirstPrice denom price) evaluated ∧
        Reaches step (beforeFirstPrice denom price) [.endBlock Oracle.MapOrder.sorted .empty] left ∧
        Reaches step evaluated [.endBlock Oracle.MapOrder.sorted .empty] right ∧
        (∃ rate, left.oracle.getLunaSwapRate denom = .ok rate) ∧
        taxCapOf left denom = .ok leftCap ∧ taxCapOf right denom = .ok rightCap := by
  rcases Option.bind_eq_some_iff.mp caps with ⟨⟨_, evaluated⟩, read, caps⟩
  rcases Option.bind_eq_some_iff.mp caps with ⟨left, leftTaken, caps⟩
  rcases Option.bind_eq_some_iff.mp caps with ⟨right, rightTaken, caps⟩
  rcases Option.bind_eq_some_iff.mp caps with ⟨_, leftReported, caps⟩
  rcases Option.bind_eq_some_iff.mp caps with ⟨_, rightReported, caps⟩
  rcases Option.bind_eq_some_iff.mp caps with ⟨rate, known, caps⟩
  cases caps
  exact ⟨evaluated, left, right, .directly (toOption_eq_some read), .single leftTaken,
    .single rightTaken, ⟨rate, toOption_eq_some known⟩, toOption_eq_some leftReported,
    toOption_eq_some rightReported⟩

theorem beforeFirstPrice_unpriced {denom : Denom} {price : Dec} (notLuna : denom ≠ microLunaDenom)
    (rate : Dec) : (beforeFirstPrice denom price).oracle.getLunaSwapRate denom ≠ .ok rate := by
  have noPrices : (beforeFirstPrice denom price).oracle.prices[denom]? = none :=
    Store.get_empty denom
  simp [OracleStore.getLunaSwapRate, notLuna, noPrices]

/-- At equal prices nothing is lost. -/
theorem missing_price_iff_parity :
    ∃ (left right : Context Book) (leftCap rightCap : ℤ),
      Reaches step (beforeFirstPrice microKRWDenom Dec.one)
          [.endBlock Oracle.MapOrder.sorted .empty] left ∧
        taxCapOf left microKRWDenom = .ok leftCap ∧ taxCapOf right microKRWDenom = .ok rightCap ∧
        leftCap = rightCap := by
  have caps : capsAfterPrice microKRWDenom Dec.one = some (1000000, 1000000) := by
    decide +kernel
  rcases capsAfterPrice_runs caps with
    ⟨evaluated, left, right, evaluates, leftReached, rightReached, -, leftCap, rightCap⟩
  have sameNumber : capWorth (firstUse microKRWDenom (beforeFirstPrice microKRWDenom Dec.one)
      [.endBlock Oracle.MapOrder.sorted .empty]) microKRWDenom = 1000000 := by
    decide +kernel
  exact ⟨left, right, 1000000, 1000000, leftReached, leftCap, rightCap,
    (missing_price_iff (beforeFirstPrice_unpriced (by decide)) evaluates leftReached rightReached
      leftCap rightCap).mpr (Or.inr sameNumber)⟩

/-- A thousand units of the denomination are worth one SDR. The run that looks
at the cap too early has a thousandth of it for good. -/
theorem missing_price_fixes_cap :
    microKRWDenom ≠
        (beforeFirstPrice microKRWDenom (Dec.ofInt 1000)).treasury.params.taxPolicy.cap.denom ∧
      (∀ rate, (beforeFirstPrice microKRWDenom (Dec.ofInt 1000)).oracle.getLunaSwapRate
        microKRWDenom ≠ .ok rate) ∧
      ∃ evaluated left right : Context Book,
        Evaluates microKRWDenom (beforeFirstPrice microKRWDenom (Dec.ofInt 1000)) evaluated ∧
          Reaches step (beforeFirstPrice microKRWDenom (Dec.ofInt 1000))
            [.endBlock Oracle.MapOrder.sorted .empty] left ∧
          Reaches step evaluated [.endBlock Oracle.MapOrder.sorted .empty] right ∧
          (∃ rate, left.oracle.getLunaSwapRate microKRWDenom = .ok rate) ∧
          taxCapOf left microKRWDenom = .ok 1000000000 ∧
          taxCapOf right microKRWDenom = .ok 1000000 := by
  have caps : capsAfterPrice microKRWDenom (Dec.ofInt 1000) = some (1000000000, 1000000) := by
    decide +kernel
  exact ⟨by decide, beforeFirstPrice_unpriced (by decide), capsAfterPrice_runs caps⟩

end TerraCore.Chain.Block
