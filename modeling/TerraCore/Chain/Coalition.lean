import TerraCore.Budget.Deposits
import TerraCore.Chain.Recast
import TerraCore.Chain.TaxCap
import TerraCore.Library.Potential
import TerraCore.Market.Accounts
import TerraCore.Market.Worth

/-!
# Trading makes no profit

Accounts that act together can swap, send coins to each other and mix their
messages with those of everybody else. As long as the prices stay, the worth of
what they hold grows only by what the others send them, what the rest of the
chain pays them and the rounding of their swaps. The spread and the taxes they
pay are lost to them.
-/

namespace TerraCore.Chain.Block

open Market (RatesPositive worth unitWorth roundingWorth)
open Pay Potential Transition

variable {L : Type} [Sdk L]

/-- What a swap returns before and after the spread is withheld. -/
def exchange (ctx : Context L) (msg : Market.MsgSwap) : Outcome (Coin × Coin) := do
  let (retCoin, spread, read) ← Market.getSwapCoin ctx msg.offerCoin msg.askDenom false
  let (kept, _, _) ← Market.chargeSpread read retCoin spread
  pure (retCoin, kept)

/-- The part of the returned amount that the trader does not get. -/
def withheld (ctx : Context L) (msg : Market.MsgSwap) : ℤ :=
  match exchange ctx msg with
  | .ok (retCoin, kept) => retCoin.amount - kept.amount
  | .error _ => 0

/-- A swap that succeeded: the trader gave the offer and got what was not withheld. -/
structure Swapped (before : Context L) (msg : Market.MsgSwap) (after : Context L)
    (ret : ℤ) : Prop where
  quote : ∃ offerRate askRate exact, Market.SwapQuote before msg.offerCoin msg.askDenom
    ⟨msg.askDenom, ret⟩ offerRate askRate exact
  withheld_nonneg : 0 ≤ withheld before msg
  prices : after.oracle.prices = before.oracle.prices
  balance : ∀ address denom, (Ledger.balance after.ledger address denom : ℤ) =
    Ledger.balance before.ledger address denom + if address = msg.trader then
      Mint.only msg.askDenom (ret - withheld before msg) denom -
        Mint.only msg.offerCoin.denom msg.offerCoin.amount denom else 0

theorem handleMsgSwap_swapped {before after : Context L} {msg : Market.MsgSwap} {result : Result}
    (handled : Market.handleMsgSwap before msg = .ok (result, after)) :
    ∃ ret, Swapped before msg after ret := by
  have spares : Spares (.swap msg) before after := handle_spares handled
  rcases Market.handleMsgSwap_steps handled with
    ⟨⟨retDenom, ret⟩, kept, spread, swapFee, quoted, charged, burned, -, quote, charge, burn, mint⟩
  rcases Market.getSwapCoin_eq_ok quote with
    ⟨⟨offerRate, askRate, exact, swapQuote⟩, ⟨readMint, quotedEq⟩, -⟩
  have sameDenom : retDenom = msg.askDenom := swapQuote.denom
  subst sameDenom
  rcases Market.chargeSpread_kept charge swapQuote.positive.le with ⟨keptDenom, -, atMost⟩
  rcases Market.chargeSpread_frame charge with ⟨swapFeePool, chargedEq⟩
  have exchanged : exchange before msg = .ok (⟨msg.askDenom, ret⟩, kept) := by
    simp only [exchange, quote, bind, Except.bind, charge]
    rfl
  have loss : withheld before msg = ret - kept.amount := by
    simp only [withheld, exchanged]
  rcases Mint.burn_writes burn with ⟨burnedLedger, burnedMint, debited, rfl⟩
  rcases Mint.mint_writes mint with ⟨mintedLedger, mintedMint, credit, rfl⟩
  refine ⟨ret, ⟨_, _, _, swapQuote⟩, ?_, spares.prices, ?_⟩
  · simp only at atMost
    omega
  · intro address denom
    have chargedLedger : charged.ledger = before.ledger := by
      rw [chargedEq, quotedEq]
    rw [credit.balance address denom]
    simp only [debited.balance address denom, chargedLedger, Mint.credited_single, credited_nil,
      keptDenom, loss, sub_sub_cancel]
    split <;> omega

/-- The accounts that a transfer credits. -/
def transferOutputs : Msg → List (Address × List Coin)
  | .send msg => [(msg.toAddress, msg.amount)]
  | .multiSend msg => msg.outputs
  | _ => []

/-- The deposits that a message burns and mints. -/
def depositsMoved (ctx : Context L) : Msg → List Budget.Transfer
  | .submitProgram msg => Budget.transfersNow ctx (.submitProgram msg)
  | .withdrawProgram msg => Budget.transfersNow ctx (.withdrawProgram msg)
  | _ => []

/-- What a message brings to an address from other addresses and from deposits. -/
def received (ctx : Context L) (msg : Msg) (address : Address) (denom : Denom) : ℤ :=
  credited (transferOutputs msg) address denom - credited (transferInputs msg) address denom +
    ((depositsMoved ctx msg).map
      (Budget.Transfer.credit ctx.budget.params.deposit address denom)).sum

/-- The taxes that a message takes from an address. -/
def taxOf (ctx : Context L) (msg : Msg) (address : Address) (denom : Denom) : ℤ :=
  credited (taxesOnInputs ctx (transferInputs msg)) address denom

/-- A message that is no swap succeeded. -/
structure Settled (before : Context L) (msg : Msg) (after : Context L) : Prop where
  tax_nonneg : ∀ address denom, 0 ≤ taxOf before msg address denom
  prices : after.oracle.prices = before.oracle.prices
  balance : ∀ address denom, (Ledger.balance after.ledger address denom : ℤ) =
    Ledger.balance before.ledger address denom + received before msg address denom -
      taxOf before msg address denom

/-- A transfer pays taxes, and coins move between the accounts that it names. -/
theorem Settled.of_transfer {before after : Context L} {msg : Msg} {result : Result}
    (transfer : IsTransfer msg) (handled : handle before msg = .ok (result, after))
    (transfers : Transfers (transferInputs msg) (transferOutputs msg) before after) :
    Settled before msg after := by
  have noDeposits : depositsMoved before msg = [] := by
    cases msg with
    | send msg => rfl
    | multiSend msg => rfl
    | _ => cases transfer
  refine ⟨?_, (handle_spares handled).prices, ?_⟩
  · intro address denom
    rcases handle_transfer transfer handled with ⟨_, _, _, paid, -⟩
    exact credited_nonneg (fun entry listed => payInputTaxes_nonneg paid entry listed denom) address
  · intro address denom
    rw [transfers.balance]
    simp only [received, noDeposits, taxOf, List.map_nil, List.sum_nil]
    omega

/-- A message that moves deposits at most, and no prices. -/
theorem Settled.of_deposits {before after : Context L} {msg : Msg}
    (noInputs : transferInputs msg = []) (noOutputs : transferOutputs msg = [])
    (prices : after.oracle.prices = before.oracle.prices)
    (balance : ∀ address denom, (Ledger.balance after.ledger address denom : ℤ) =
      Ledger.balance before.ledger address denom + ((depositsMoved before msg).map
        (Budget.Transfer.credit before.budget.params.deposit address denom)).sum) :
    Settled before msg after := by
  refine ⟨?_, prices, ?_⟩
  · intro address denom
    simp [taxOf, noInputs, taxesOnInputs]
  · intro address denom
    rw [balance]
    simp [received, taxOf, noInputs, noOutputs, taxesOnInputs]

theorem handleMsgSubmitProgram_settled {before after : Context L}
    {msg : Budget.MsgSubmitProgram} {result : Result}
    (handled : Budget.handleMsgSubmitProgram before msg = .ok (result, after)) :
    Settled before (.submitProgram msg) after := by
  have spares : Spares (.submitProgram msg) before after := handle_spares handled
  rcases Budget.submission_moves handled with ⟨paid, burned, afterEq⟩
  apply Settled.of_deposits rfl rfl spares.prices
  · intro address denom
    have executed : Budget.Transfer.execute before.budget.params.deposit before
        ⟨Budget.lastProgramID before.budget + 1, msg.submitter, false, before.height⟩ =
          .ok paid := burned
    rw [afterEq]
    simp only [Budget.Transfer.execute_balance executed, depositsMoved, Budget.transfersNow,
      handled, List.map_cons, List.map_nil, List.sum_cons, List.sum_nil, add_zero]

theorem handleMsgWithdrawProgram_settled {before after : Context L}
    {msg : Budget.MsgWithdrawProgram} {result : Result}
    (handled : Budget.handleMsgWithdrawProgram before msg = .ok (result, after)) :
    Settled before (.withdrawProgram msg) after := by
  have spares : Spares (.withdrawProgram msg) before after := handle_spares handled
  rcases Budget.withdrawal_moves handled with ⟨program, stored, -, moves⟩
  split at moves
  · next queued =>
      rcases moves with ⟨paid, minted, afterEq⟩
      apply Settled.of_deposits rfl rfl spares.prices
      · intro address denom
        have executed : Budget.Transfer.execute before.budget.params.deposit before
            ⟨msg.programID, program.submitter, true, before.height⟩ = .ok paid := minted
        rw [afterEq]
        simp only [Budget.Transfer.execute_balance executed, depositsMoved, Budget.transfersNow,
          handled, stored, queued, if_true, List.map_cons, List.map_nil, List.sum_cons,
          List.sum_nil, add_zero]
  · next unqueued =>
      apply Settled.of_deposits rfl rfl spares.prices
      · intro address denom
        rw [moves]
        simp [depositsMoved, Budget.transfersNow, handled, stored, unqueued]

/-- What every accepted message does, unless it is a swap. -/
theorem handle_settled {before after : Context L} {msg : Msg} {result : Result}
    (noSwap : ∀ swap, msg ≠ .swap swap) (handled : handle before msg = .ok (result, after)) :
    Settled before msg after := by
  have silent {other : Msg} {next : Context L} (noInputs : transferInputs other = [])
      (noOutputs : transferOutputs other = []) (noDeposits : depositsMoved before other = [])
      (handled : handle before other = .ok (result, next))
      (ledger : next.ledger = before.ledger) : Settled before other next := by
    apply Settled.of_deposits noInputs noOutputs (handle_spares handled).prices
    intro address denom
    simp [ledger, noDeposits]
  cases msg with
  | swap msg => exact absurd rfl (noSwap msg)
  | send msg =>
      have transfer : IsTransfer (.send msg) := trivial
      exact Settled.of_transfer transfer handled (handleMsgSend_transfers handled)
  | multiSend msg =>
      have transfer : IsTransfer (.multiSend msg) := trivial
      exact Settled.of_transfer transfer handled (handleMsgMultiSend_transfers handled)
  | submitProgram msg => exact handleMsgSubmitProgram_settled handled
  | withdrawProgram msg => exact handleMsgWithdrawProgram_settled handled
  | voteProgram msg =>
      refine silent rfl rfl rfl handled ?_
      rw [(Budget.handleMsgVoteProgram_eq_ok handled).2]
  | pricePrevote msg =>
      refine silent rfl rfl rfl handled ?_
      rw [(Oracle.handleMsgPricePrevote_eq_ok handled).2.2]
  | priceVote msg =>
      refine silent rfl rfl rfl handled ?_
      rcases Oracle.handleMsgPriceVote_eq_ok handled with ⟨_, -, -, -, -, rfl⟩
      rfl
  | delegateFeederPermission msg =>
      refine silent rfl rfl rfl handled ?_
      rw [Oracle.handleMsgDelegateFeederPermission_eq_ok handled]

/-- What the members hold together. -/
def held (members : Finset Address) (ledger : L) (denom : Denom) : ℤ :=
  ∑ member ∈ members, (Ledger.balance ledger member denom : ℤ)

/-- The amount, if the message is accepted. -/
def ifAccepted (ctx : Context L) (msg : Msg) (amount : ℚ) : ℚ :=
  match handle ctx msg with
  | .ok _ => amount
  | .error _ => 0

theorem ifAccepted_of_ok {ctx : Context L} {msg : Msg} {done : Result × Context L}
    (handled : handle ctx msg = .ok done) (amount : ℚ) : ifAccepted ctx msg amount = amount := by
  simp only [ifAccepted, handled]

theorem ifAccepted_of_not_ok {ctx : Context L} {msg : Msg}
    (refused : ∀ done, handle ctx msg ≠ .ok done) (amount : ℚ) :
    ifAccepted ctx msg amount = 0 := by
  cases handled : handle ctx msg with
  | ok done => exact absurd handled (refused done)
  | error failure => simp only [ifAccepted, handled]

/-- What comes in: from other accounts and from deposits, from the rest of the
chain, and from the budget at the end of an epoch. -/
def income (members : Finset Address) (ctx : Context L) : Event L → ℚ
  | .deliver msg => ifAccepted ctx msg
      (worth ctx.oracle fun denom => ∑ member ∈ members, received ctx msg member denom)
  | .elsewhere environment =>
      worth ctx.oracle (held members environment.ledger) - worth ctx.oracle (held members ctx.ledger)
  | .endBlock order accountKeeper =>
      match endBlock order accountKeeper ctx with
      | .ok after =>
          if ctx.LastBlock blocksPerEpoch then
            worth ctx.oracle (held members after.ledger) - worth ctx.oracle (held members ctx.ledger)
          else 0
      | .error _ => 0

/-- What the rounding of the members' swaps may add. -/
def rounding (members : Finset Address) (ctx : Context L) : Event L → ℚ
  | .deliver (.swap msg) =>
      if msg.trader ∈ members then
        ifAccepted ctx (.swap msg) (roundingWorth ctx.oracle msg.askDenom)
      else 0
  | _ => 0

/-- The taxes that the members pay. -/
def taxPaid (members : Finset Address) (ctx : Context L) : Event L → ℚ
  | .deliver msg => ifAccepted ctx msg
      (worth ctx.oracle fun denom => ∑ member ∈ members, taxOf ctx msg member denom)
  | _ => 0

/-- The spread that is withheld from the members. -/
def spreadPaid (members : Finset Address) (ctx : Context L) : Event L → ℚ
  | .deliver (.swap msg) =>
      if msg.trader ∈ members then
        ifAccepted ctx (.swap msg) (withheld ctx msg * unitWorth ctx.oracle msg.askDenom)
      else 0
  | _ => 0

/-- No new prices are tallied. -/
def KeepsPrices (ctx : Context L) : Event L → Prop
  | .endBlock _ _ => ¬ctx.LastBlock ctx.oracle.params.votePeriod
  | _ => True

instance (ctx : Context L) : DecidablePred (KeepsPrices (L := L) ctx)
  | .deliver _ => inferInstanceAs (Decidable True)
  | .elsewhere _ => inferInstanceAs (Decidable True)
  | .endBlock _ _ => inferInstanceAs (Decidable ¬_)

/-- The worth of what the members hold. -/
def fortune (members : Finset Address) (ctx : Context L) : ℚ :=
  worth ctx.oracle (held members ctx.ledger)

/-- The worth of the coalition has grown by what it earned less what it paid, at most. -/
structure Fair (members : Finset Address) (before : Context L) (event : Event L)
    (after : Context L) : Prop where
  prices : after.oracle.prices = before.oracle.prices
  worth_le : fortune members after +
      (taxPaid members before event + spreadPaid members before event) ≤
    fortune members before + (income members before event + rounding members before event)

theorem fortune_eq {members : Finset Address} {before after : Context L}
    (prices : after.oracle.prices = before.oracle.prices) :
    fortune members after = worth before.oracle (held members after.ledger) :=
  Market.worth_congr prices _

/-- A swap costs its trader the spread, and may win the rounding. -/
theorem swap_fair (members : Finset Address) {before after : Context L} {msg : Market.MsgSwap}
    {result : Result} (positive : RatesPositive before)
    (handled : handle before (.swap msg) = .ok (result, after)) :
    Fair members before (.deliver (.swap msg)) after := by
  rcases handleMsgSwap_swapped handled with ⟨ret, swapped⟩
  rcases swapped.quote with ⟨offerRate, askRate, exact, quote⟩
  refine ⟨swapped.prices, ?_⟩
  have noTax : taxPaid members before (.deliver (.swap msg)) = 0 := by
    simp [taxPaid, ifAccepted_of_ok handled, taxOf, transferInputs, taxesOnInputs]
  have noIncome : income members before (.deliver (.swap msg)) = 0 := by
    simp [income, ifAccepted_of_ok handled, received, transferInputs, transferOutputs, depositsMoved]
  rw [noTax, noIncome, fortune_eq swapped.prices, spreadPaid, rounding]
  by_cases isMember : msg.trader ∈ members
  · have after_held : held members after.ledger = fun denom =>
        held members before.ledger denom +
          (Mint.only msg.askDenom (ret - withheld before msg) denom -
            Mint.only msg.offerCoin.denom msg.offerCoin.amount denom) := by
      funext denom
      simp only [held, swapped.balance, Finset.sum_add_distrib, Finset.sum_ite_eq', isMember,
        if_true]
    have gain := quote.worth_le positive
    simp only at gain
    rw [after_held, Market.worth_add, Market.worth_sub, Market.worth_only, Market.worth_only,
      if_pos isMember, if_pos isMember, ifAccepted_of_ok handled, ifAccepted_of_ok handled, fortune]
    push_cast
    linarith
  · have after_held : held members after.ledger = held members before.ledger := by
      funext denom
      simp only [held, swapped.balance, Finset.sum_add_distrib, Finset.sum_ite_eq', isMember,
        if_false, add_zero]
    rw [after_held, if_neg isMember, if_neg isMember, fortune]

/-- Every other message brings in what is received and costs the taxes. -/
theorem message_fair (members : Finset Address) {before after : Context L} {msg : Msg}
    {result : Result} (noSwap : ∀ swap, msg ≠ .swap swap)
    (handled : handle before msg = .ok (result, after)) :
    Fair members before (.deliver msg) after := by
  have settled := handle_settled noSwap handled
  have noSpread : spreadPaid members before (.deliver msg) = 0 := by
    cases msg with
    | swap msg => exact absurd rfl (noSwap msg)
    | _ => rfl
  have noRounding : rounding members before (.deliver msg) = 0 := by
    cases msg with
    | swap msg => exact absurd rfl (noSwap msg)
    | _ => rfl
  have after_held : held members after.ledger = fun denom =>
      held members before.ledger denom +
        (∑ member ∈ members, received before msg member denom) -
          ∑ member ∈ members, taxOf before msg member denom := by
    funext denom
    simp only [held, settled.balance, Finset.sum_add_distrib, Finset.sum_sub_distrib]
  refine ⟨settled.prices, ?_⟩
  rw [noSpread, noRounding, fortune_eq settled.prices, after_held, Market.worth_sub,
    Market.worth_add, taxPaid, income, ifAccepted_of_ok handled, ifAccepted_of_ok handled, fortune]
  linarith

theorem deliver_fair (members : Finset Address) {before : Context L} (msg : Msg)
    (positive : RatesPositive before) :
    Fair members before (.deliver msg) (before.deliver (handle before msg)) := by
  rcases before.deliver_cases (handle before msg) with ⟨result, handled⟩ | ⟨refused, same⟩
  · by_cases isSwap : ∃ swap, msg = .swap swap
    · rcases isSwap with ⟨swap, rfl⟩
      exact swap_fair members positive handled
    · exact message_fair members (fun swap isIt => isSwap ⟨swap, isIt⟩) handled
  · rw [same]
    refine ⟨rfl, le_of_eq ?_⟩
    have noTax : taxPaid members before (.deliver msg) = 0 := ifAccepted_of_not_ok refused _
    have noIncome : income members before (.deliver msg) = 0 := ifAccepted_of_not_ok refused _
    have noSpread : spreadPaid members before (.deliver msg) = 0 := by
      cases msg with
      | swap msg => simp [spreadPaid, ifAccepted_of_not_ok refused]
      | _ => rfl
    have noRounding : rounding members before (.deliver msg) = 0 := by
      cases msg with
      | swap msg => simp [rounding, ifAccepted_of_not_ok refused]
      | _ => rfl
    rw [noTax, noIncome, noSpread, noRounding]

/-- While no prices are tallied, the end of a block moves the rewards of an epoch at most. -/
theorem endBlock_rewards {before after : Context L} {order : Oracle.MapOrder}
    {accountKeeper : Update.AccountKeeper}
    (keeps : KeepsPrices before (.endBlock order accountKeeper))
    (taken : step before (.endBlock order accountKeeper) = some after) :
    after.oracle.prices = before.oracle.prices ∧
      (¬before.LastBlock blocksPerEpoch → after.ledger = before.ledger) := by
  rcases step_endBlock_stages taken with ⟨closed, _, updated, closes, update, band, cap, rfl⟩
  rcases Outcome.bind_eq_ok.mp closes with ⟨⟨_, tallied⟩, tally, closes⟩
  rcases Outcome.bind_eq_ok.mp closes with ⟨⟨_, rewarded⟩, reward, closes⟩
  cases closes
  have untouched : tallied = before := by
    rcases Oracle.endBlocker_eq_ok tally with ⟨-, same⟩ | ⟨last, -⟩
    · exact same
    · exact absurd last keeps
  subst untouched
  rcases Treasury.endBlocker_bookkept update with ⟨_, _, _, rfl⟩
  have samePrices : closed.oracle.prices = tallied.oracle.prices := by
    rw [budgetEndBlocker_oracle reward]
  refine ⟨samePrices, ?_⟩
  intro notLast
  have sameLedger : closed.ledger = tallied.ledger := by
    rw [(Budget.endBlocker_onlyRewards reward).ordinary notLast]
  exact sameLedger

theorem endBlock_fair (members : Finset Address) {before after : Context L}
    {order : Oracle.MapOrder} {accountKeeper : Update.AccountKeeper}
    (keeps : KeepsPrices before (.endBlock order accountKeeper))
    (taken : step before (.endBlock order accountKeeper) = some after) :
    Fair members before (.endBlock order accountKeeper) after := by
  rcases endBlock_rewards keeps taken with ⟨prices, ledger⟩
  refine ⟨prices, le_of_eq ?_⟩
  rw [fortune_eq prices]
  simp only [taxPaid, spreadPaid, rounding, income, step_endBlock_eq_some taken, fortune, add_zero]
  split
  · ring
  · next notLast => rw [ledger notLast, add_zero]

theorem step_fair (members : Finset Address) {before after : Context L} {event : Event L}
    (positive : RatesPositive before) (keeps : KeepsPrices before event)
    (taken : step before event = some after) : Fair members before event after := by
  cases event with
  | deliver msg =>
      cases taken
      exact deliver_fair members msg positive
  | elsewhere environment =>
      cases taken
      refine ⟨rfl, le_of_eq ?_⟩
      have worthAfter : fortune members (environment.surround before) =
          worth before.oracle (held members environment.ledger) := fortune_eq rfl
      rw [worthAfter]
      simp only [taxPaid, spreadPaid, rounding, income, fortune]
      ring
  | endBlock order accountKeeper => exact endBlock_fair members keeps taken

omit [Sdk L] in
theorem ratesPositive_congr {ctx other : Context L} (prices : other.oracle.prices = ctx.oracle.prices)
    (positive : RatesPositive ctx) : RatesPositive other := by
  intro denom price stored
  rw [prices] at stored
  exact positive denom price stored

/-- The prices of a run in which none are tallied. -/
theorem step_prices {start before after : Context L} {event : Event L}
    (kept : before.oracle.prices = start.oracle.prices ∧ RatesPositive before)
    (keeps : KeepsPrices before event) (taken : step before event = some after) :
    after.oracle.prices = start.oracle.prices ∧ RatesPositive after := by
  have prices := (step_fair ∅ kept.2 keeps taken).prices
  exact ⟨prices.trans kept.1, ratesPositive_congr prices kept.2⟩

theorem taxPaid_nonneg (members : Finset Address) {ctx : Context L} (positive : RatesPositive ctx)
    (event : Event L) : 0 ≤ taxPaid members ctx event := by
  cases event with
  | deliver msg =>
      rcases ctx.deliver_cases (handle ctx msg) with ⟨result, handled⟩ | ⟨refused, -⟩
      · simp only [taxPaid, ifAccepted_of_ok handled]
        apply positive.worth_nonneg
        intro denom
        apply Finset.sum_nonneg
        intro member _
        by_cases isSwap : ∃ swap, msg = .swap swap
        · rcases isSwap with ⟨swap, rfl⟩
          simp [taxOf, transferInputs, taxesOnInputs]
        · have settled := handle_settled (fun swap isIt => isSwap ⟨swap, isIt⟩) handled
          exact settled.tax_nonneg member denom
      · simp only [taxPaid, ifAccepted_of_not_ok refused, le_refl]
  | elsewhere environment => exact le_rfl
  | endBlock order accountKeeper => exact le_rfl

theorem spreadPaid_nonneg (members : Finset Address) {ctx : Context L}
    (positive : RatesPositive ctx) (event : Event L) : 0 ≤ spreadPaid members ctx event := by
  unfold spreadPaid
  split
  · next msg =>
      split
      · rcases ctx.deliver_cases (handle ctx (.swap msg)) with ⟨result, handled⟩ | ⟨refused, -⟩
        · rcases handleMsgSwap_swapped handled with ⟨ret, swapped⟩
          rw [ifAccepted_of_ok handled]
          apply mul_nonneg
          · exact_mod_cast swapped.withheld_nonneg
          · exact positive.unitWorth_nonneg msg.askDenom
        · rw [ifAccepted_of_not_ok refused]
      · exact le_rfl
  · exact le_rfl

/-- In every run of the chain in which no prices are tallied, what any group of
accounts holds is worth at most what it was worth at first, together with what
came in from others and the rounding of the group's own swaps. What the group
paid in spreads and taxes lowers the bound. -/
theorem trading_makes_no_profit (members : Finset Address) {start ctx : Context L}
    {events : List (Event L)} (positive : RatesPositive start)
    (reached : Reaches step start events ctx) (keeps : Along step KeepsPrices start events) :
    let paid := total step (taxPaid members) start events + total step (spreadPaid members) start events
    0 ≤ paid ∧ fortune members ctx + paid ≤ fortune members start +
      (total step (income members) start events + total step (rounding members) start events) := by
  intro paid
  have preserved : ∀ before event after,
      (before.oracle.prices = start.oracle.prices ∧ RatesPositive before) →
        KeepsPrices before event → step before event = some after →
          after.oracle.prices = start.oracle.prices ∧ RatesPositive after :=
    fun _ _ _ kept keeps taken => step_prices kept keeps taken
  constructor
  · apply add_nonneg
    · exact total_nonneg _ (fun state event kept => taxPaid_nonneg members kept.2 event) preserved
        keeps ⟨rfl, positive⟩
    · exact total_nonneg _ (fun state event kept => spreadPaid_nonneg members kept.2 event)
        preserved keeps ⟨rfl, positive⟩
  · have accounted := le_of_steps (fortune members)
      (fun state event => income members state event + rounding members state event)
      (fun state event => taxPaid members state event + spreadPaid members state event)
      (fun state => state.oracle.prices = start.oracle.prices ∧ RatesPositive state)
      (fun before event after kept keeps taken =>
        ⟨(step_fair members kept.2 keeps taken).worth_le, step_prices kept keeps taken⟩)
      reached keeps ⟨rfl, positive⟩
    rwa [total_add, total_add] at accounted

/-- A hundred `usdr` are swapped for Luna, and the Luna back. -/
def roundTrip : List (Event Book) :=
  [.deliver (.swap (Market.sdrForLuna 100)),
    .deliver (.swap ⟨List.replicate 20 1, ⟨microLunaDenom, 98⟩, microSDRDenom⟩)]

/-- The trader of the round trip ends with three units less, all of them spread. -/
theorem trading_makes_no_profit_sample : ∃ ctx : Context Book,
    Reaches step Market.beforeTrade roundTrip ctx ∧
      fortune {List.replicate 20 1} ctx + 3 ≤ 1000 + 1 / 10 ^ 18 := by
  have performed : (perform step Market.beforeTrade roundTrip).isSome = true := by decide +kernel
  rcases Option.isSome_iff_exists.mp performed with ⟨ctx, finished⟩
  have reached := reaches_of_perform finished
  have keeps : Along step KeepsPrices Market.beforeTrade roundTrip := by decide +kernel
  have bound := (trading_makes_no_profit {List.replicate 20 1} Market.beforeTrade_rates reached
    keeps).2
  have taxes : total step (taxPaid {List.replicate 20 1}) Market.beforeTrade roundTrip = 0 := by
    decide +kernel
  have spreads : total step (spreadPaid {List.replicate 20 1}) Market.beforeTrade roundTrip = 3 := by
    decide +kernel
  have incomes : total step (income {List.replicate 20 1}) Market.beforeTrade roundTrip = 0 := by
    decide +kernel
  have roundings : total step (rounding {List.replicate 20 1}) Market.beforeTrade roundTrip =
      1 / 10 ^ 18 := by
    decide +kernel
  have atFirst : fortune {List.replicate 20 1} Market.beforeTrade = 1000 := by decide +kernel
  rw [taxes, spreads, incomes, roundings, atFirst, zero_add, zero_add] at bound
  exact ⟨ctx, reached, bound⟩

end TerraCore.Chain.Block
