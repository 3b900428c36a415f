import TerraCore.Chain.Run
import TerraCore.Pay.Taxes
import TerraCore.Treasury.Rates

/-!
# What a message leaves alone

Every message is answered by one module, and what the others keep stays as it
is. A swap adds to the oracle's swap fee pool and nothing else, and a transfer
writes what the treasury keeps of taxes. Of the rates it only reads one: the tax
rate of the epoch, when there is something to tax.
-/

namespace TerraCore.Chain

open Treasury

variable {L : Type} [Sdk L]

/-- The messages that the oracle answers. -/
def ToOracle : Msg → Prop
  | .pricePrevote _ => True
  | .priceVote _ => True
  | .delegateFeederPermission _ => True
  | _ => False

/-- The messages that the budget answers. -/
def ToBudget : Msg → Prop
  | .submitProgram _ => True
  | .withdrawProgram _ => True
  | .voteProgram _ => True
  | _ => False

namespace Block

/-- The messages that pay the stability tax. -/
def IsTransfer : Msg → Prop
  | .send _ => True
  | .multiSend _ => True
  | _ => False

/-- The inputs of a transfer. -/
def transferInputs : Msg → List (Address × List Coin)
  | .send msg => [(msg.fromAddress, msg.amount)]
  | .multiSend msg => msg.inputs
  | _ => []

theorem transferInputs_of_not_transfer {msg : Msg} (other : ¬IsTransfer msg) :
    transferInputs msg = [] := by
  cases msg with
  | send msg => exact absurd trivial other
  | multiSend msg => exact absurd trivial other
  | _ => rfl

end Block

open Block

/-- An accepted transfer pays the taxes on its inputs and then moves the coins. -/
theorem handle_transfer {before after : Context L} {msg : Msg} {result : Result}
    (transfer : IsTransfer msg) (handled : handle before msg = .ok (result, after)) :
    ∃ taxes taxed ledger,
      (transferInputs msg).foldlM Pay.payInputTax (Coins.empty, before) = .ok (taxes, taxed) ∧
        after = { taxed with ledger } := by
  cases msg with
  | send msg =>
      rcases Pay.handleMsgSend_eq_ok handled with ⟨taxes, taxed, ledger, paid, -, afterEq⟩
      exact ⟨taxes, taxed, ledger, paid, afterEq⟩
  | multiSend msg =>
      rcases Pay.handleMsgMultiSend_eq_ok handled with ⟨taxes, taxed, ledger, paid, -, afterEq⟩
      exact ⟨taxes, taxed, ledger, paid, afterEq⟩
  | _ => cases transfer

theorem handle_transfer_frame {before after : Context L} {msg : Msg} {result : Result}
    (transfer : IsTransfer msg) (handled : handle before msg = .ok (result, after)) :
    Pay.Frame before after := by
  rcases handle_transfer transfer handled with ⟨taxes, taxed, ledger, paid, rfl⟩
  have taxedFrame : Pay.Frame before taxed := Pay.payInputTaxes_frame paid
  exact taxedFrame.trans ⟨ledger, _, _, _, rfl⟩

/-- What a message leaves alone. -/
structure Spares (msg : Msg) (before after : Context L) : Prop where
  height : after.height = before.height
  validator : after.staking.validator = before.staking.validator
  bondedTokens : after.staking.bondedTokens = before.staking.bondedTokens
  market : after.market = before.market
  prices : after.oracle.prices = before.oracle.prices
  oracle : ¬ToOracle msg → ∃ swapFeePool, after.oracle = { before.oracle with swapFeePool }
  budget : ¬ToBudget msg → after.budget = before.budget
  treasury : ¬IsTransfer msg → after.treasury = before.treasury

omit [Sdk L] in
/-- A budget message burns or mints at most, apart from what it writes into the budget store. -/
theorem Spares.of_budget {before after : Context L} {msg : Msg} (toBudget : ToBudget msg)
    (frame : Mint.Frame { before with budget := after.budget } after) :
    Spares msg before after :=
  ⟨frame.height, frame.validator, frame.bondedTokens, frame.market,
    congrArg OracleStore.prices frame.oracle, fun _ => ⟨_, frame.oracle⟩,
    fun other => absurd toBudget other, fun _ => frame.treasury⟩

theorem handle_spares {before after : Context L} {msg : Msg} {result : Result}
    (handled : handle before msg = .ok (result, after)) : Spares msg before after := by
  cases msg with
  | swap msg =>
      rcases Market.handleMsgSwap_steps handled with
        ⟨retCoin, kept, spread, swapFee, quoted, charged, burned, -, quote, charge, burn, mint⟩
      rcases (Market.getSwapCoin_eq_ok quote).2.1 with ⟨readMint, rfl⟩
      rcases Market.chargeSpread_frame charge with ⟨swapFeePool, rfl⟩
      have frame := (Mint.burn_frame burn).trans (Mint.mint_frame mint)
      have oracleEq : after.oracle = { before.oracle with swapFeePool } := frame.oracle
      exact ⟨frame.height, frame.validator, frame.bondedTokens, frame.market,
        by rw [oracleEq], fun _ => ⟨swapFeePool, oracleEq⟩,
        fun _ => frame.budget, fun _ => frame.treasury⟩
  | send msg =>
      have transfer : IsTransfer (.send msg) := trivial
      rcases handle_transfer_frame transfer handled with ⟨_, _, _, _, rfl⟩
      exact ⟨rfl, rfl, rfl, rfl, rfl, fun _ => ⟨_, rfl⟩, fun _ => rfl,
        fun other => absurd transfer other⟩
  | multiSend msg =>
      have transfer : IsTransfer (.multiSend msg) := trivial
      rcases handle_transfer_frame transfer handled with ⟨_, _, _, _, rfl⟩
      exact ⟨rfl, rfl, rfl, rfl, rfl, fun _ => ⟨_, rfl⟩, fun _ => rfl,
        fun other => absurd transfer other⟩
  | submitProgram msg =>
      rcases Outcome.bind_eq_ok.mp handled with ⟨paid, burned, handled⟩
      cases handled
      have frame := Mint.burn_frame burned
      exact Spares.of_budget trivial ⟨frame.height, frame.validator, frame.bondedTokens,
        frame.oracle, frame.market, frame.treasury, rfl⟩
  | withdrawProgram msg =>
      rcases Budget.handleMsgWithdrawProgram_steps handled with ⟨_, middle, -, -, done, rfl⟩
      have frame := Budget.withdrawCandidate_frame done
      exact Spares.of_budget trivial ⟨frame.height, frame.validator, frame.bondedTokens,
        frame.oracle, frame.market, frame.treasury, rfl⟩
  | voteProgram msg =>
      rw [(Budget.handleMsgVoteProgram_eq_ok handled).2]
      exact Spares.of_budget trivial (.refl _)
  | pricePrevote msg =>
      rw [(Oracle.handleMsgPricePrevote_eq_ok handled).2.2]
      exact ⟨rfl, rfl, rfl, rfl, rfl, fun other => absurd trivial other, fun _ => rfl,
        fun _ => rfl⟩
  | priceVote msg =>
      rcases Oracle.handleMsgPriceVote_eq_ok handled with ⟨_, -, -, -, -, rfl⟩
      exact ⟨rfl, rfl, rfl, rfl, rfl, fun other => absurd trivial other, fun _ => rfl,
        fun _ => rfl⟩
  | delegateFeederPermission msg =>
      rw [Oracle.handleMsgDelegateFeederPermission_eq_ok handled]
      exact ⟨rfl, rfl, rfl, rfl, rfl, fun other => absurd trivial other, fun _ => rfl,
        fun _ => rfl⟩

/-- Taxing a payer reads the tax rate of the epoch. -/
theorem payTax_sameRates {before after : Context L} {taxPayer : Address} {principal : List Coin}
    {taxes : Coins} (done : Pay.payTax before taxPayer principal = .ok (taxes, after)) :
    SameRates (getTaxRate before before.getEpoch).2 after := by
  rcases Pay.payTax_eq_ok done with ⟨-, -, rfl⟩ | ⟨-, taxed, ledger, folded, -, rfl⟩
  · exact .of_same rfl rfl
  · rcases Pay.addTaxesDue_frame folded with ⟨taxCaps, taxedEq⟩
    simp only at taxedEq
    subst taxedEq
    exact ⟨rfl, rfl, rfl, rfl⟩

/-- Once the rate was read, taxing a payer keeps the rates. -/
theorem payTax_sameRates_of_stored {before after : Context L} {taxPayer : Address}
    {principal : List Coin} {taxes : Coins} {rate : Dec}
    (stored : before.treasury.taxRates[before.getEpoch]? = some rate)
    (done : Pay.payTax before taxPayer principal = .ok (taxes, after)) :
    SameRates before after := by
  apply SameRates.trans _ (payTax_sameRates done)
  refine ⟨rfl, rfl, ?_, rfl⟩
  simp only [getTaxRate, readTaxRate_of_stored _ stored]

theorem payInputTaxes_sameRates_of_stored {inputs : List (Address × List Coin)}
    {before after : Coins × Context L} {rate : Dec}
    (stored : before.2.treasury.taxRates[before.2.getEpoch]? = some rate)
    (done : inputs.foldlM Pay.payInputTax before = .ok after) : SameRates before.2 after.2 := by
  have stays {first second : Context L} (same : SameRates first second)
      (here : first.treasury.taxRates[first.getEpoch]? = some rate) :
      second.treasury.taxRates[second.getEpoch]? = some rate := by
    simp only [Context.getEpoch, same.height, same.taxRates]
    exact here
  refine @Pay.payInputTaxes_induction L _ (fun first second =>
    first.treasury.taxRates[first.getEpoch]? = some rate → SameRates first second)
    (fun _ _ => .of_same rfl rfl) ?_ ?_ inputs before after done stored
  · intro first second third one two here
    exact (one here).trans (two (stays (one here) here))
  · intro first second taxPayer principal taxes paid here
    exact payTax_sameRates_of_stored here paid

/-- Taxing all inputs reads the tax rate of the epoch if there is an input. -/
theorem payInputTaxes_sameRates {inputs : List (Address × List Coin)}
    {before after : Coins × Context L} (done : inputs.foldlM Pay.payInputTax before = .ok after)
    (nonempty : inputs ≠ []) :
    SameRates (getTaxRate before.2 before.2.getEpoch).2 after.2 := by
  cases inputs with
  | nil => exact absurd rfl nonempty
  | cons input inputs =>
      rw [List.foldlM_cons] at done
      rcases Outcome.bind_eq_ok.mp done with ⟨middle, first, rest⟩
      rcases Outcome.bind_eq_ok.mp first with ⟨⟨taxes, taxed⟩, paid, first⟩
      cases first
      have read := payTax_sameRates paid
      have stored : taxed.treasury.taxRates[taxed.getEpoch]? =
          some (getTaxRate before.2 before.2.getEpoch).1 := by
        simp only [Context.getEpoch, read.height, read.taxRates]
        exact readTaxRate_stored _ _ _
      exact read.trans (payInputTaxes_sameRates_of_stored stored rest)

/-- A transfer with inputs reads the tax rate; no other message reaches the rates. -/
theorem handle_sameRates {before after : Context L} {msg : Msg} {result : Result}
    (handled : handle before msg = .ok (result, after)) :
    (transferInputs msg = [] ∧ SameRates before after) ∨
      (transferInputs msg ≠ [] ∧ SameRates (getTaxRate before before.getEpoch).2 after) := by
  by_cases transfer : IsTransfer msg
  · rcases handle_transfer transfer handled with ⟨taxes, taxed, ledger, paid, rfl⟩
    by_cases noInputs : transferInputs msg = []
    · rw [noInputs] at paid
      cases paid
      exact Or.inl ⟨noInputs, .of_same rfl rfl⟩
    · have read := payInputTaxes_sameRates paid noInputs
      exact Or.inr ⟨noInputs, read.trans (.of_same rfl rfl)⟩
  · have spares := handle_spares handled
    exact Or.inl ⟨transferInputs_of_not_transfer transfer,
      .of_same spares.height (spares.treasury transfer)⟩

/-- No handler moves a rate. -/
theorem handle_reads {before after : Context L} {msg : Msg} {result : Result}
    (grounded : Grounded before) (handled : handle before msg = .ok (result, after)) :
    Reads before after := by
  rcases handle_sameRates handled with ⟨-, same⟩ | ⟨-, same⟩
  · exact Reads.of_sameRates same
  · have read : Reads before (getTaxRate before before.getEpoch).2 :=
      (getTaxRate_spec grounded le_rfl).2.toReads
    exact read.trans (Reads.of_sameRates same)

end TerraCore.Chain
