import TerraCore.Treasury.Keeper

/-!
# Payments

The bank's send messages are handled by this repository so that they pay the
stability tax. The tax moves from the payer to the fee collector, so a payment
neither creates nor destroys coins.
-/

namespace TerraCore.Pay

structure MsgSend where
  fromAddress : Address
  toAddress : Address
  amount : List Coin

/-- `bank.MsgMultiSend`. The bank's `ValidateBasic` rejects a message whose
inputs and outputs differ in total. -/
structure MsgMultiSend where
  inputs : List (Address × List Coin)
  outputs : List (Address × List Coin)
  balanced : ∀ denom, creditedTotal inputs denom = creditedTotal outputs denom

variable {L : Type} [Sdk L]

/-- If the tax due is greater than the tax cap, cap. -/
def capTax (taxCap taxDue : ℤ) : ℤ := if taxCap < taxDue then taxCap else taxDue

/-- The tax on one coin is added to the taxes. -/
def addTaxDue (taxRate : Dec) (state : Coins × Context L) (coin : Coin) :
    Outcome (Coins × Context L) := do
  let (taxes, ctx) := state
  let taxDue := ((Dec.ofInt coin.amount).mul taxRate).truncateInt
  let (taxCap, ctx) ← Treasury.getTaxCap ctx coin.denom
  let taxDue := capTax taxCap taxDue
  if taxDue = 0 then pure (taxes, ctx)
  else
    let tax ← newCoin coin.denom taxDue
    let tax ← Coins.ofCoin tax
    pure (taxes.add tax, ctx)

def payTax (ctx : Context L) (taxPayer : Address) (principal : List Coin) :
    Outcome (Coins × Context L) := do
  let (taxRate, ctx) := Treasury.getTaxRate ctx ctx.getEpoch
  if taxRate = Dec.zero then pure (Coins.empty, ctx)
  else
    let (taxes, ctx) ← principal.foldlM (addTaxDue taxRate) (Coins.empty, ctx)
    let ledger ← Sdk.subtractCoins ctx.ledger taxPayer taxes.toList
    let ctx := { ctx with ledger := Sdk.addCollectedFees ledger taxes }
    pure (taxes, Treasury.recordTaxProceeds ctx taxes)

def handleMsgSend (ctx : Context L) (msg : MsgSend) : Outcome (Result × Context L) := do
  if Sdk.sendEnabled ctx.ledger then
    let (taxes, ctx) ← payTax ctx msg.fromAddress msg.amount
    let ledger ← Sdk.sendCoins ctx.ledger msg.fromAddress msg.toAddress msg.amount
    pure ({ tags := [], log := [.tax taxes] }, { ctx with ledger })
  else .error (.error .sendDisabled)

/-- The tax on one input is added to the total. -/
def payInputTax (state : Coins × Context L) (input : Address × List Coin) :
    Outcome (Coins × Context L) := do
  let (taxes, ctx) ← payTax state.2 input.1 input.2
  pure (state.1.add taxes, ctx)

def handleMsgMultiSend (ctx : Context L) (msg : MsgMultiSend) : Outcome (Result × Context L) := do
  if Sdk.sendEnabled ctx.ledger then
    let (totalTaxes, ctx) ← msg.inputs.foldlM payInputTax (Coins.empty, ctx)
    let ledger ← Sdk.inputOutputCoins ctx.ledger msg.inputs msg.outputs
    pure ({ tags := [], log := [.tax totalTaxes] }, { ctx with ledger })
  else .error (.error .sendDisabled)

open Mint

/-- The taxes are computed without touching anything but the tax caps. -/
theorem addTaxDue_frame {taxRate : Dec} {coin : Coin} {before after : Coins × Context L}
    (done : addTaxDue taxRate before coin = .ok after) :
    ∃ taxCaps, after.2 =
      { before.2 with treasury := { before.2.treasury with taxCaps } } := by
  rcases Outcome.bind_eq_ok.mp done with ⟨⟨taxCap, capped⟩, read, done⟩
  simp only at done
  split at done
  · cases done
    exact Treasury.getTaxCap_frame read
  · rcases Outcome.bind_eq_ok.mp done with ⟨_, -, done⟩
    rcases Outcome.bind_eq_ok.mp done with ⟨_, -, done⟩
    cases done
    exact Treasury.getTaxCap_frame read

theorem addTaxesDue_frame {taxRate : Dec} {principal : List Coin}
    {before after : Coins × Context L}
    (done : principal.foldlM (addTaxDue taxRate) before = .ok after) :
    ∃ taxCaps, after.2 =
      { before.2 with treasury := { before.2.treasury with taxCaps } } := by
  induction principal generalizing before with
  | nil =>
      cases done
      exact ⟨_, rfl⟩
  | cons coin principal ih =>
      rw [List.foldlM_cons] at done
      rcases Outcome.bind_eq_ok.mp done with ⟨middle, first, rest⟩
      rcases addTaxDue_frame first with ⟨_, middleEq⟩
      rcases ih rest with ⟨taxCaps, afterEq⟩
      refine ⟨taxCaps, ?_⟩
      rw [afterEq, middleEq]

/-- A tax is paid when the rate is not zero: it is added up, taken from the payer and recorded. -/
theorem payTax_eq_ok {before after : Context L} {taxPayer : Address} {principal : List Coin}
    {taxes : Coins} (done : payTax before taxPayer principal = .ok (taxes, after)) :
    ((Treasury.getTaxRate before before.getEpoch).1 = Dec.zero ∧ taxes = Coins.empty ∧
        after = (Treasury.getTaxRate before before.getEpoch).2) ∨
      ((Treasury.getTaxRate before before.getEpoch).1 ≠ Dec.zero ∧ ∃ taxed ledger,
        principal.foldlM (addTaxDue (Treasury.getTaxRate before before.getEpoch).1)
          (Coins.empty, (Treasury.getTaxRate before before.getEpoch).2) = .ok (taxes, taxed) ∧
        Sdk.subtractCoins taxed.ledger taxPayer taxes.toList = .ok ledger ∧
        after = Treasury.recordTaxProceeds
          { taxed with ledger := Sdk.addCollectedFees ledger taxes } taxes) := by
  simp only [payTax] at done
  split at done
  · next isZero =>
      cases done
      exact Or.inl ⟨isZero, rfl, rfl⟩
  · next nonzero =>
      rcases Outcome.bind_eq_ok.mp done with ⟨⟨due, taxed⟩, folded, done⟩
      rcases Outcome.bind_eq_ok.mp done with ⟨ledger, subtracted, done⟩
      cases done
      exact Or.inr ⟨nonzero, taxed, ledger, folded, subtracted, rfl⟩

/-- Only the coins and what the treasury keeps of taxes were written. -/
def Frame (before after : Context L) : Prop :=
  ∃ ledger taxRates taxCaps taxProceeds, after =
    { before with ledger, treasury := { before.treasury with taxRates, taxCaps, taxProceeds } }

omit [Sdk L] in
theorem Frame.refl (ctx : Context L) : Frame ctx ctx := ⟨_, _, _, _, rfl⟩

omit [Sdk L] in
theorem Frame.trans {before middle after : Context L} (first : Frame before middle)
    (second : Frame middle after) : Frame before after := by
  rcases first with ⟨_, _, _, _, rfl⟩
  rcases second with ⟨ledger, taxRates, taxCaps, taxProceeds, rfl⟩
  exact ⟨ledger, taxRates, taxCaps, taxProceeds, rfl⟩

theorem payTax_frame {before after : Context L} {taxPayer : Address} {principal : List Coin}
    {taxes : Coins} (done : payTax before taxPayer principal = .ok (taxes, after)) :
    Frame before after := by
  rcases payTax_eq_ok done with ⟨-, -, rfl⟩ | ⟨-, taxed, ledger, folded, -, rfl⟩
  · exact ⟨_, _, _, _, rfl⟩
  · rcases addTaxesDue_frame folded with ⟨taxCaps, taxedEq⟩
    simp only at taxedEq
    subst taxedEq
    exact ⟨_, _, _, _, rfl⟩

/-- What holds of paying one tax, and of doing nothing and of one thing after another, holds of
paying the taxes on all inputs. -/
theorem payInputTaxes_induction {relation : Context L → Context L → Prop}
    (refl : ∀ ctx, relation ctx ctx)
    (trans : ∀ {before middle after}, relation before middle → relation middle after →
      relation before after)
    (pays : ∀ {before after taxPayer principal taxes},
      payTax before taxPayer principal = .ok (taxes, after) → relation before after)
    {inputs : List (Address × List Coin)} {before after : Coins × Context L}
    (done : inputs.foldlM payInputTax before = .ok after) : relation before.2 after.2 := by
  induction inputs generalizing before with
  | nil =>
      cases done
      exact refl _
  | cons input inputs ih =>
      rw [List.foldlM_cons] at done
      rcases Outcome.bind_eq_ok.mp done with ⟨middle, first, rest⟩
      rcases Outcome.bind_eq_ok.mp first with ⟨⟨taxes, taxed⟩, paid, first⟩
      cases first
      exact trans (pays paid) (ih rest)

theorem payInputTaxes_frame {inputs : List (Address × List Coin)}
    {before after : Coins × Context L}
    (done : inputs.foldlM payInputTax before = .ok after) : Frame before.2 after.2 :=
  payInputTaxes_induction Frame.refl Frame.trans payTax_frame done

/-- A transfer of one input pays the taxes of this input first. -/
theorem handleMsgSend_eq_ok {before after : Context L} {msg : MsgSend} {result : Result}
    (handled : handleMsgSend before msg = .ok (result, after)) :
    ∃ taxes taxed ledger,
      [(msg.fromAddress, msg.amount)].foldlM payInputTax (Coins.empty, before) =
        .ok (taxes, taxed) ∧
      Sdk.sendCoins taxed.ledger msg.fromAddress msg.toAddress msg.amount = .ok ledger ∧
      after = { taxed with ledger } := by
  simp only [handleMsgSend] at handled
  split at handled
  · rcases Outcome.bind_eq_ok.mp handled with ⟨⟨taxes, taxed⟩, paid, handled⟩
    rcases Outcome.bind_eq_ok.mp handled with ⟨ledger, sent, handled⟩
    cases handled
    refine ⟨Coins.empty.add taxes, taxed, ledger, ?_, sent, rfl⟩
    simp only [List.foldlM_cons, List.foldlM_nil, payInputTax, paid, bind, Except.bind, pure,
      Except.pure]
  · cases handled

theorem handleMsgMultiSend_eq_ok {before after : Context L} {msg : MsgMultiSend} {result : Result}
    (handled : handleMsgMultiSend before msg = .ok (result, after)) :
    ∃ taxes taxed ledger, msg.inputs.foldlM payInputTax (Coins.empty, before) = .ok (taxes, taxed) ∧
      Sdk.inputOutputCoins taxed.ledger msg.inputs msg.outputs = .ok ledger ∧
      after = { taxed with ledger } := by
  simp only [handleMsgMultiSend] at handled
  split at handled
  · rcases Outcome.bind_eq_ok.mp handled with ⟨⟨taxes, taxed⟩, paid, handled⟩
    rcases Outcome.bind_eq_ok.mp handled with ⟨ledger, sent, handled⟩
    cases handled
    exact ⟨taxes, taxed, ledger, paid, sent, rfl⟩
  · cases handled

/-- The tax leaves the payer's account and reaches the fee collector. -/
theorem payTax_changes {before after : Context L} {taxPayer : Address} {principal : List Coin}
    {taxes : Coins} (done : payTax before taxPayer principal = .ok (taxes, after)) :
    Changes 0 0 0 before after := by
  have read : Changes 0 0 0 before (Treasury.getTaxRate before before.getEpoch).2 :=
    Treasury.changes_of_treasury before _
  rcases payTax_eq_ok done with ⟨-, -, rfl⟩ | ⟨-, taxed, ledger, folded, subtracted, rfl⟩
  · exact read
  · rcases addTaxesDue_frame folded with ⟨taxCaps, taxedEq⟩
    have computed : Changes 0 0 0 (Treasury.getTaxRate before before.getEpoch).2 taxed := by
      rw [show taxed = _ from taxedEq]
      exact Treasury.changes_of_treasury _ _
    have paid := Changes.of_moves taxed (Sdk.subtractCoins_moves subtracted)
    have collected := Changes.of_moves { taxed with ledger }
      (Sdk.addCollectedFees_moves ledger taxes)
    have recorded := Treasury.changes_of_treasury
      { taxed with ledger := Sdk.addCollectedFees ledger taxes }
      (Treasury.recordTaxProceeds { taxed with ledger := Sdk.addCollectedFees ledger taxes }
        taxes).treasury
    refine ((((read.trans computed).trans paid).trans collected).trans recorded).of_eq ?_
      (by simp) rfl
    intro denom
    simp [creditedTotal_cons]

theorem payInputTaxes_changes {inputs : List (Address × List Coin)}
    {before after : Coins × Context L}
    (done : inputs.foldlM payInputTax before = .ok after) : Changes 0 0 0 before.2 after.2 :=
  payInputTaxes_induction Changes.refl
    (fun first second => (first.trans second).of_eq (by simp) (by simp) rfl) payTax_changes done

theorem handleMsgSend_changes {before after : Context L} {msg : MsgSend} {result : Result}
    (handled : handleMsgSend before msg = .ok (result, after)) : Changes 0 0 0 before after := by
  rcases handleMsgSend_eq_ok handled with ⟨taxes, taxed, ledger, paid, sent, rfl⟩
  have paidChanges : Changes 0 0 0 before taxed := payInputTaxes_changes paid
  have moved := Changes.of_moves taxed (Sdk.sendCoins_moves sent)
  exact (paidChanges.trans moved).of_eq (by simp [creditedTotal_cons]) (by simp) rfl

theorem handleMsgMultiSend_changes {before after : Context L} {msg : MsgMultiSend}
    {result : Result} (handled : handleMsgMultiSend before msg = .ok (result, after)) :
    Changes 0 0 0 before after := by
  rcases handleMsgMultiSend_eq_ok handled with ⟨taxes, taxed, ledger, paid, sent, rfl⟩
  have paidChanges : Changes 0 0 0 before taxed := payInputTaxes_changes paid
  have moved := Changes.of_moves taxed (Sdk.inputOutputCoins_moves sent)
  refine (paidChanges.trans moved).of_eq ?_ (by simp) rfl
  intro denom
  simp [msg.balanced denom]

end TerraCore.Pay
