import TerraCore.Chain.Block
import TerraCore.Pay.Taxes

/-!
# Tax proceeds of a run

Only transfers pay taxes, and each tax is recorded in the epoch of its block. So
the tax proceeds of an epoch are the taxes of the transfers that were accepted
in it, whatever else the blocks of the run contain.
-/

namespace TerraCore.Chain

open Transition Treasury Pay

variable {L : Type} [Sdk L]

namespace Block

/-- The taxes of an event: those of a transfer that is accepted. -/
def taxCollected (ctx : Context L) (event : Event L) (denom : Denom) : ℤ :=
  match event with
  | .deliver msg =>
      match handle ctx msg with
      | .ok _ => creditedTotal (taxesOnInputs ctx (transferInputs msg)) denom
      | .error _ => 0
  | _ => 0

/-- The taxes of all transfers that a run accepts at heights of an epoch. -/
def taxesOver (epoch : ℤ) (denom : Denom) : Context L → List (Event L) → ℤ
  | _, [] => 0
  | ctx, event :: events =>
      (if epoch = ctx.getEpoch then taxCollected ctx event denom else 0) +
        match step ctx event with
        | some next => taxesOver epoch denom next events
        | none => 0

omit [Sdk L] in
theorem proceeds_congr {before after : Context L}
    (same : after.treasury.taxProceeds = before.treasury.taxProceeds) (epoch : ℤ) (denom : Denom) :
    proceeds after epoch denom = proceeds before epoch denom := by
  rw [proceeds, proceeds, peekTaxProceeds, peekTaxProceeds, same]

theorem handle_proceeds {before after : Context L} {msg : Msg} {result : Result}
    (handled : handle before msg = .ok (result, after)) (epoch : ℤ) (denom : Denom) :
    proceeds after epoch denom = proceeds before epoch denom +
      if epoch = before.getEpoch then creditedTotal (taxesOnInputs before (transferInputs msg)) denom
      else 0 := by
  by_cases transfer : IsTransfer msg
  · cases msg with
    | send msg => exact (handleMsgSend_transfers handled).proceeds epoch denom
    | multiSend msg => exact (handleMsgMultiSend_transfers handled).proceeds epoch denom
    | _ => cases transfer
  · have nothing : creditedTotal (taxesOnInputs before (transferInputs msg)) denom = 0 := by
      rw [transferInputs_of_not_transfer transfer]
      rfl
    rw [nothing, ite_self, add_zero]
    exact proceeds_congr (by rw [(handle_spares handled).treasury transfer]) epoch denom

theorem step_endBlock_taxProceeds {order : Oracle.MapOrder} {accountKeeper : Update.AccountKeeper}
    {before after : Context L} (grounded : Grounded before)
    (taken : step before (.endBlock order accountKeeper) = some after) :
    after.treasury.taxProceeds = before.treasury.taxProceeds := by
  rcases step_endBlock_stages taken with ⟨closed, _, updated, closes, update, band, cap, rfl⟩
  have closedPeeks := closing_reads grounded closes
  rcases endBlocker_cases (closedPeeks.grounded grounded) update with ⟨-, updatedEq⟩ | moved
  · change updated.treasury.taxProceeds = _
    rw [updatedEq]
    exact closedPeeks.taxProceeds
  · exact moved.taxProceeds.trans closedPeeks.taxProceeds

theorem step_proceeds {before after : Context L} {event : Event L} (grounded : Grounded before)
    (taken : step before event = some after) (epoch : ℤ) (denom : Denom) :
    proceeds after epoch denom = proceeds before epoch denom +
      if epoch = before.getEpoch then taxCollected before event denom else 0 := by
  cases event with
  | deliver msg =>
      cases taken
      simp only [taxCollected]
      cases handled : handle before msg with
      | ok done => exact handle_proceeds handled epoch denom
      | error failure =>
          rw [ite_self, add_zero]
          rfl
  | elsewhere environment =>
      cases taken
      simp only [taxCollected, ite_self, add_zero]
      exact proceeds_congr (by rfl) epoch denom
  | endBlock order accountKeeper =>
      simp only [taxCollected, ite_self, add_zero]
      exact proceeds_congr (step_endBlock_taxProceeds grounded taken) epoch denom

/-- The proceeds of an epoch grow by the taxes of the run. -/
theorem reaches_proceeds {start ctx : Context L} {events : List (Event L)}
    (grounded : Grounded start) (reached : Reaches step start events ctx) (epoch : ℤ)
    (denom : Denom) :
    proceeds ctx epoch denom =
      proceeds start epoch denom + taxesOver epoch denom start events := by
  induction events generalizing start with
  | nil => rw [reached.eq_of_nil, taxesOver, add_zero]
  | cons event events ih =>
      rcases reached.of_cons with ⟨next, taken, rest⟩
      rw [ih (step_keepsPast grounded taken).grounded rest,
        step_proceeds grounded taken, taxesOver, taken, add_assoc]

end Block

/-- The coins of a denomination in all accounts and in the fee collector. -/
def circulating (ctx : Context L) (denom : Denom) : ℤ :=
  supply ctx.ledger denom + Ledger.collectedFees ctx.ledger denom

/-- A transfer, or the next blocks. -/
def IsPayment : Action → Prop
  | .deliver msg => Block.IsTransfer msg
  | .advance _ => True
  | _ => False

theorem handle_circulating {before after : Context L} {msg : Msg} {result : Result}
    (transfer : Block.IsTransfer msg) (handled : handle before msg = .ok (result, after))
    (denom : Denom) : circulating after denom = circulating before denom := by
  have fromHoldings : ∀ {inputs outputs : List (Address × List Coin)},
      Transfers inputs outputs before after → Mint.Changes 0 0 0 before after →
        circulating after denom = circulating before denom := by
    intro inputs outputs transfers changes
    have held := changes.holdings denom
    have allocated := transfers.allocatedTotal denom
    simp only [holdings, Pi.zero_apply] at held
    simp only [circulating]
    omega
  cases msg with
  | send msg => exact fromHoldings (handleMsgSend_transfers handled) (handleMsgSend_changes handled)
  | multiSend msg =>
      exact fromHoldings (handleMsgMultiSend_transfers handled) (handleMsgMultiSend_changes handled)
  | _ => cases transfer

theorem step_circulating {before after : Context L} {action : Action} (payment : IsPayment action)
    (taken : step before action = some after) (denom : Denom) :
    circulating after denom = circulating before denom := by
  cases action with
  | deliver msg =>
      cases taken
      rcases before.deliver_cases (handle before msg) with ⟨result, handled⟩ | ⟨_, same⟩
      · exact handle_circulating payment handled denom
      · rw [same]
  | advance blocks =>
      cases taken
      rfl
  | _ => cases payment

theorem reaches_circulating {start ctx : Context L} {actions : List Action}
    (payments : ∀ action ∈ actions, IsPayment action) (reached : Reaches step start actions ctx)
    (denom : Denom) : circulating ctx denom = circulating start denom := by
  induction reached with
  | refl => rfl
  | @snoc earlier state next action _ taken ih =>
      rw [step_circulating (payments action (by simp)) taken,
        ih fun other otherMem => payments other (List.mem_append_left _ otherMem)]

/-- Tax accounting. An accepted transfer moves the coins that it names and the taxes on its
inputs, and nothing else; the tax on a coin is the smaller of the rounded down share and the cap.
In every run of blocks the tax proceeds of an epoch are the taxes of the transfers accepted in it,
and transfers conserve the coins in the accounts and the fee collector. -/
theorem tax_accounting :
    (∀ (before after : Context L) (msg : MsgSend) (result : Result),
      handleMsgSend before msg = .ok (result, after) →
        Transfers [(msg.fromAddress, msg.amount)] [(msg.toAddress, msg.amount)] before after) ∧
    (∀ (before after : Context L) (msg : MsgMultiSend) (result : Result),
      handleMsgMultiSend before msg = .ok (result, after) →
        Transfers msg.inputs msg.outputs before after) ∧
    (∀ (ctx : Context L) (coin : Coin) (taxCap : ℤ), 0 ≤ coin.amount →
      Dec.zero ≤ currentTaxRate ctx → 0 ≤ taxCap → taxCapOf ctx coin.denom = .ok taxCap →
        taxOn ctx coin =
          min ⌊(coin.amount : ℚ) * ((currentTaxRate ctx).raw / Dec.precision)⌋ taxCap) ∧
    (∀ (data : Treasury.GenesisState) (start ctx : Context L) (events : List (Block.Event L)),
      Fresh data start → Reaches Block.step start events ctx → ∀ epoch denom,
        proceeds ctx epoch denom = Block.taxesOver epoch denom start events) ∧
    (∀ (start ctx : Context L) (actions : List Action),
      (∀ action ∈ actions, IsPayment action) → Reaches step start actions ctx → ∀ denom,
        circulating ctx denom = circulating start denom) := by
  refine ⟨?_, ?_, ?_, ?_, ?_⟩
  · intro before after msg result handled
    exact handleMsgSend_transfers handled
  · intro before after msg result handled
    exact handleMsgMultiSend_transfers handled
  · intro ctx coin taxCap amountNonneg rateNonneg capNonneg cap
    exact taxOn_eq_floor amountNonneg rateNonneg capNonneg cap
  · intro data start ctx events fresh reached epoch denom
    have empty : proceeds start epoch denom = 0 := by
      rw [proceeds, peekTaxProceeds, fresh.treasury]
      rfl
    rw [Block.reaches_proceeds fresh.grounded reached, empty, zero_add]
  · intro start ctx actions payments reached denom
    exact reaches_circulating payments reached denom

/-- The default genesis with one account. -/
def samplePayer : Context Book :=
  Context.genesis
    (Book.empty.setAmounts (List.replicate 20 1) fun denom =>
      if denom = microSDRDenom then 2000000000 else 0)
    (Staking.single (List.replicate 20 1) 10 single_length)

def samplePayment : MsgSend :=
  ⟨List.replicate 20 1, List.replicate 20 2, [⟨microSDRDenom, 500000000⟩]⟩

/-- The tax on five hundred SDR is half an SDR, below the cap of one. -/
theorem tax_accounting_sample :
    ∃ (result : Result) (after : Context Book),
      handleMsgSend samplePayer samplePayment = .ok (result, after) ∧
        Transfers [(samplePayment.fromAddress, samplePayment.amount)]
          [(samplePayment.toAddress, samplePayment.amount)] samplePayer after ∧
        taxOn samplePayer ⟨microSDRDenom, 500000000⟩ = min ⌊(500000 : ℚ)⌋ 1000000 ∧
        proceeds after 0 microSDRDenom = Block.taxesOver 0 microSDRDenom samplePayer
          [.deliver (.send samplePayment)] ∧
        Block.taxesOver 0 microSDRDenom samplePayer [.deliver (.send samplePayment)] = 500000 ∧
        circulating after microSDRDenom = circulating samplePayer microSDRDenom := by
  have accepted : (handleMsgSend samplePayer samplePayment).toOption.isSome := by decide +kernel
  rcases tax_accounting (L := Book) with ⟨sends, -, taxes, recorded, conserved⟩
  cases handled : handleMsgSend samplePayer samplePayment with
  | error failure =>
      rw [handled] at accepted
      cases accepted
  | ok done =>
      have delivered : Reaches Block.step samplePayer [.deliver (.send samplePayment)] done.2 :=
        .single (by simp only [Block.step, handle, handled]; rfl)
      have performed : Reaches step samplePayer [.deliver (.send samplePayment)] done.2 :=
        .single (by simp only [step, handle, handled]; rfl)
      have tax := taxes samplePayer ⟨microSDRDenom, 500000000⟩ 1000000 (by decide) (by decide)
        (by decide) (by decide +kernel)
      have rate : (currentTaxRate samplePayer).raw = 1000000000000000 := by decide +kernel
      rw [rate] at tax
      refine ⟨done.1, done.2, rfl, sends _ _ _ done.1 handled, ?_, ?_, by decide +kernel, ?_⟩
      · rw [tax]
        norm_num [Dec.precision]
      · exact recorded Treasury.defaultGenesisState samplePayer done.2 _ ⟨rfl, rfl⟩ delivered 0 _
      · exact conserved samplePayer done.2 _ (by simp [IsPayment, Block.IsTransfer]) performed _

end TerraCore.Chain
