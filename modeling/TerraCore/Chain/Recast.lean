import TerraCore.Chain.Block
import TerraCore.Library.Lockstep
import TerraCore.Oracle.Participant

/-!
# What the oracle's participants cannot notice

The other messages of the chain neither read nor write prevotes, votes and
feeder delegations, and they keep everything that the rules of the oracle depend
on. `Aside` says this of the states before and after a call, and `recast` of two
runs of the same call: with other votes it does the same.
-/

namespace TerraCore.Chain

open Lockstep Oracle

variable {L : Type} [Sdk L]

/-- The participants are left alone, and so is what their rules depend on. -/
structure Aside (before after : Context L) : Prop where
  height : after.height = before.height
  poll : after.oracle.poll = before.oracle.poll
  votePeriod : after.oracle.params.votePeriod = before.oracle.params.votePeriod
  validator : after.staking.validator = before.staking.validator
  bonded : after.staking.bondedTokens = before.staking.bondedTokens

namespace Aside

variable {before middle after : Context L}

omit [Sdk L] in
theorem refl (ctx : Context L) : Aside ctx ctx := ⟨rfl, rfl, rfl, rfl, rfl⟩

omit [Sdk L] in
theorem trans (first : Aside before middle) (second : Aside middle after) : Aside before after :=
  ⟨second.height.trans first.height, second.poll.trans first.poll,
    second.votePeriod.trans first.votePeriod, second.validator.trans first.validator,
    second.bonded.trans first.bonded⟩

omit [Sdk L] in
theorem participant_eq (aside : Aside before after) (validator : Address) :
    participant after validator = participant before validator := by
  have prevotes : after.oracle.prevotes = before.oracle.prevotes :=
    congrArg Poll.prevotes aside.poll
  have votes : after.oracle.votes = before.oracle.votes := congrArg Poll.votes aside.poll
  have feeders : after.oracle.feederDelegations = before.oracle.feederDelegations :=
    congrArg Poll.feederDelegations aside.poll
  simp only [participant, prevotes, votes, feeders, aside.height, aside.votePeriod,
    aside.validator]

omit [Sdk L] in
theorem of_frame (frame : Mint.Frame before after) : Aside before after :=
  ⟨frame.height, congrArg OracleStore.poll frame.oracle,
    congrArg (fun oracle : OracleStore => oracle.params.votePeriod) frame.oracle, frame.validator,
    frame.bondedTokens⟩

end Aside

/-- The same result, with other votes. -/
def Recasted {α : Type} (poll : Poll) (left right : α × Context L) : Prop :=
  right = (left.1, left.2.recast poll)

variable (poll : Poll)

theorem changeIssuance_recast (ctx : Context L) (denom : Denom) (delta : ℤ) :
    Related (fun left right => right = left.recast poll)
      (Mint.changeIssuance ctx denom delta)
      (Mint.changeIssuance (ctx.recast poll) denom delta) := by
  have sameStore : (ctx.recast poll).mint = ctx.mint := rfl
  simp only [Mint.changeIssuance, sameStore]
  cases ctx.mint.issuance[(denom, (0 : ℤ))]? with
  | none => exact .ok rfl
  | some genesis =>
      have sameRead : (Mint.getIssuance (ctx.recast poll) denom (ctx.recast poll).today).1 =
          (Mint.getIssuance ctx denom ctx.today).1 := rfl
      simp only [sameRead]
      split
      · exact .error _
      · exact .ok rfl

omit [Sdk L] in
theorem changeNotBonded_recast (ctx : Context L) (denom : Denom) (delta : ℤ) :
    Mint.changeNotBonded (ctx.recast poll) denom delta =
      (Mint.changeNotBonded ctx denom delta).recast poll := by
  simp only [Mint.changeNotBonded]
  split <;> rfl

theorem mint_recast (ctx : Context L) (recipient : Address) (coin : Coin) :
    Related (fun left right => right = left.recast poll)
      (Mint.mint ctx recipient coin) (Mint.mint (ctx.recast poll) recipient coin) := by
  refine (Related.same (Sdk.addCoins ctx.ledger recipient [coin])).bind ?_
  rintro ledger _ rfl
  have pooled := changeNotBonded_recast poll { ctx with ledger } coin.denom coin.amount
  have counted := changeIssuance_recast poll
    (Mint.changeNotBonded { ctx with ledger } coin.denom coin.amount) coin.denom coin.amount
  rw [← pooled] at counted
  exact counted

theorem burn_recast (ctx : Context L) (payer : Address) (coin : Coin) :
    Related (fun left right => right = left.recast poll)
      (Mint.burn ctx payer coin) (Mint.burn (ctx.recast poll) payer coin) := by
  refine (Related.same (Sdk.subtractCoins ctx.ledger payer [coin])).bind ?_
  rintro ledger _ rfl
  have pooled := changeNotBonded_recast poll { ctx with ledger } coin.denom (-coin.amount)
  have counted := changeIssuance_recast poll
    (Mint.changeNotBonded { ctx with ledger } coin.denom (-coin.amount)) coin.denom (-coin.amount)
  rw [← pooled] at counted
  exact counted

theorem computeLunaDelta_recast (ctx : Context L) (change : ℤ) :
    Market.computeLunaDelta (ctx.recast poll) change =
      ((Market.computeLunaDelta ctx change).1, (Market.computeLunaDelta ctx change).2.recast poll) := by
  have sameDay : (ctx.recast poll).today = ctx.today := rfl
  have sameRead (other : Context L) (day : ℤ) :
      Mint.getIssuance (other.recast poll) microLunaDenom day =
        ((Mint.getIssuance other microLunaDenom day).1,
          (Mint.getIssuance other microLunaDenom day).2.recast poll) := rfl
  simp only [Market.computeLunaDelta, sameDay, sameRead]
  split
  · rfl
  · split <;> rfl

theorem getSwapCoin_recast (ctx : Context L) (offerCoin : Coin) (askDenom : Denom)
    (isInternal : Bool) :
    Related (fun left right => right = (left.1, left.2.1, left.2.2.recast poll))
      (Market.getSwapCoin ctx offerCoin askDenom isInternal)
      (Market.getSwapCoin (ctx.recast poll) offerCoin askDenom isInternal) := by
  have samePrice (denom : Denom) :
      Market.effectivePrice (ctx.recast poll) denom = Market.effectivePrice ctx denom := rfl
  have sameMarket : (ctx.recast poll).market = ctx.market := rfl
  simp only [Market.getSwapCoin, samePrice, sameMarket, computeLunaDelta_recast]
  refine (Related.same _).bind ?_
  rintro offerRate _ rfl
  refine (Related.same _).bind ?_
  rintro askRate _ rfl
  refine (Related.same _).bind ?_
  rintro exactAmount _ rfl
  split
  · exact .error _
  · split
    · refine (Related.same _).bind ?_
      rintro retCoin _ rfl
      exact .ok rfl
    · split
      · exact .error _
      · refine (Related.same _).bind ?_
        rintro spread _ rfl
        refine (Related.same _).bind ?_
        rintro retCoin _ rfl
        exact .ok rfl

omit [Sdk L] in
theorem chargeSpread_recast (ctx : Context L) (swapCoin : Coin) (spread : Dec) :
    Related (fun left right => right = (left.1, left.2.1, left.2.2.recast poll))
      (Market.chargeSpread ctx swapCoin spread)
      (Market.chargeSpread (ctx.recast poll) swapCoin spread) := by
  simp only [Market.chargeSpread]
  split
  · refine (Related.same _).bind ?_
    rintro swapFee _ rfl
    refine (Related.same _).bind ?_
    rintro fees _ rfl
    refine (Related.same _).bind ?_
    rintro kept _ rfl
    exact .ok rfl
  · exact .ok rfl

theorem handleMsgSwap_recast (ctx : Context L) (msg : Market.MsgSwap) :
    Related (Recasted poll) (Market.handleMsgSwap ctx msg)
      (Market.handleMsgSwap (ctx.recast poll) msg) := by
  simp only [Market.handleMsgSwap]
  split
  · exact .error _
  · refine (getSwapCoin_recast poll ctx msg.offerCoin msg.askDenom false).bind ?_
    rintro ⟨retCoin, spread, quoted⟩ _ rfl
    refine (chargeSpread_recast poll quoted retCoin spread).bind ?_
    rintro ⟨kept, swapFee, charged⟩ _ rfl
    refine (burn_recast poll charged msg.trader msg.offerCoin).bind ?_
    rintro burned _ rfl
    refine (mint_recast poll burned msg.trader kept).bind ?_
    rintro minted _ rfl
    exact .ok rfl

theorem getTaxCap_recast (ctx : Context L) (denom : Denom) :
    Related (Recasted poll) (Treasury.getTaxCap ctx denom)
      (Treasury.getTaxCap (ctx.recast poll) denom) := by
  have sameTreasury : (ctx.recast poll).treasury = ctx.treasury := rfl
  simp only [Treasury.getTaxCap, Treasury.requestedCap, sameTreasury]
  cases ctx.treasury.taxCaps[denom]? with
  | some taxCap => exact .ok rfl
  | none =>
      have quoted := getSwapCoin_recast poll ctx ctx.treasury.params.taxPolicy.cap denom true
      generalize Market.getSwapCoin ctx _ denom true = left at quoted ⊢
      generalize Market.getSwapCoin (ctx.recast poll) _ denom true = right at quoted ⊢
      cases quoted with
      | ok related =>
          rw [related]
          exact .ok rfl
      | error failure =>
          cases failure with
          | panic panic => exact .error _
          | error error =>
              simp only
              cases newCoin denom ctx.treasury.params.taxPolicy.cap.amount with
              | ok reqCap => exact .ok rfl
              | error failure => exact .error _

theorem addTaxDue_recast (taxRate : Dec) (coin : Coin) {left right : Coins × Context L}
    (recasted : Recasted poll left right) :
    Related (Recasted poll) (Pay.addTaxDue taxRate left coin) (Pay.addTaxDue taxRate right coin) := by
  rcases left with ⟨taxes, ctx⟩
  cases recasted
  refine (getTaxCap_recast poll ctx coin.denom).bind ?_
  rintro ⟨taxCap, capped⟩ _ rfl
  simp only
  split
  · exact .ok rfl
  · refine (Related.same _).bind ?_
    rintro tax _ rfl
    refine (Related.same _).bind ?_
    rintro coins _ rfl
    exact .ok rfl

theorem payTax_recast (ctx : Context L) (taxPayer : Address) (principal : List Coin) :
    Related (Recasted poll) (Pay.payTax ctx taxPayer principal)
      (Pay.payTax (ctx.recast poll) taxPayer principal) := by
  have sameRate : Treasury.getTaxRate (ctx.recast poll) (ctx.recast poll).getEpoch =
      ((Treasury.getTaxRate ctx ctx.getEpoch).1,
        (Treasury.getTaxRate ctx ctx.getEpoch).2.recast poll) := rfl
  simp only [Pay.payTax, sameRate]
  split
  · exact .ok rfl
  · refine (Related.foldlM (fun coin _ left right recasted =>
      addTaxDue_recast poll _ coin recasted) rfl).bind ?_
    rintro ⟨taxes, taxed⟩ _ rfl
    refine (Related.same (Sdk.subtractCoins taxed.ledger taxPayer taxes.toList)).bind ?_
    rintro ledger _ rfl
    exact .ok rfl

theorem handleMsgSend_recast (ctx : Context L) (msg : Pay.MsgSend) :
    Related (Recasted poll) (Pay.handleMsgSend ctx msg)
      (Pay.handleMsgSend (ctx.recast poll) msg) := by
  have sameLedger : (ctx.recast poll).ledger = ctx.ledger := rfl
  simp only [Pay.handleMsgSend, sameLedger]
  split
  · refine (payTax_recast poll ctx msg.fromAddress msg.amount).bind ?_
    rintro ⟨taxes, taxed⟩ _ rfl
    refine (Related.same
      (Sdk.sendCoins taxed.ledger msg.fromAddress msg.toAddress msg.amount)).bind ?_
    rintro ledger _ rfl
    exact .ok rfl
  · exact .error _

theorem payInputTax_recast (input : Address × List Coin) {left right : Coins × Context L}
    (recasted : Recasted poll left right) :
    Related (Recasted poll) (Pay.payInputTax left input) (Pay.payInputTax right input) := by
  rcases left with ⟨taxes, ctx⟩
  cases recasted
  refine (payTax_recast poll ctx input.1 input.2).bind ?_
  rintro ⟨added, taxed⟩ _ rfl
  exact .ok rfl

theorem handleMsgMultiSend_recast (ctx : Context L) (msg : Pay.MsgMultiSend) :
    Related (Recasted poll) (Pay.handleMsgMultiSend ctx msg)
      (Pay.handleMsgMultiSend (ctx.recast poll) msg) := by
  have sameLedger : (ctx.recast poll).ledger = ctx.ledger := rfl
  simp only [Pay.handleMsgMultiSend, sameLedger]
  split
  · refine (Related.foldlM (fun input _ left right recasted =>
      payInputTax_recast poll input recasted) rfl).bind ?_
    rintro ⟨taxes, taxed⟩ _ rfl
    refine (Related.same (Sdk.inputOutputCoins taxed.ledger msg.inputs msg.outputs)).bind ?_
    rintro ledger _ rfl
    exact .ok rfl
  · exact .error _

theorem handleMsgSubmitProgram_recast (ctx : Context L) (msg : Budget.MsgSubmitProgram) :
    Related (Recasted poll) (Budget.handleMsgSubmitProgram ctx msg)
      (Budget.handleMsgSubmitProgram (ctx.recast poll) msg) := by
  refine (burn_recast poll ctx msg.submitter ctx.budget.params.deposit).bind ?_
  rintro burned _ rfl
  exact .ok rfl

theorem withdrawCandidate_recast (ctx : Context L) (program : Budget.Program)
    (msg : Budget.MsgWithdrawProgram) :
    Related (fun left right => right = left.recast poll)
      (Budget.withdrawCandidate ctx program msg)
      (Budget.withdrawCandidate (ctx.recast poll) program msg) := by
  have sameBudget : (ctx.recast poll).budget = ctx.budget := rfl
  simp only [Budget.withdrawCandidate, sameBudget]
  split
  · generalize ctx.budget.candQueueRemove _ msg.programID = budget
    have refunded := mint_recast poll { ctx with budget } program.submitter budget.params.deposit
    simp only [Budget.refundDeposit]
    change Related _ (Mint.mint { ctx with budget } _ _)
      (Mint.mint { ctx.recast poll with budget } _ _) at refunded
    -- A failed refund is reported with an error of its own.
    generalize Mint.mint { ctx with budget } _ _ = left at refunded ⊢
    generalize Mint.mint { ctx.recast poll with budget } _ _ = right at refunded ⊢
    cases refunded with
    | ok related => exact .ok related
    | error failure =>
        cases failure with
        | error error => exact .error _
        | panic panic => exact .error _
  · exact .ok rfl

theorem handleMsgWithdrawProgram_recast (ctx : Context L) (msg : Budget.MsgWithdrawProgram) :
    Related (Recasted poll) (Budget.handleMsgWithdrawProgram ctx msg)
      (Budget.handleMsgWithdrawProgram (ctx.recast poll) msg) := by
  have sameBudget : (ctx.recast poll).budget = ctx.budget := rfl
  simp only [Budget.handleMsgWithdrawProgram, sameBudget]
  cases ctx.budget.programs[msg.programID]? with
  | none => exact .error _
  | some program =>
      simp only
      split
      · exact .error _
      · refine (withdrawCandidate_recast poll ctx program msg).bind ?_
        rintro withdrawn _ rfl
        exact .ok rfl

omit [Sdk L] in
theorem handleMsgVoteProgram_recast (ctx : Context L) (msg : Budget.MsgVoteProgram) :
    Related (Recasted poll) (Budget.handleMsgVoteProgram ctx msg)
      (Budget.handleMsgVoteProgram (ctx.recast poll) msg) := by
  have sameBudget : (ctx.recast poll).budget = ctx.budget := rfl
  have sameStaking : (ctx.recast poll).staking = ctx.staking := rfl
  simp only [Budget.handleMsgVoteProgram, sameBudget, sameStaking]
  cases ctx.budget.programs[msg.programID]? with
  | none => exact .error _
  | some program =>
      cases ctx.staking.validator msg.voter with
      | none => exact .error _
      | some bondSize => exact .ok rfl

/-- The participant that a message names, and the move that it makes. -/
def move : Msg → Option (Address × Move)
  | .pricePrevote msg => some (msg.validator, .commit msg.feeder msg.denom msg.hash)
  | .priceVote msg => some (msg.validator, .reveal msg.feeder msg.denom msg.price msg.salt)
  | .delegateFeederPermission msg => some (msg.operator, .delegate msg.feedDelegate)
  | _ => none

/-- A message that is no move leaves the participants alone. -/
theorem handle_aside {before after : Context L} {msg : Msg} {result : Result}
    (other : move msg = none) (handled : handle before msg = .ok (result, after)) :
    Aside before after := by
  have notToOracle : ¬ToOracle msg := by
    cases msg <;> simp_all [move, ToOracle]
  have spares := handle_spares handled
  rcases spares.oracle notToOracle with ⟨swapFeePool, oracle⟩
  refine ⟨spares.height, ?_, ?_, spares.validator, spares.bondedTokens⟩ <;> rw [oracle]
  rfl

/-- A message that is no move does the same with other votes. -/
theorem handle_recast (ctx : Context L) {msg : Msg} (other : move msg = none) :
    Related (Recasted poll) (handle ctx msg) (handle (ctx.recast poll) msg) := by
  cases msg with
  | swap msg => exact handleMsgSwap_recast poll ctx msg
  | send msg => exact handleMsgSend_recast poll ctx msg
  | multiSend msg => exact handleMsgMultiSend_recast poll ctx msg
  | submitProgram msg => exact handleMsgSubmitProgram_recast poll ctx msg
  | withdrawProgram msg => exact handleMsgWithdrawProgram_recast poll ctx msg
  | voteProgram msg => exact handleMsgVoteProgram_recast poll ctx msg
  | _ => cases other

theorem deliver_recast (ctx : Context L) {msg : Msg} (other : move msg = none) :
    (ctx.recast poll).deliver (handle (ctx.recast poll) msg) =
      (ctx.deliver (handle ctx msg)).recast poll := by
  rcases (handle_recast poll ctx other).cases_eq with
    ⟨left, _, leftOk, rightOk, rfl⟩ | ⟨failure, leftFails, rightFails⟩
  · rw [leftOk, rightOk]
    rfl
  · rw [leftFails, rightFails]
    rfl

theorem deliver_aside (ctx : Context L) {msg : Msg} (other : move msg = none) :
    Aside ctx (ctx.deliver (handle ctx msg)) := by
  rcases ctx.deliver_cases (handle ctx msg) with ⟨result, handled⟩ | ⟨-, same⟩
  · exact handle_aside other handled
  · rw [same]
    exact Aside.refl ctx

theorem treasuryEndBlocker_aside {before after : Context L} {tags : Tags}
    (done : Treasury.endBlocker before = .ok (tags, after)) : Aside before after := by
  rcases Treasury.endBlocker_bookkept done with ⟨_, _, _, rfl⟩
  exact ⟨rfl, rfl, rfl, rfl, rfl⟩

theorem budgetEndBlocker_aside {before after : Context L} {tags : Tags}
    (done : Budget.endBlocker before = .ok (tags, after)) : Aside before after := by
  have frame := Aside.of_frame (Budget.endBlocker_frame done)
  rcases Budget.weightRead_frame before with ⟨rewardWeights, read⟩
  rw [read] at frame
  exact ⟨frame.height, frame.poll, frame.votePeriod, frame.validator, frame.bonded⟩

theorem budgetEndBlocker_oracle {before after : Context L} {tags : Tags}
    (done : Budget.endBlocker before = .ok (tags, after)) : after.oracle = before.oracle := by
  have frame := Budget.endBlocker_frame done
  rcases Budget.weightRead_frame before with ⟨rewardWeights, read⟩
  rw [read] at frame
  exact frame.oracle

end TerraCore.Chain
