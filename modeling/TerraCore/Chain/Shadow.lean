import TerraCore.Chain.Apart
import TerraCore.Chain.TaxProceeds

/-!
# Calls in two states

Every call of the chain treats two states that are `Apart` alike: it fails in
both or in neither, returns the same, and leaves states that are apart again.
The gap between the issuances stays, except that the tax of a transfer widens it
while the late state has not read the denomination.
-/

namespace TerraCore.Chain

open Lockstep Mint

variable {L : Type} [Sdk L] {denom : Denom} {gap : ℤ} {excused : Prop} {late early : Context L}

/-- The same result, in states that are apart. -/
def Beside {α : Type} (denom : Denom) (gap : ℤ) (excused : Prop) (left right : α × Context L) :
    Prop :=
  right.1 = left.1 ∧ Apart denom gap excused left.2 right.2

theorem Apart.today (apart : Apart denom gap excused late early) : early.today = late.today := by
  rcases apart.frame with ⟨mint, rfl⟩
  rfl

theorem Apart.computeLunaDelta (apart : Apart denom gap excused late early)
    (notLuna : denom ≠ microLunaDenom) (change : ℤ) :
    Beside denom gap excused (Market.computeLunaDelta late change)
      (Market.computeLunaDelta early change) := by
  simp only [Market.computeLunaDelta, apart.today]
  by_cases firstDay : late.today = 0
  · rw [if_pos firstDay, if_pos firstDay]
    exact ⟨rfl, apart⟩
  · rw [if_neg firstDay, if_neg firstDay]
    have yesterday : late.today - 1 ≤ late.today := by omega
    rcases apart.getIssuance notLuna.symm yesterday with ⟨previousEq, previousApart⟩
    rcases previousApart.getIssuance notLuna.symm le_rfl with ⟨currentEq, currentApart⟩
    have sameToday : (Mint.getIssuance late microLunaDenom (late.today - 1)).2.today = late.today := rfl
    rw [sameToday] at currentEq currentApart
    simp only [previousEq, currentEq]
    by_cases someIssuance : (Mint.getIssuance late microLunaDenom (late.today - 1)).1 ≠ 0
    · rw [if_pos someIssuance, if_pos someIssuance]
      exact ⟨rfl, currentApart⟩
    · rw [if_neg someIssuance, if_neg someIssuance]
      exact ⟨rfl, previousApart⟩

theorem Apart.getSwapCoin (apart : Apart denom gap excused late early)
    (notLuna : denom ≠ microLunaDenom) (offerCoin : Coin) (askDenom : Denom) (isInternal : Bool) :
    Related (fun left right => right.1 = left.1 ∧ Beside denom gap excused left.2 right.2)
      (Market.getSwapCoin late offerCoin askDenom isInternal)
      (Market.getSwapCoin early offerCoin askDenom isInternal) := by
  have samePrice : ∀ other, Market.effectivePrice early other = Market.effectivePrice late other := by
    rcases apart.frame with ⟨mint, rfl⟩
    exact fun _ => rfl
  have sameMarket : early.market = late.market := by
    rcases apart.frame with ⟨mint, rfl⟩
    rfl
  simp only [Market.getSwapCoin, samePrice, sameMarket]
  refine (Related.same _).bind ?_
  rintro offerRate _ rfl
  refine (Related.same _).bind ?_
  rintro askRate _ rfl
  refine (Related.same _).bind ?_
  rintro exactAmount _ rfl
  rcases apart.computeLunaDelta notLuna (Market.lunaChange offerCoin exactAmount.truncateInt) with
    ⟨sameDelta, deltaApart⟩
  simp only [sameDelta]
  split
  · exact .error _
  · split
    · refine (Related.same _).bind ?_
      rintro retCoin _ rfl
      exact .ok ⟨rfl, rfl, apart⟩
    · split
      · exact .error _
      · refine (Related.same _).bind ?_
        rintro spread _ rfl
        refine (Related.same _).bind ?_
        rintro retCoin _ rfl
        exact .ok ⟨rfl, rfl, deltaApart⟩

/-- An excuse that has come true is not needed any more. -/
theorem Apart.discharge {newlyExcused : Prop} (apart : Apart denom gap excused late early)
    (excuse : excused → HasSnapshot late denom ∨ newlyExcused) :
    Apart denom gap newlyExcused late early :=
  ⟨apart.frame, apart.agree, apart.lateCovered, apart.earlyCovered, apart.snapshot, apart.gap,
    fun waiting => (apart.fees waiting).elim Or.inl excuse⟩

/-- Only a fee in the denomination itself may come before its first snapshot. -/
theorem Apart.addSwapFee (apart : Apart denom gap False late early) {swapFee : Coin} {fees : Coins}
    (wrapped : Coins.ofCoin swapFee = .ok fees) :
    Apart denom gap (swapFee.denom = denom)
      { late with oracle := late.oracle.addSwapFeePool fees }
      { early with oracle := early.oracle.addSwapFeePool fees } := by
  have collected : (late.oracle.addSwapFeePool fees).getSwapFeePool.amountOf denom ≠ 0 →
      HasSnapshot late denom ∨ swapFee.denom = denom := by
    intro waiting
    by_cases here : swapFee.denom = denom
    · exact Or.inr here
    · have pooled : (late.oracle.addSwapFeePool fees).getSwapFeePool.amountOf denom =
          late.oracle.getSwapFeePool.amountOf denom + fees.amountOf denom :=
        Coins.amountOf_add _ _ _
      rw [pooled, Coins.amountOf_ofCoin wrapped, if_neg here, add_zero] at waiting
      exact (apart.fees waiting).imp_right False.elim
  have framed := @Apart.framed L _ denom gap False late early
    { late with oracle := late.oracle.addSwapFeePool fees } (swapFee.denom = denom) apart rfl rfl rfl
    collected
  rcases apart.frame with ⟨mint, rfl⟩
  exact framed

theorem Apart.chargeSpread (apart : Apart denom gap False late early) (swapCoin : Coin)
    (spread : Dec) :
    Related (fun left right => right.1 = left.1 ∧ left.1.denom = swapCoin.denom ∧
        Beside denom gap (swapCoin.denom = denom) left.2 right.2)
      (Market.chargeSpread late swapCoin spread) (Market.chargeSpread early swapCoin spread) := by
  simp only [Market.chargeSpread]
  split
  · cases made : newCoin swapCoin.denom (spread.mulInt swapCoin.amount).truncateInt with
    | error failure => exact .error failure
    | ok swapFee =>
        have feeDenom : swapFee.denom = swapCoin.denom := by
          rw [(newCoin_eq_ok.mp made).2.2]
        cases wrapped : Coins.ofCoin swapFee with
        | error failure =>
            simp only [bind, Except.bind, wrapped]
            exact .error failure
        | ok fees =>
            have charged := apart.addSwapFee wrapped
            rw [feeDenom] at charged
            simp only [bind, Except.bind, wrapped]
            cases subtracted : swapCoin.sub swapFee with
            | error failure => exact .error failure
            | ok kept =>
                have keptDenom : kept.denom = swapCoin.denom := by
                  simp only [Coin.sub] at subtracted
                  split at subtracted
                  · cases subtracted
                  · cases subtracted
                    rfl
                exact .ok ⟨rfl, keptDenom, rfl, charged⟩
  · exact .ok ⟨rfl, rfl, rfl, apart.discharge False.elim⟩

theorem Apart.handleMsgSwap (apart : Apart denom gap False late early)
    (notLuna : denom ≠ microLunaDenom) (msg : Market.MsgSwap) :
    Related (Beside denom gap False) (Market.handleMsgSwap late msg)
      (Market.handleMsgSwap early msg) := by
  simp only [Market.handleMsgSwap]
  split
  · exact .error _
  · refine (apart.getSwapCoin notLuna msg.offerCoin msg.askDenom false).bind ?_
    rintro ⟨_, _, quotedLate⟩ ⟨swapCoin, spread, quotedEarly⟩ ⟨rfl, rfl, quotedApart⟩
    refine (quotedApart.chargeSpread swapCoin spread).bind ?_
    rintro ⟨_, _, chargedLate⟩ ⟨kept, swapFee, chargedEarly⟩ ⟨rfl, keptDenom, rfl, chargedApart⟩
    refine (chargedApart.burn notLuna msg.trader msg.offerCoin).bind ?_
    intro burnedLate burnedEarly burnedApart
    refine (burnedApart.mint notLuna msg.trader kept).bind ?_
    rintro mintedLate mintedEarly ⟨mintedApart, minted⟩
    refine .ok ⟨rfl, mintedApart.discharge ?_⟩
    intro isDenom
    exact Or.inl (minted (keptDenom.trans isDenom))

/-- A change of the programs is made in both states alike. -/
theorem Apart.withBudget (apart : Apart denom gap excused late early) (budget : BudgetStore) :
    Apart denom gap excused { late with budget } { early with budget } := by
  have framed := @Apart.framed L _ denom gap excused late early { late with budget } excused apart
    rfl rfl rfl apart.fees
  rcases apart.frame with ⟨mint, rfl⟩
  exact framed

theorem Apart.budget (apart : Apart denom gap excused late early) :
    early.budget = late.budget := by
  rcases apart.frame with ⟨mint, rfl⟩
  rfl

theorem Apart.height (apart : Apart denom gap excused late early) :
    early.height = late.height := by
  rcases apart.frame with ⟨mint, rfl⟩
  rfl

theorem Apart.staking (apart : Apart denom gap excused late early) :
    early.staking = late.staking := by
  rcases apart.frame with ⟨mint, rfl⟩
  rfl

theorem Apart.handleMsgSubmitProgram (apart : Apart denom gap excused late early)
    (notLuna : denom ≠ microLunaDenom) (msg : Budget.MsgSubmitProgram) :
    Related (Beside denom gap excused) (Budget.handleMsgSubmitProgram late msg)
      (Budget.handleMsgSubmitProgram early msg) := by
  simp only [Budget.handleMsgSubmitProgram, Budget.payDeposit, apart.budget]
  refine (apart.burn notLuna msg.submitter late.budget.params.deposit).bind ?_
  intro burnedLate burnedEarly burnedApart
  have added := burnedApart.withBudget
    (Budget.addCandidate burnedLate.budget msg burnedLate.height)
  simp only [burnedApart.budget, burnedApart.height] at added ⊢
  exact .ok ⟨rfl, added⟩

theorem Apart.withdrawCandidate (apart : Apart denom gap excused late early)
    (notLuna : denom ≠ microLunaDenom) (program : Budget.Program)
    (msg : Budget.MsgWithdrawProgram) :
    Related (Apart denom gap excused) (Budget.withdrawCandidate late program msg)
      (Budget.withdrawCandidate early program msg) := by
  simp only [Budget.withdrawCandidate, apart.budget]
  split
  · generalize late.budget.candQueueRemove _ msg.programID = budget
    have refunded := (apart.withBudget budget).mint notLuna program.submitter budget.params.deposit
    simp only [Budget.refundDeposit]
    -- A failed refund is reported with an error of its own.
    generalize Mint.mint { late with budget } _ _ = lateOutcome at refunded ⊢
    generalize Mint.mint { early with budget } _ _ = earlyOutcome at refunded ⊢
    cases refunded with
    | ok both => exact .ok both.1
    | error failure =>
        cases failure with
        | error error => exact .error _
        | panic panic => exact .error _
  · exact .ok apart

theorem Apart.handleMsgWithdrawProgram (apart : Apart denom gap excused late early)
    (notLuna : denom ≠ microLunaDenom) (msg : Budget.MsgWithdrawProgram) :
    Related (Beside denom gap excused) (Budget.handleMsgWithdrawProgram late msg)
      (Budget.handleMsgWithdrawProgram early msg) := by
  simp only [Budget.handleMsgWithdrawProgram, apart.budget]
  cases late.budget.programs[msg.programID]? with
  | none => exact .error _
  | some program =>
      simp only
      split
      · exact .error _
      · refine (apart.withdrawCandidate notLuna program msg).bind ?_
        intro withdrawnLate withdrawnEarly withdrawnApart
        have deleted := withdrawnApart.withBudget
          ((withdrawnLate.budget.deleteVotesForProgram msg.programID).deleteProgram msg.programID)
        simp only [withdrawnApart.budget] at deleted ⊢
        exact .ok ⟨rfl, deleted⟩

omit [Sdk L] in
/-- The call neither reads nor writes the snapshots. -/
def Agnostic {α : Type} (call : Context L → Outcome (α × Context L)) : Prop :=
  ∀ ctx mint, call { ctx with mint } =
    (call ctx).map fun done => (done.1, { done.2 with mint })

theorem Agnostic.early_eq {α : Type} {call : Context L → Outcome (α × Context L)}
    (agnostic : Agnostic call) (apart : Apart denom gap excused late early) :
    call early = (call late).map fun done => (done.1, { done.2 with mint := early.mint }) := by
  rcases apart.frame with ⟨mint, rfl⟩
  exact agnostic late mint

/-- A call that does not read the issuance, and keeps the coins of the accounts and the swap fees. -/
theorem Apart.agnostic {α : Type} (apart : Apart denom gap excused late early)
    (call : Context L → Outcome (α × Context L)) (agnostic : Agnostic call)
    (keeps : ∀ result after, call late = .ok (result, after) → after.height = late.height ∧
      after.mint = late.mint ∧ supply after.ledger denom = supply late.ledger denom ∧
      after.oracle.swapFeePool = late.oracle.swapFeePool) :
    Related (Beside denom gap excused) (call late) (call early) := by
  rw [agnostic.early_eq apart]
  cases outcome : call late with
  | error failure => exact .error failure
  | ok done =>
      rcases keeps done.1 done.2 outcome with ⟨sameHeight, sameMint, sameSupply, sameFees⟩
      have samePool : done.2.oracle.getSwapFeePool = late.oracle.getSwapFeePool := by
        rw [OracleStore.getSwapFeePool, OracleStore.getSwapFeePool, sameFees]
      refine .ok ⟨rfl, apart.framed sameHeight sameMint sameSupply ?_⟩
      intro waiting
      rw [samePool] at waiting
      exact apart.fees waiting

theorem Apart.handleMsgVoteProgram (apart : Apart denom gap excused late early)
    (msg : Budget.MsgVoteProgram) :
    Related (Beside denom gap excused) (Budget.handleMsgVoteProgram late msg)
      (Budget.handleMsgVoteProgram early msg) := by
  refine apart.agnostic (Budget.handleMsgVoteProgram · msg) ?_ ?_
  · intro ctx mint
    simp only [Budget.handleMsgVoteProgram]
    cases ctx.budget.programs[msg.programID]? with
    | none => rfl
    | some program =>
        cases ctx.staking.validator msg.voter with
        | none => rfl
        | some tokens => rfl
  · intro result after handled
    rw [(Budget.handleMsgVoteProgram_eq_ok handled).2]
    exact ⟨rfl, rfl, rfl, rfl⟩

theorem Apart.handleMsgPricePrevote (apart : Apart denom gap excused late early)
    (msg : Oracle.MsgPricePrevote) :
    Related (Beside denom gap excused) (Oracle.handleMsgPricePrevote late msg)
      (Oracle.handleMsgPricePrevote early msg) := by
  refine apart.agnostic (Oracle.handleMsgPricePrevote · msg) ?_ ?_
  · intro ctx mint
    have sameCheck : Oracle.checkFeeder { ctx with mint } msg.feeder msg.validator =
        Oracle.checkFeeder ctx msg.feeder msg.validator := rfl
    simp only [Oracle.handleMsgPricePrevote, sameCheck]
    cases Oracle.checkFeeder ctx msg.feeder msg.validator <;> rfl
  · intro result after handled
    rw [(Oracle.handleMsgPricePrevote_eq_ok handled).2.2]
    exact ⟨rfl, rfl, rfl, rfl⟩

theorem Apart.handleMsgPriceVote (apart : Apart denom gap excused late early)
    (msg : Oracle.MsgPriceVote) :
    Related (Beside denom gap excused) (Oracle.handleMsgPriceVote late msg)
      (Oracle.handleMsgPriceVote early msg) := by
  refine apart.agnostic (Oracle.handleMsgPriceVote · msg) ?_ ?_
  · intro ctx mint
    have sameCheck : Oracle.checkFeeder { ctx with mint } msg.feeder msg.validator =
        Oracle.checkFeeder ctx msg.feeder msg.validator := rfl
    simp only [Oracle.handleMsgPriceVote, sameCheck]
    cases Oracle.checkFeeder ctx msg.feeder msg.validator with
    | error failure => rfl
    | ok checked =>
        simp only [bind, Except.bind]
        cases ctx.oracle.prevotes[(msg.denom, msg.validator)]? with
        | none => rfl
        | some prevote =>
            have samePeriod : Oracle.InRevealPeriod { ctx with mint } prevote ↔
                Oracle.InRevealPeriod ctx prevote := Iff.rfl
            by_cases noPeriod : ctx.oracle.params.votePeriod = 0
            · simp only [noPeriod, if_true]
              rfl
            · simp only [noPeriod, if_false, samePeriod]
              by_cases inPeriod : Oracle.InRevealPeriod ctx prevote
              · simp only [inPeriod, not_true_eq_false, if_false]
                split <;> rfl
              · simp only [inPeriod, not_false_eq_true, if_true]
                rfl
  · intro result after handled
    rcases Oracle.handleMsgPriceVote_eq_ok handled with ⟨prevote, -, -, -, -, afterEq⟩
    rw [afterEq]
    exact ⟨rfl, rfl, rfl, rfl⟩

theorem Apart.handleMsgDelegateFeederPermission (apart : Apart denom gap excused late early)
    (msg : Oracle.MsgDelegateFeederPermission) :
    Related (Beside denom gap excused) (Oracle.handleMsgDelegateFeederPermission late msg)
      (Oracle.handleMsgDelegateFeederPermission early msg) := by
  refine apart.agnostic (Oracle.handleMsgDelegateFeederPermission · msg) ?_ ?_
  · intro ctx mint
    simp only [Oracle.handleMsgDelegateFeederPermission]
    split <;> rfl
  · intro result after handled
    rw [Oracle.handleMsgDelegateFeederPermission_eq_ok handled]
    exact ⟨rfl, rfl, rfl, rfl⟩

/-- The same result, in a state with other snapshots. -/
def Reframed {α : Type} (mint : MintStore) (left right : α × Context L) : Prop :=
  right = (left.1, { left.2 with mint })

theorem getTaxCap_agnostic (other : Denom) :
    Agnostic fun ctx : Context L => Treasury.getTaxCap ctx other := by
  intro ctx mint
  have quoted := @Market.getSwapCoin_internal_congr L _ ctx { ctx with mint } rfl
    ctx.treasury.params.taxPolicy.cap other
  simp only [Treasury.getTaxCap, Treasury.requestedCap, quoted]
  cases ctx.treasury.taxCaps[other]? with
  | some taxCap => rfl
  | none =>
      cases outcome : Market.getSwapCoin ctx ctx.treasury.params.taxPolicy.cap other true with
      | ok quote =>
          rcases quote with ⟨reqCap, spread, after⟩
          rw [Market.getSwapCoin_internal outcome]
          rfl
      | error failure =>
          cases failure with
          | panic panic => rfl
          | error error =>
              simp only [Except.map]
              cases newCoin other ctx.treasury.params.taxPolicy.cap.amount <;> rfl

theorem addTaxDue_reframed (mint : MintStore) (taxRate : Dec) (coin : Coin)
    {left right : Coins × Context L} (reframed : Reframed mint left right) :
    Related (Reframed mint) (Pay.addTaxDue taxRate left coin) (Pay.addTaxDue taxRate right coin) := by
  rcases left with ⟨taxes, ctx⟩
  cases reframed
  simp only [Pay.addTaxDue, getTaxCap_agnostic coin.denom ctx mint]
  cases Treasury.getTaxCap ctx coin.denom with
  | error failure => exact .error failure
  | ok capped =>
      simp only [Except.map, bind, Except.bind]
      split
      · exact .ok rfl
      · refine (Related.same _).bind ?_
        rintro tax _ rfl
        refine (Related.same _).bind ?_
        rintro coins _ rfl
        exact .ok rfl

theorem payTax_reframed (mint : MintStore) (ctx : Context L) (taxPayer : Address)
    (principal : List Coin) :
    Related (Reframed mint) (Pay.payTax ctx taxPayer principal)
      (Pay.payTax { ctx with mint } taxPayer principal) := by
  have sameRate : Treasury.getTaxRate { ctx with mint } ctx.getEpoch =
      ((Treasury.getTaxRate ctx ctx.getEpoch).1,
        { (Treasury.getTaxRate ctx ctx.getEpoch).2 with mint }) := rfl
  have sameEpoch : { ctx with mint }.getEpoch = ctx.getEpoch := rfl
  simp only [Pay.payTax, sameEpoch, sameRate]
  split
  · exact .ok rfl
  · refine (Related.foldlM (fun coin _ left right reframed =>
      addTaxDue_reframed mint _ coin reframed) rfl).bind ?_
    rintro ⟨taxes, taxed⟩ _ rfl
    refine (Related.same _).bind ?_
    rintro ledger _ rfl
    exact .ok rfl

theorem handleMsgSend_agnostic (msg : Pay.MsgSend) :
    Agnostic fun ctx : Context L => Pay.handleMsgSend ctx msg := by
  intro ctx mint
  apply Related.eq_map
  simp only [Pay.handleMsgSend]
  split
  · refine (payTax_reframed mint ctx msg.fromAddress msg.amount).bind ?_
    rintro ⟨taxes, taxed⟩ _ rfl
    refine (Related.same _).bind ?_
    rintro ledger _ rfl
    exact .ok rfl
  · exact .error _

theorem payInputTax_reframed (mint : MintStore) (input : Address × List Coin)
    {left right : Coins × Context L} (reframed : Reframed mint left right) :
    Related (Reframed mint) (Pay.payInputTax left input) (Pay.payInputTax right input) := by
  rcases left with ⟨taxes, ctx⟩
  cases reframed
  refine (payTax_reframed mint ctx input.1 input.2).bind ?_
  rintro ⟨added, taxed⟩ _ rfl
  exact .ok rfl

theorem handleMsgMultiSend_agnostic (msg : Pay.MsgMultiSend) :
    Agnostic fun ctx : Context L => Pay.handleMsgMultiSend ctx msg := by
  intro ctx mint
  apply Related.eq_map
  simp only [Pay.handleMsgMultiSend]
  split
  · refine (Related.foldlM (fun input _ left right reframed =>
      payInputTax_reframed mint input reframed) rfl).bind ?_
    rintro ⟨taxes, taxed⟩ _ rfl
    refine (Related.same _).bind ?_
    rintro ledger _ rfl
    exact .ok rfl
  · exact .error _

/-- A state whose accounts have lost coins is still covered. -/
theorem Moved.covered {delta : ℤ} {before moved : Context L} (moves : Moved denom delta before moved)
    (covered : Covered denom before) (nonpos : delta ≤ 0) : Covered denom moved := by
  have accounts := moves.accounts
  have covers := covered.covers
  refine ⟨dated_congr moves.height moves.mint covered.dated, ?_, ?_⟩
  · rcases moves.issuance covered with ⟨snapshot, -⟩ | ⟨unread, -⟩
    · exact Or.inl snapshot
    · exact Or.inr unread
  · rcases moves.issuance covered with ⟨-, same⟩ | ⟨unread, -⟩
    · omega
    · rw [unread.issuanceAt_eq (today_nonneg moved)]

/-- A denomination with its first snapshot keeps its issuance when coins move. -/
theorem Moved.issuance_of_snapshot {delta : ℤ} {before moved : Context L}
    (moves : Moved denom delta before moved) (snapshot : HasSnapshot before denom) :
    issuanceAt moved denom moved.today = issuanceAt before denom before.today := by
  rw [today_congr moves.height, issuanceAt_of_mint_eq snapshot moves.mint (today_nonneg before)]

/-- The tax leaves the accounts. A state without snapshots counts the accounts and
misses it, so that the gap grows. -/
theorem Apart.taxed {nextLate : Context L} {tax : ℤ} (apart : Apart denom gap excused late early)
    (nonneg : 0 ≤ tax) (moved : Moved denom (-tax) late nextLate)
    (sameOracle : nextLate.oracle = late.oracle) :
    Apart denom (gap + if late.mint.issuance[(denom, (0 : ℤ))]? = none then tax else 0) excused
      nextLate { nextLate with mint := early.mint } := by
  have earlyMoved : Moved denom (-tax) early { nextLate with mint := early.mint } := by
    rcases apart.frame with ⟨mint, rfl⟩
    exact ⟨moved.height, rfl, moved.accounts⟩
  have keepsSnapshot : HasSnapshot late denom → HasSnapshot nextLate denom := by
    intro snapshot
    rw [HasSnapshot, moved.mint]
    exact snapshot
  refine ⟨⟨early.mint, rfl⟩, ?_, moved.covered apart.lateCovered (by omega),
    earlyMoved.covered apart.earlyCovered (by omega), apart.snapshot, ?_, ?_⟩
  · intro key different
    rw [moved.mint]
    exact apart.agree key different
  · rw [earlyMoved.issuance_of_snapshot apart.snapshot, apart.gap]
    rcases apart.lateCovered.first with ⟨genesis, present⟩ | unread
    · rw [moved.issuance_of_snapshot ⟨genesis, present⟩, if_neg (by simp [present]), add_zero]
    · have stillUnread : Unread nextLate denom := by
        rw [Unread, moved.mint]
        exact unread
      rw [if_pos (unread 0 le_rfl), stillUnread.issuanceAt_eq (today_nonneg nextLate),
        unread.issuanceAt_eq (today_nonneg late), moved.accounts]
      ring
  · intro waiting
    rw [sameOracle] at waiting
    exact (apart.fees waiting).imp_left keepsSnapshot

/-- What is paid as a tax are coins. -/
theorem taxes_nonneg {before after : Context L} {msg : Msg} {result : Result}
    (transfer : Block.IsTransfer msg) (handled : handle before msg = .ok (result, after))
    (each : Denom) : 0 ≤ creditedTotal (Pay.taxesOnInputs before (Block.transferInputs msg)) each := by
  rcases handle_transfer transfer handled with ⟨_, _, _, paid, -⟩
  exact creditedTotal_nonneg fun entry listed => Pay.payInputTaxes_nonneg paid entry listed each

theorem handle_supply {before after : Context L} {msg : Msg} {result : Result}
    (transfer : Block.IsTransfer msg) (handled : handle before msg = .ok (result, after))
    (each : Denom) : (supply after.ledger each : ℤ) = supply before.ledger each +
      -creditedTotal (Pay.taxesOnInputs before (Block.transferInputs msg)) each := by
  have circulates := handle_circulating transfer handled each
  have collects : Ledger.collectedFees after.ledger each = Ledger.collectedFees before.ledger each +
      creditedTotal (Pay.taxesOnInputs before (Block.transferInputs msg)) each := by
    cases msg with
    | send msg => exact (Pay.handleMsgSend_transfers handled).collectedFees each
    | multiSend msg => exact (Pay.handleMsgMultiSend_transfers handled).collectedFees each
    | _ => cases transfer
  simp only [circulating] at circulates
  omega

theorem handle_agnostic {msg : Msg} (transfer : Block.IsTransfer msg) :
    Agnostic fun ctx : Context L => handle ctx msg := by
  cases msg with
  | send msg => exact handleMsgSend_agnostic msg
  | multiSend msg => exact handleMsgMultiSend_agnostic msg
  | _ => cases transfer

theorem Apart.transfer (apart : Apart denom gap excused late early) {msg : Msg}
    (transfer : Block.IsTransfer msg) :
    Related (Beside denom (gap + if late.mint.issuance[(denom, (0 : ℤ))]? = none then
        creditedTotal (Pay.taxesOnInputs late (Block.transferInputs msg)) denom else 0) excused)
      (handle late msg) (handle early msg) := by
  rw [(handle_agnostic transfer).early_eq apart]
  cases handled : handle late msg with
  | error failure => exact .error failure
  | ok done =>
      rcases done with ⟨result, after⟩
      have nonneg := taxes_nonneg transfer handled denom
      have supplyAfter := handle_supply transfer handled denom
      rcases handle_transfer_frame transfer handled with ⟨ledger, _, _, _, rfl⟩
      exact .ok ⟨rfl, apart.taxed nonneg ⟨rfl, rfl, supplyAfter⟩ rfl⟩

theorem Apart.handle (apart : Apart denom gap False late early) (notLuna : denom ≠ microLunaDenom)
    {msg : Msg} (other : ¬Block.IsTransfer msg) :
    Related (Beside denom gap False) (handle late msg) (handle early msg) := by
  cases msg with
  | swap msg => exact apart.handleMsgSwap notLuna msg
  | send msg => exact absurd trivial other
  | multiSend msg => exact absurd trivial other
  | submitProgram msg => exact apart.handleMsgSubmitProgram notLuna msg
  | withdrawProgram msg => exact apart.handleMsgWithdrawProgram notLuna msg
  | voteProgram msg => exact apart.handleMsgVoteProgram msg
  | pricePrevote msg => exact apart.handleMsgPricePrevote msg
  | priceVote msg => exact apart.handleMsgPriceVote msg
  | delegateFeederPermission msg => exact apart.handleMsgDelegateFeederPermission msg

/-- The tax of an event that comes before the first snapshot of its denomination. -/
def unreadTax (denom : Denom) (ctx : Context L) (event : Block.Event L) : ℤ :=
  if ctx.mint.issuance[(denom, (0 : ℤ))]? = none then Block.taxCollected ctx event denom else 0

/-- A message is accepted in both states, or leaves no trace in either. -/
theorem Apart.deliver_cases {widened : ℤ} (apart : Apart denom gap excused late early)
    {lateOutcome earlyOutcome : Outcome (Result × Context L)}
    (both : Related (Beside denom widened excused) lateOutcome earlyOutcome) :
    ((∃ done, lateOutcome = .ok done) ∧
        Apart denom widened excused (late.deliver lateOutcome) (early.deliver earlyOutcome)) ∨
      ((∃ failure, lateOutcome = .error failure) ∧
        Apart denom gap excused (late.deliver lateOutcome) (early.deliver earlyOutcome)) := by
  cases both with
  | ok related => exact Or.inl ⟨⟨_, rfl⟩, related.2⟩
  | error failure => exact Or.inr ⟨⟨_, rfl⟩, apart⟩

/-- A message widens the gap by the tax that it pays before the first snapshot. -/
theorem Apart.deliver (apart : Apart denom gap False late early) (notLuna : denom ≠ microLunaDenom)
    (msg : Msg) :
    Apart denom (gap + unreadTax denom late (.deliver msg)) False
      (late.deliver (Chain.handle late msg)) (early.deliver (Chain.handle early msg)) := by
  by_cases transfer : Block.IsTransfer msg
  · simp only [unreadTax, Block.taxCollected]
    rcases apart.deliver_cases (apart.transfer transfer) with
      ⟨⟨done, handled⟩, widened⟩ | ⟨⟨failure, failed⟩, same⟩
    · simp only [handled] at widened ⊢
      exact widened
    · simp only [failed, ite_self, add_zero] at same ⊢
      exact same
  · have nothing : unreadTax denom late (.deliver msg) = 0 := by
      simp only [unreadTax, Block.taxCollected, Block.transferInputs_of_not_transfer transfer]
      cases Chain.handle late msg <;> simp [Pay.taxesOnInputs]
    rw [nothing, add_zero]
    rcases apart.deliver_cases (apart.handle notLuna transfer) with ⟨-, next⟩ | ⟨-, same⟩
    · exact next
    · exact same

end TerraCore.Chain
