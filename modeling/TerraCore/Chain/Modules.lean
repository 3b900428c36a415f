import TerraCore.Chain.Participants
import TerraCore.Chain.Recast
import TerraCore.Chain.TaxProceeds
import TerraCore.Library.Projection
import TerraCore.Oracle.Run

/-!
# The modules of the chain

The oracle, the budget and the treasury were studied on their own, in runs in
which everything else may change at will what it can reach. This file shows that
nothing reaches further: a run of the whole chain is a run of each module.
-/

namespace TerraCore

namespace Oracle

variable {L : Type}

/-- Of the oracle, only the swap fee pool and parameters other than the vote period were written. -/
structure Untouched (before after : Context L) : Prop where
  height : after.height = before.height
  oracle : after.oracle =
    { before.oracle with
      params := after.oracle.params
      swapFeePool := after.oracle.swapFeePool }
  votePeriod : after.oracle.params.votePeriod = before.oracle.params.votePeriod

namespace Untouched

variable {before middle after : Context L}

theorem of_same (height : after.height = before.height) (oracle : after.oracle = before.oracle) :
    Untouched before after := by
  refine ⟨height, ?_, ?_⟩ <;> rw [oracle]

theorem trans (first : Untouched before middle) (second : Untouched middle after) :
    Untouched before after := by
  refine ⟨second.height.trans first.height, ?_, second.votePeriod.trans first.votePeriod⟩
  rw [second.oracle, first.oracle]

/-- To the oracle, this happens elsewhere. -/
theorem elsewhere_eq (untouched : Untouched before after) :
    elsewhere (fun _ => after) before = after := by
  have oracle := untouched.oracle
  simp only [elsewhere, ← untouched.height, ← untouched.votePeriod]
  rw [← oracle]

end Untouched

end Oracle

namespace Budget

variable {L : Type}

/-- To the budget, what keeps its store happens elsewhere. -/
theorem elsewhere_eq {before after : Context L} (height : after.height = before.height)
    (budget : after.budget = before.budget) : elsewhere (fun _ => after) before = after := by
  simp only [elsewhere, ← height, ← budget]

end Budget

namespace Treasury

variable {L : Type}

/-- What a state is to the treasury. -/
def surroundings (ctx : Context L) : Surroundings L where
  ledger := ctx.ledger
  staking := ctx.staking
  mint := ctx.mint
  oracle := ctx.oracle
  market := ctx.market
  budget := ctx.budget
  taxCaps := ctx.treasury.taxCaps
  taxProceeds := ctx.treasury.taxProceeds

/-- To the treasury, this happens elsewhere. -/
theorem SameRates.surround_eq {before after : Context L} (same : SameRates before after) :
    (surroundings after).surround before = after := by
  rcases same with ⟨height, params, taxRates, rewardWeights⟩
  simp only [Surroundings.surround, surroundings, ← height, ← params, ← taxRates, ← rewardWeights]

end Treasury

namespace Chain

variable {L : Type} [Sdk L]

/-- The other messages do not reach what the oracle keeps for itself. -/
theorem handle_untouched {before after : Context L} {msg : Msg} {result : Result}
    (other : ¬ToOracle msg) (handled : handle before msg = .ok (result, after)) :
    Oracle.Untouched before after := by
  have spares := handle_spares handled
  rcases spares.oracle other with ⟨swapFeePool, oracle⟩
  refine ⟨spares.height, ?_, ?_⟩ <;> rw [oracle]

theorem changeIssuances_budget {fees : List Coin} {before after : Context L}
    (done : fees.foldlM (fun ctx feeCoin =>
      mustSucceed (Mint.changeIssuance ctx feeCoin.denom feeCoin.amount)) before = .ok after) :
    after.budget = before.budget := by
  induction fees generalizing before with
  | nil =>
      cases done
      rfl
  | cons feeCoin fees ih =>
      rw [List.foldlM_cons] at done
      rcases Outcome.bind_eq_ok.mp done with ⟨middle, first, rest⟩
      have changed : middle.budget = before.budget := by
        rw [Mint.changeIssuance_frame (mustSucceed_eq_ok.mp first)]
      exact (ih rest).trans changed

theorem oraclePayClaims_budget {accmFeePool : Coins} {weightSum : ℕ}
    {claims : List (Address × ℕ)} {before after : Context L × Coins}
    (done : claims.foldlM (Oracle.payClaim accmFeePool weightSum) before = .ok after) :
    after.1.budget = before.1.budget := by
  induction claims generalizing before with
  | nil =>
      cases done
      rfl
  | cons claim claims ih =>
      rw [List.foldlM_cons] at done
      rcases Outcome.bind_eq_ok.mp done with ⟨middle, first, rest⟩
      rcases Outcome.bind_eq_ok.mp first with ⟨rewards, -, first⟩
      cases first
      have later := ih rest
      exact later

theorem doleOutRewards_budget {accmFeePool : Coins} {weightSum : ℕ} {before after : Context L}
    (done : Oracle.doleOutRewards before accmFeePool weightSum = .ok after) :
    after.budget = before.budget := by
  rcases Outcome.bind_eq_ok.mp done with ⟨⟨paid, distributedFee⟩, payment, done⟩
  rcases Outcome.bind_eq_ok.mp done with ⟨leftFee, -, done⟩
  rcases Outcome.bind_eq_ok.mp done with ⟨counted, counting, done⟩
  cases done
  have paidBudget : paid.budget = before.budget := oraclePayClaims_budget payment
  have countedBudget : counted.budget = paid.budget := by
    have counts := changeIssuances_budget counting
    rw [counts]
    split <;> rfl
  exact countedBudget.trans paidBudget

theorem rewardPrevBallotWinners_budget {before after : Context L}
    (done : Oracle.rewardPrevBallotWinners before = .ok after) :
    after.budget = before.budget := by
  simp only [Oracle.rewardPrevBallotWinners] at done
  split at done
  · split at done
    · rcases Outcome.bind_eq_ok.mp done with ⟨paid, payment, done⟩
      cases done
      have kept := doleOutRewards_budget payment
      exact kept
    · cases done
      rfl
  · cases done
    rfl

/-- The oracle keeps the height and the stores of the other modules. -/
theorem oracleEndBlocker_frame {order : Oracle.MapOrder} {before after : Context L} {tags : Tags}
    (done : Oracle.endBlocker order before = .ok (tags, after)) :
    after.height = before.height ∧ after.budget = before.budget ∧
      after.treasury = before.treasury := by
  have budget : after.budget = before.budget := by
    rcases Outcome.bind_eq_ok.mp done with ⟨last, -, done⟩
    split at done
    · rcases Outcome.bind_eq_ok.mp done with ⟨paid, payment, done⟩
      have tallied : after = (Oracle.tallyPeriod order paid).2 := by
        cases done
        rfl
      have kept := rewardPrevBallotWinners_budget payment
      rw [tallied, Oracle.tallyPeriod_snd]
      exact kept
    · cases done
      rfl
  rcases Oracle.endBlocker_eq_ok done with ⟨-, rfl⟩ | ⟨-, paid, rfl, treasury, changes⟩
  · exact ⟨rfl, rfl, rfl⟩
  · exact ⟨changes.height, budget, treasury⟩

omit [Sdk L] in
theorem getRewardWeight_sameRates {before after : Context L}
    (same : Treasury.SameRates before after) (epoch : ℤ) :
    Treasury.SameRates (Treasury.getRewardWeight before epoch).2
      (Treasury.getRewardWeight after epoch).2 := by
  simp only [Treasury.getRewardWeight, same.rewardWeights]
  split
  · exact same
  · exact ⟨same.height, same.params, same.taxRates, rfl⟩

/-- The budget reads the reward weight at the end of an epoch, and nothing else of the rates. -/
theorem budgetEndBlocker_sameRates {before after : Context L} {tags : Tags}
    (done : Budget.endBlocker before = .ok (tags, after)) :
    Treasury.SameRates (Budget.weightRead before) after := by
  have frame := Budget.endBlocker_frame done
  exact .of_same frame.height frame.treasury

namespace Block

open Transition Projection

/-- The state after an event; a halt leaves it as it is. -/
def stateAfter (ctx : Context L) (event : Event L) : Context L := (step ctx event).getD ctx

/-- What an event is to the oracle. -/
def oracleActions (ctx : Context L) : Event L → List (Oracle.Action L)
  | .deliver (.pricePrevote msg) => [.pricePrevote msg]
  | .deliver (.priceVote msg) => [.priceVote msg]
  | .deliver (.delegateFeederPermission msg) => [.delegateFeederPermission msg]
  | .deliver msg => [.elsewhere fun _ => stateAfter ctx (.deliver msg)]
  | .elsewhere environment => [.elsewhere fun _ => environment.surround ctx]
  | .endBlock order accountKeeper =>
      [.endBlock order, .elsewhere fun _ => stateAfter ctx (.endBlock order accountKeeper)]

/-- The state in which the end blocker of the budget starts. -/
def tallied (order : Oracle.MapOrder) (ctx : Context L) : Context L :=
  (ended (Oracle.endBlocker order ctx)).getD ctx

/-- What an event is to the budget. -/
def budgetActions (ctx : Context L) : Event L → List (Budget.Action L)
  | .deliver (.submitProgram msg) => [.submitProgram msg]
  | .deliver (.withdrawProgram msg) => [.withdrawProgram msg]
  | .deliver (.voteProgram msg) => [.voteProgram msg]
  | .deliver msg => [.elsewhere fun _ => stateAfter ctx (.deliver msg)]
  | .elsewhere environment =>
      [.setParams environment.budgetParams, .elsewhere fun _ => environment.surround ctx]
  | .endBlock order accountKeeper =>
      [.elsewhere fun _ => tallied order ctx, .endBlock,
        .elsewhere fun _ => stateAfter ctx (.endBlock order accountKeeper)]

/-- What an event is to the treasury: taxes are charged at the rate of the
epoch, and the budget splits the seigniorage by its weight. -/
def treasuryEvents (ctx : Context L) : Event L → List (Treasury.Event L)
  | .deliver msg =>
      match handle ctx msg with
      | .ok (_, after) =>
          (if (transferInputs msg).isEmpty then []
            else [.readTaxRate (Treasury.epoch ctx)]) ++ [.elsewhere (Treasury.surroundings after)]
      | .error _ => []
  | .elsewhere environment => [.elsewhere (Treasury.surroundings (environment.surround ctx))]
  | .endBlock order accountKeeper =>
      match closing order ctx with
      | .ok closed =>
          (if ctx.LastBlock blocksPerEpoch then [.readRewardWeight (Treasury.epoch ctx)]
            else []) ++ [.elsewhere (Treasury.surroundings closed), .endBlock,
              .elsewhere (Treasury.surroundings (stateAfter ctx (.endBlock order accountKeeper)))]
      | .error _ => []

/-- Messages have passed their own checks, and the vote periods and the policies
of the treasury stay. -/
def Ordinary (ctx : Context L) : Event L → Prop
  | .deliver (.pricePrevote msg) => msg.validateBasic = .ok ()
  | .deliver (.priceVote msg) => msg.validateBasic = .ok ()
  | .deliver (.delegateFeederPermission msg) => msg.validateBasic = .ok ()
  | .deliver _ => True
  | .elsewhere environment =>
      environment.oracleParams.votePeriod = ctx.oracle.params.votePeriod ∧
        environment.budgetParams.votePeriod = ctx.budget.params.votePeriod ∧
        environment.treasuryParams = ctx.treasury.params
  | .endBlock _ _ => True

theorem closing_stages {before closed : Context L} {order : Oracle.MapOrder}
    (closes : closing order before = .ok closed) :
    ∃ oracleTags paid budgetTags, Oracle.endBlocker order before = .ok (oracleTags, paid) ∧
      Budget.endBlocker paid = .ok (budgetTags, closed) := by
  rcases Outcome.bind_eq_ok.mp closes with ⟨⟨oracleTags, paid⟩, tally, rest⟩
  rcases Outcome.bind_eq_ok.mp rest with ⟨⟨budgetTags, rewarded⟩, reward, rest⟩
  cases rest
  exact ⟨oracleTags, paid, budgetTags, tally, reward⟩

/-- The end blockers of a block that does not halt the chain. -/
theorem endBlock_stages {before after : Context L} {order : Oracle.MapOrder}
    {accountKeeper : Update.AccountKeeper}
    (taken : step before (.endBlock order accountKeeper) = some after) :
    ∃ oracleTags paid budgetTags closed treasuryTags updated,
      Oracle.endBlocker order before = .ok (oracleTags, paid) ∧
        Budget.endBlocker paid = .ok (budgetTags, closed) ∧
        closing order before = .ok closed ∧
        Treasury.endBlocker closed = .ok (treasuryTags, updated) ∧
        ∃ oracleRewardBand dailyLunaDeltaCap, after =
          { Update.withParams updated oracleRewardBand dailyLunaDeltaCap with
            height := updated.height + 1 } := by
  rcases step_endBlock_stages taken with ⟨closed, treasuryTags, updated, closes, update, planned⟩
  rcases closing_stages closes with ⟨oracleTags, paid, budgetTags, tally, reward⟩
  exact ⟨oracleTags, paid, budgetTags, closed, treasuryTags, updated, tally, reward, closes,
    update, planned⟩

theorem deliver_untouched (ctx : Context L) {msg : Msg} (other : ¬ToOracle msg) :
    Oracle.Untouched ctx (ctx.deliver (handle ctx msg)) := by
  rcases ctx.deliver_cases (handle ctx msg) with ⟨result, handled⟩ | ⟨-, same⟩
  · exact handle_untouched other handled
  · rw [same]
    exact .of_same rfl rfl

theorem deliver_sameBudget (ctx : Context L) {msg : Msg} (other : ¬ToBudget msg) :
    (ctx.deliver (handle ctx msg)).height = ctx.height ∧
      (ctx.deliver (handle ctx msg)).budget = ctx.budget := by
  rcases ctx.deliver_cases (handle ctx msg) with ⟨result, handled⟩ | ⟨-, same⟩
  · have spares := handle_spares handled
    exact ⟨spares.height, spares.budget other⟩
  · rw [same]
    exact ⟨rfl, rfl⟩

/-- To the oracle, this happens elsewhere. -/
theorem oracle_elsewhere {before after : Context L} (untouched : Oracle.Untouched before after) :
    Reaches Oracle.step before [.elsewhere fun _ => after] after := by
  apply Reaches.single
  simp only [Oracle.step, untouched.elsewhere_eq]

/-- To the budget, this happens elsewhere. -/
theorem budget_elsewhere {before after : Context L} (height : after.height = before.height)
    (budget : after.budget = before.budget) :
    Reaches Budget.step before [.elsewhere fun _ => after] after := by
  apply Reaches.single
  simp only [Budget.step, Budget.elsewhere_eq height budget]

/-- To the treasury, this happens elsewhere. -/
theorem treasury_elsewhere {before after : Context L} (same : Treasury.SameRates before after) :
    Reaches Treasury.step before [.elsewhere (Treasury.surroundings after)] after := by
  apply Reaches.single
  simp only [Treasury.step, same.surround_eq]

theorem oracle_follows :
    Follows step Oracle.step (id : Context L → Context L) (fun _ => True) Ordinary
      oracleActions := by
  intro before event after _ ordinary taken
  refine ⟨?_, trivial⟩
  cases event with
  | deliver msg =>
      cases taken
      cases msg with
      | pricePrevote msg =>
          have valid : msg.validateBasic = .ok () := ordinary
          apply Reaches.single
          simp only [Oracle.step, Oracle.deliverPricePrevote, valid]
          rfl
      | priceVote msg =>
          have valid : msg.validateBasic = .ok () := ordinary
          apply Reaches.single
          simp only [Oracle.step, Oracle.deliverPriceVote, valid]
          rfl
      | delegateFeederPermission msg =>
          have valid : msg.validateBasic = .ok () := ordinary
          apply Reaches.single
          simp only [Oracle.step, Oracle.deliverDelegateFeederPermission, valid]
          rfl
      | _ => exact oracle_elsewhere (deliver_untouched before id)
  | elsewhere environment =>
      cases taken
      exact oracle_elsewhere ⟨rfl, rfl, ordinary.1⟩
  | endBlock order accountKeeper =>
      rcases endBlock_stages taken with
        ⟨_, paid, _, closed, _, updated, tally, reward, -, update, band, cap, rfl⟩
      have ends : Oracle.step before (.endBlock order) =
          some { paid with height := paid.height + 1 } := by
        simp only [Oracle.step, tally]
      refine (Reaches.single ends).trans ?_
      rcases Treasury.endBlocker_bookkept update with ⟨mint, taxRates, rewardWeights, rfl⟩
      simp only [stateAfter, taken, Option.getD_some]
      have height := (budgetEndBlocker_aside reward).height
      have rewarded := (budgetEndBlocker_oracle reward).symm
      have planned : Oracle.Untouched { paid with height := paid.height + 1 }
          { Update.withParams closed band cap with height := closed.height + 1 } := by
        refine ⟨congrArg (· + 1) height, ?_, ?_⟩ <;> rw [rewarded] <;> rfl
      exact oracle_elsewhere ⟨planned.height, planned.oracle, planned.votePeriod⟩

theorem budget_follows :
    Follows step Budget.step (id : Context L → Context L) (fun _ => True) Ordinary
      budgetActions := by
  intro before event after _ ordinary taken
  refine ⟨?_, trivial⟩
  cases event with
  | deliver msg =>
      cases taken
      cases msg with
      | submitProgram msg => exact Reaches.single rfl
      | withdrawProgram msg => exact Reaches.single rfl
      | voteProgram msg => exact Reaches.single rfl
      | _ =>
          apply budget_elsewhere
          · exact (deliver_sameBudget before (by simp [ToBudget])).1
          · exact (deliver_sameBudget before (by simp [ToBudget])).2
  | elsewhere environment =>
      cases taken
      have sets : Budget.step before (.setParams environment.budgetParams) =
          some { before with budget := { before.budget with params := environment.budgetParams } } := by
        simp only [Budget.step, Budget.setParams, ← ordinary.2.1]
      refine (Reaches.single sets).trans ?_
      exact budget_elsewhere rfl rfl
  | endBlock order accountKeeper =>
      rcases endBlock_stages taken with
        ⟨_, paid, _, closed, _, updated, tally, reward, -, update, band, cap, rfl⟩
      have talliedEq : tallied order before = paid := by
        simp only [tallied, ended, tally, Option.getD_some]
      rcases oracleEndBlocker_frame tally with ⟨height, budget, -⟩
      have ends : Budget.step paid .endBlock =
          some { closed with height := closed.height + 1 } := by
        simp only [Budget.step, reward]
      rw [budgetActions, talliedEq]
      refine (budget_elsewhere height budget).trans ((Reaches.single ends).trans ?_)
      rcases Treasury.endBlocker_bookkept update with ⟨mint, taxRates, rewardWeights, rfl⟩
      simp only [stateAfter, taken, Option.getD_some]
      exact budget_elsewhere rfl rfl

omit [Sdk L] in
theorem epoch_eq_getEpoch (ctx : Context L) : ((Treasury.epoch ctx : ℕ) : ℤ) = ctx.getEpoch := rfl

/-- The end blockers of the oracle and the budget read the reward weight at most. -/
theorem closing_reaches {before closed : Context L} {order : Oracle.MapOrder}
    (closes : closing order before = .ok closed) :
    Reaches Treasury.step before
      ((if before.LastBlock blocksPerEpoch then [.readRewardWeight (Treasury.epoch before)]
        else []) ++ [.elsewhere (Treasury.surroundings closed)]) closed := by
  rcases closing_stages closes with ⟨_, paid, _, tally, reward⟩
  rcases oracleEndBlocker_frame tally with ⟨height, -, treasury⟩
  have tallies : Treasury.SameRates before paid := .of_same height treasury
  have same := budgetEndBlocker_sameRates reward
  have sameEpoch : paid.getEpoch = before.getEpoch := by
    simp only [Context.getEpoch, height]
  have sameLast : paid.LastBlock blocksPerEpoch ↔ before.LastBlock blocksPerEpoch := by
    simp only [Context.LastBlock, height]
  by_cases last : before.LastBlock blocksPerEpoch
  · have reads : Treasury.step before (.readRewardWeight (Treasury.epoch before)) =
        some (Treasury.getRewardWeight before before.getEpoch).2 := by
      simp [Treasury.step, epoch_eq_getEpoch]
    rw [Budget.weightRead, if_pos (sameLast.mpr last), sameEpoch] at same
    rw [if_pos last]
    have whole := (getRewardWeight_sameRates tallies before.getEpoch).trans same
    exact (Reaches.single reads).trans (treasury_elsewhere whole)
  · rw [Budget.weightRead, if_neg fun still => last (sameLast.mp still)] at same
    rw [if_neg last]
    exact treasury_elsewhere (tallies.trans same)

theorem treasury_follows :
    Follows step Treasury.step (id : Context L → Context L) (fun _ => True) Ordinary
      treasuryEvents := by
  intro before event after _ ordinary taken
  refine ⟨?_, trivial⟩
  cases event with
  | deliver msg =>
      cases taken
      simp only [treasuryEvents]
      cases handled : handle before msg with
      | error failure => exact .refl
      | ok done =>
          rcases handle_sameRates handled with ⟨noInputs, same⟩ | ⟨inputs, same⟩
          · simp only [noInputs, List.isEmpty_nil, if_true, List.nil_append]
            exact treasury_elsewhere same
          · have nonempty : (transferInputs msg).isEmpty = false := by
              simpa using inputs
            have reads : Treasury.step before (.readTaxRate (Treasury.epoch before)) =
                some (Treasury.getTaxRate before before.getEpoch).2 := by
              simp [Treasury.step, epoch_eq_getEpoch]
            simp only [nonempty]
            exact (Reaches.single reads).trans (treasury_elsewhere same)
  | elsewhere environment =>
      cases taken
      apply treasury_elsewhere
      exact ⟨rfl, ordinary.2.2, rfl, rfl⟩
  | endBlock order accountKeeper =>
      rcases endBlock_stages taken with
        ⟨_, _, _, closed, _, updated, -, -, closes, update, band, cap, rfl⟩
      have ends : Treasury.step closed .endBlock =
          some { updated with height := updated.height + 1 } := by
        simp only [Treasury.step, update]
      have planned : Treasury.SameRates { updated with height := updated.height + 1 }
          { Update.withParams updated band cap with height := updated.height + 1 } :=
        ⟨rfl, rfl, rfl, rfl⟩
      have whole := ((closing_reaches closes).snoc ends).trans (treasury_elsewhere planned)
      simp only [treasuryEvents, closes, stateAfter, taken, Option.getD_some]
      simpa only [List.append_assoc, List.cons_append, List.nil_append, id] using whole

/-- A run of the whole chain is a run of the oracle, one of the budget and one of the treasury. -/
theorem chain_runs_modules {start finish : Context L} {events : List (Event L)}
    (reached : Reaches step start events finish) (ordinary : Along step Ordinary start events) :
    Reaches Oracle.step start (record step oracleActions start events) finish ∧
      Reaches Budget.step start (record step budgetActions start events) finish ∧
      Reaches Treasury.step start (record step treasuryEvents start events) finish :=
  ⟨oracle_follows.reaches reached ordinary trivial, budget_follows.reaches reached ordinary trivial,
    treasury_follows.reaches reached ordinary trivial⟩

theorem chain_runs_modules_sample : ∃ finish : Context Book,
    Reaches Oracle.step Budget.sampleStart
        (record step oracleActions Budget.sampleStart sampleEvents) finish ∧
      Reaches Budget.step Budget.sampleStart
        (record step budgetActions Budget.sampleStart sampleEvents) finish ∧
      Reaches Treasury.step Budget.sampleStart
        (record step treasuryEvents Budget.sampleStart sampleEvents) finish := by
  rcases sampleEvents_reach with ⟨finish, reached⟩
  have ordinary : Along step Ordinary Budget.sampleStart sampleEvents := by
    refine ⟨rfl, fun _ _ => ⟨trivial, fun _ _ => ⟨rfl, fun _ _ => ⟨trivial, ?_⟩⟩⟩⟩
    exact fun _ _ => trivial
  exact ⟨finish, chain_runs_modules reached ordinary⟩

end Block

end Chain

end TerraCore
