import TerraCore.Budget.EndBlocker
import TerraCore.Budget.Handler
import TerraCore.Library.Transition
import TerraCore.Market.Handler
import TerraCore.Oracle.Handler
import TerraCore.Oracle.Tally
import TerraCore.Pay.Handler

/-!
# Runs of the chain

The messages of all modules and the end blockers of the oracle and the budget,
in any order. A failed message is rolled back, while a panic in an end blocker
halts the chain.
-/

namespace TerraCore.Chain

variable {L : Type} [Sdk L]

inductive Msg where
  | swap (msg : Market.MsgSwap)
  | send (msg : Pay.MsgSend)
  | multiSend (msg : Pay.MsgMultiSend)
  | submitProgram (msg : Budget.MsgSubmitProgram)
  | withdrawProgram (msg : Budget.MsgWithdrawProgram)
  | voteProgram (msg : Budget.MsgVoteProgram)
  | pricePrevote (msg : Oracle.MsgPricePrevote)
  | priceVote (msg : Oracle.MsgPriceVote)
  | delegateFeederPermission (msg : Oracle.MsgDelegateFeederPermission)

/-- The handler to which a message is routed. -/
def handle (ctx : Context L) : Msg → Outcome (Result × Context L)
  | .swap msg => Market.handleMsgSwap ctx msg
  | .send msg => Pay.handleMsgSend ctx msg
  | .multiSend msg => Pay.handleMsgMultiSend ctx msg
  | .submitProgram msg => Budget.handleMsgSubmitProgram ctx msg
  | .withdrawProgram msg => Budget.handleMsgWithdrawProgram ctx msg
  | .voteProgram msg => Budget.handleMsgVoteProgram ctx msg
  | .pricePrevote msg => Oracle.handleMsgPricePrevote ctx msg
  | .priceVote msg => Oracle.handleMsgPriceVote ctx msg
  | .delegateFeederPermission msg => Oracle.handleMsgDelegateFeederPermission ctx msg

inductive Action where
  | deliver (msg : Msg)
  | oracleEndBlocker (order : Oracle.MapOrder)
  | budgetEndBlocker
  | advance (blocks : ℕ)

/-- The state after an end blocker, unless it panicked. -/
def ended : Outcome (Tags × Context L) → Option (Context L)
  | .ok (_, after) => some after
  | .error _ => none

def step (ctx : Context L) : Action → Option (Context L)
  | .deliver msg => some (ctx.deliver (handle ctx msg))
  | .oracleEndBlocker order => ended (Oracle.endBlocker order ctx)
  | .budgetEndBlocker => ended (Budget.endBlocker ctx)
  | .advance blocks => some { ctx with height := ctx.height + blocks }

omit [Sdk L] in
theorem ended_eq_some {outcome : Outcome (Tags × Context L)} {after : Context L}
    (finished : ended outcome = some after) : ∃ tags, outcome = .ok (tags, after) := by
  cases outcome with
  | ok done =>
      cases finished
      exact ⟨done.1, rfl⟩
  | error failure => cases finished

open Mint

/-- No handler creates or destroys coins without counting them. -/
theorem handle_mirrored {before after : Context L} {msg : Msg} {result : Result}
    (handled : handle before msg = .ok (result, after)) : Mirrored before after := by
  cases msg with
  | swap msg => exact Market.handleMsgSwap_mirrored handled
  | send msg => exact Mirrored.of_unchanged (Pay.handleMsgSend_changes handled)
  | multiSend msg => exact Mirrored.of_unchanged (Pay.handleMsgMultiSend_changes handled)
  | submitProgram msg => exact (Budget.handleMsgSubmitProgram_eq_ok handled).2.2.2
  | withdrawProgram msg =>
      rcases Budget.handleMsgWithdrawProgram_eq_ok handled with ⟨_, -, -, -, -, mirrored⟩
      exact mirrored
  | voteProgram msg =>
      rw [(Budget.handleMsgVoteProgram_eq_ok handled).2]
      exact Mirrored.of_unchanged (Changes.of_budget before _)
  | pricePrevote msg =>
      rw [(Oracle.handleMsgPricePrevote_eq_ok handled).2.2]
      exact Mirrored.of_unchanged (Changes.of_oracle before _)
  | priceVote msg =>
      rcases Oracle.handleMsgPriceVote_eq_ok handled with ⟨_, -, -, -, -, afterEq⟩
      rw [afterEq]
      exact Mirrored.of_unchanged (Changes.of_oracle before _)
  | delegateFeederPermission msg =>
      rw [Oracle.handleMsgDelegateFeederPermission_eq_ok handled]
      exact Mirrored.of_unchanged (Changes.of_oracle before _)

/-- The Luna that a step pays out of the swap fee pool. -/
def lunaPayout (ctx : Context L) : Action → ℤ
  | .oracleEndBlocker _ =>
      if ctx.LastBlock ctx.oracle.params.votePeriod then Oracle.payout ctx.oracle microLunaDenom
      else 0
  | _ => 0

omit [Sdk L] in
theorem lunaPayout_nonneg (ctx : Context L) (action : Action) : 0 ≤ lunaPayout ctx action := by
  cases action with
  | oracleEndBlocker order =>
      simp only [lunaPayout]
      split
      · exact Oracle.payout_nonneg _ _
      · exact le_rfl
  | _ => exact le_rfl

/-- Every step counts what it creates. The staking pool follows, except for the
Luna that the oracle pays out. -/
inductive Accounted (before : Context L) (action : Action) (after : Context L) : Prop where
  | issued (issued : Denom → ℤ)
      (changes : Changes issued issued (issued microLunaDenom - lunaPayout before action)
        before after)
  | advanced (blocks : ℕ) (isAdvance : action = .advance blocks)
      (afterEq : after = { before with height := before.height + blocks })

theorem Accounted.of_mirrored {before after : Context L} {action : Action}
    (nothing : lunaPayout before action = 0) (mirrored : Mirrored before after) :
    Accounted before action after := by
  rcases mirrored with ⟨issued, changes⟩
  exact .issued issued (changes.of_eq (fun _ => rfl) (fun _ => rfl) (by rw [nothing, sub_zero]))

/-- The coins that an oracle end blocker pays out of the swap fee pool. -/
def oraclePayout (ctx : Context L) (denom : Denom) : ℤ :=
  if ctx.LastBlock ctx.oracle.params.votePeriod then Oracle.payout ctx.oracle denom else 0

/-- The oracle counts what it pays out, past the staking pool. -/
theorem oracleEndBlocker_changes {before after : Context L} {order : Oracle.MapOrder}
    (taken : step before (.oracleEndBlocker order) = some after) :
    Changes (oraclePayout before) (oraclePayout before) 0 before after := by
  rcases ended_eq_some taken with ⟨tags, finished⟩
  rcases Oracle.endBlocker_eq_ok finished with
    ⟨notLast, afterEq⟩ | ⟨last, paid, afterEq, -, changes⟩
  · rw [afterEq]
    exact (Changes.refl before).of_eq (by simp [oraclePayout, notLast])
      (by simp [oraclePayout, notLast]) rfl
  · rw [afterEq]
    exact (changes.trans (Changes.of_oracle paid _)).of_eq (by simp [oraclePayout, last])
      (by simp [oraclePayout, last]) rfl

theorem step_accounted {before after : Context L} {action : Action}
    (taken : step before action = some after) : Accounted before action after := by
  cases action with
  | deliver msg =>
      cases taken
      apply Accounted.of_mirrored rfl
      rcases before.deliver_cases (handle before msg) with ⟨result, handled⟩ | ⟨_, same⟩
      · exact handle_mirrored handled
      · rw [same]
        exact Mirrored.of_unchanged (Changes.refl before)
  | oracleEndBlocker order =>
      refine .issued (oraclePayout before) ((oracleEndBlocker_changes taken).of_eq
        (fun _ => rfl) (fun _ => rfl) ?_)
      rw [lunaPayout, oraclePayout, sub_self]
  | budgetEndBlocker =>
      rcases ended_eq_some taken with ⟨tags, finished⟩
      exact Accounted.of_mirrored rfl (Budget.endBlocker_mirrored finished)
  | advance blocks =>
      cases taken
      exact .advanced blocks rfl rfl

end TerraCore.Chain
