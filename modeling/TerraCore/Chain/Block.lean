import TerraCore.Budget.Run
import TerraCore.Chain.Frames
import TerraCore.Treasury.Run
import TerraCore.Update.Plan

/-!
# Blocks

A block delivers messages and ends with the end blockers of the oracle, the
budget, the treasury and the update, in this order. Between two events of a
block the modules of the SDK may change the coins and the validators, and the
parameters may be set. The end blocker of the staking module is such an event,
before the others. The check of the invariants, which is a flag of the node, is
left out.
-/

namespace TerraCore.Chain.Block

variable {L : Type}

/-- What is not under the control of the modules of this repository. -/
structure Environment (L : Type) where
  ledger : L
  staking : Staking
  oracleParams : Oracle.Params
  marketParams : Market.Params
  treasuryParams : Treasury.Params
  budgetParams : Budget.Params

def Environment.surround (environment : Environment L) (ctx : Context L) : Context L :=
  { ctx with
    ledger := environment.ledger
    staking := environment.staking
    oracle := { ctx.oracle with params := environment.oracleParams }
    market := environment.marketParams
    treasury := { ctx.treasury with params := environment.treasuryParams }
    budget := { ctx.budget with params := environment.budgetParams } }

inductive Event (L : Type) where
  | deliver (msg : Msg)
  | elsewhere (environment : Environment L)
  | endBlock (order : Oracle.MapOrder) (accountKeeper : Update.AccountKeeper)

variable [Sdk L]

/-- The end blockers that run before the one of the treasury. -/
def closing (order : Oracle.MapOrder) (ctx : Context L) : Outcome (Context L) := do
  let (_, ctx) ← Oracle.endBlocker order ctx
  let (_, ctx) ← Budget.endBlocker ctx
  pure ctx

/-- The end of a block, and the height of the next one. The accounts that the update
writes are no part of the state. -/
def endBlock (order : Oracle.MapOrder) (accountKeeper : Update.AccountKeeper) (ctx : Context L) :
    Outcome (Context L) := do
  let ctx ← closing order ctx
  let (_, ctx) ← Treasury.endBlocker ctx
  let (_, ctx, _) ← Update.endBlocker accountKeeper ctx
  pure { ctx with height := ctx.height + 1 }

/-- One event. A failed message is rolled back; a panic at the end of a block halts the chain. -/
def step (ctx : Context L) : Event L → Option (Context L)
  | .deliver msg => some (ctx.deliver (handle ctx msg))
  | .elsewhere environment => some (environment.surround ctx)
  | .endBlock order accountKeeper =>
      match endBlock order accountKeeper ctx with
      | .ok after => some after
      | .error _ => none

theorem step_endBlock_eq_some {ctx next : Context L} {order : Oracle.MapOrder}
    {accountKeeper : Update.AccountKeeper}
    (taken : step ctx (.endBlock order accountKeeper) = some next) :
    endBlock order accountKeeper ctx = .ok next := by
  simp only [step] at taken
  split at taken
  · next done =>
      cases taken
      exact done
  · cases taken

/-- The stages of the end of a block. -/
theorem step_endBlock_stages {ctx next : Context L} {order : Oracle.MapOrder}
    {accountKeeper : Update.AccountKeeper}
    (taken : step ctx (.endBlock order accountKeeper) = some next) :
    ∃ closed tags updated, closing order ctx = .ok closed ∧
      Treasury.endBlocker closed = .ok (tags, updated) ∧
      ∃ oracleRewardBand dailyLunaDeltaCap, next =
        { Update.withParams updated oracleRewardBand dailyLunaDeltaCap with
          height := updated.height + 1 } := by
  rcases Outcome.bind_eq_ok.mp (step_endBlock_eq_some taken) with ⟨closed, closes, done⟩
  rcases Outcome.bind_eq_ok.mp done with ⟨⟨tags, updated⟩, update, done⟩
  rcases Outcome.bind_eq_ok.mp done with ⟨⟨_, planned, _⟩, plan, done⟩
  cases done
  rcases Update.endBlocker_frame plan with ⟨oracleRewardBand, dailyLunaDeltaCap, rfl⟩
  exact ⟨closed, tags, updated, closes, update, oracleRewardBand, dailyLunaDeltaCap, rfl⟩

open Inheritance Transition Treasury

theorem oracleEndBlocker_reads {order : Oracle.MapOrder} {before after : Context L} {tags : Tags}
    (done : Oracle.endBlocker order before = .ok (tags, after)) : Peeks before after := by
  rcases Oracle.endBlocker_eq_ok done with ⟨-, afterEq⟩ | ⟨-, paid, afterEq, sameTreasury, changes⟩
  · rw [afterEq]
    exact Peeks.refl before
  · rw [afterEq]
    exact Peeks.of_same changes.height sameTreasury

theorem budgetEndBlocker_reads {before after : Context L} {tags : Tags} (grounded : Grounded before)
    (done : Budget.endBlocker before = .ok (tags, after)) : Peeks before after := by
  have frame := Budget.endBlocker_frame done
  have read : Peeks before (Budget.weightRead before) := by
    unfold Budget.weightRead
    split
    · exact (getRewardWeight_spec grounded le_rfl).2
    · exact Peeks.refl before
  exact read.trans (Peeks.of_same frame.height frame.treasury)

/-- The end blockers before the one of the treasury only read the rates. -/
theorem closing_reads {order : Oracle.MapOrder} {before after : Context L}
    (grounded : Grounded before) (done : closing order before = .ok after) :
    Peeks before after := by
  rcases Outcome.bind_eq_ok.mp done with ⟨⟨_, tallied⟩, tally, done⟩
  rcases Outcome.bind_eq_ok.mp done with ⟨⟨_, rewarded⟩, reward, done⟩
  cases done
  have tallyReads := oracleEndBlocker_reads tally
  exact tallyReads.trans (budgetEndBlocker_reads (tallyReads.grounded grounded) reward)

/-- The rates of epochs that have ended stay what they are. -/
structure KeepsPast (before after : Context L) : Prop where
  grounded : Grounded after
  epoch : epoch before ≤ epoch after
  past : ∀ (lever : Lever) (period : ℕ), period < Treasury.epoch before →
    valueAt (lever.rates after.treasury) period = valueAt (lever.rates before.treasury) period

omit [Sdk L] in
theorem KeepsPast.of_reads {before after : Context L} (grounded : Grounded before)
    (reads : Reads before after) : KeepsPast before after :=
  ⟨reads.grounded grounded, reads.epoch_eq.ge, fun lever period _ => reads.valueAt_eq lever period⟩

omit [Sdk L] in
theorem KeepsPast.trans {before middle after : Context L} (first : KeepsPast before middle)
    (second : KeepsPast middle after) : KeepsPast before after :=
  ⟨second.grounded, first.epoch.trans second.epoch, fun lever period isPast =>
    (second.past lever period (lt_of_lt_of_le isPast first.epoch)).trans
      (first.past lever period isPast)⟩

omit [Sdk L] in
theorem KeepsPast.succ {ctx : Context L} (grounded : Grounded ctx) :
    KeepsPast ctx { ctx with height := ctx.height + 1 } := by
  refine ⟨grounded.succ, ?_, fun _ _ _ => rfl⟩
  rw [epoch_succ]
  split <;> omega

theorem treasuryEndBlocker_keepsPast {before after : Context L} {tags : Tags}
    (grounded : Grounded before) (done : Treasury.endBlocker before = .ok (tags, after)) :
    KeepsPast before after := by
  rcases endBlocker_cases grounded done with ⟨-, afterEq⟩ | update
  · rw [afterEq]
    exact KeepsPast.of_reads grounded (Reads.refl before)
  · refine ⟨update.grounded, ?_, ?_⟩
    · rw [Treasury.epoch, Treasury.epoch, update.height]
    · intro lever period isPast
      rcases update.moved lever with ⟨old, target, moved⟩
      exact moved.past period isPast

theorem step_keepsPast {before after : Context L} {event : Event L} (grounded : Grounded before)
    (taken : step before event = some after) : KeepsPast before after := by
  cases event with
  | deliver msg =>
      cases taken
      apply KeepsPast.of_reads grounded
      rcases before.deliver_cases (handle before msg) with ⟨result, handled⟩ | ⟨_, same⟩
      · exact handle_reads grounded handled
      · rw [same]
        exact Reads.refl before
  | elsewhere environment =>
      cases taken
      exact ⟨⟨grounded.taxRate, grounded.rewardWeight, grounded.taxUntil, grounded.rewardUntil⟩,
        le_rfl, fun lever period _ => by cases lever <;> rfl⟩
  | endBlock order accountKeeper =>
      rcases step_endBlock_stages taken with ⟨closed, _, updated, closes, update, band, cap, rfl⟩
      have first := KeepsPast.of_reads grounded (closing_reads grounded closes).toReads
      have second := first.trans (treasuryEndBlocker_keepsPast first.grounded update)
      have sameRates : Reads updated (Update.withParams updated band cap) := Reads.of_same rfl rfl
      have third := second.trans (KeepsPast.of_reads second.grounded sameRates)
      exact third.trans (KeepsPast.succ third.grounded)

theorem reaches_keepsPast {before after : Context L} {events : List (Event L)}
    (grounded : Grounded before) (reached : Reaches step before events after) :
    KeepsPast before after := by
  induction reached with
  | refl => exact KeepsPast.of_reads grounded (Reads.refl before)
  | snoc _ taken ih => exact ih.trans (step_keepsPast ih.grounded taken)

end TerraCore.Chain.Block
