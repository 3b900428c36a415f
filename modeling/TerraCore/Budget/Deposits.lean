import TerraCore.Budget.Executors
import TerraCore.Budget.Lifecycle

/-!
# Deposits

A deposit is burned from the submitter when a program is submitted. It is minted
back when the program is withdrawn and its entry is still in the candidate queue.
Nothing else remembers whether the deposit was refunded: that it is refunded once
at most, and until the vote ends, follows from how the queue is kept.

A run records the deposits that its messages burn and mint, and the withdrawals
that succeed. The refunds are the withdrawals which came in time.
-/

namespace TerraCore.Budget

open Transition

variable {L : Type} [Sdk L]

/-- The deposit of a program, burned from an account or minted to it. -/
structure Transfer where
  programID : ℕ
  account : Address
  minted : Bool
  height : ℕ
deriving DecidableEq

namespace Transfer

/-- Burn or mint the deposit. -/
def execute (deposit : Coin) (ctx : Context L) (transfer : Transfer) : Outcome (Context L) :=
  if transfer.minted then Mint.mint ctx transfer.account deposit
  else Mint.burn ctx transfer.account deposit

/-- What the transfer adds to a balance. -/
def credit (deposit : Coin) (address : Address) (denom : Denom) (transfer : Transfer) : ℤ :=
  if address = transfer.account then
    Mint.only deposit.denom (if transfer.minted then deposit.amount else -deposit.amount) denom
  else 0

theorem execute_balance {deposit : Coin} {before after : Context L} {transfer : Transfer}
    (done : transfer.execute deposit before = .ok after) (address : Address) (denom : Denom) :
    (Ledger.balance after.ledger address denom : ℤ) =
      Ledger.balance before.ledger address denom + transfer.credit deposit address denom := by
  unfold execute at done
  unfold credit
  split at done
  · next isMint =>
      rcases Mint.mint_writes done with ⟨ledger, mint, moves, rfl⟩
      rw [moves.balance address denom]
      simp only [Mint.credited_single, credited_nil, sub_zero, if_pos isMint]
  · next isBurn =>
      rcases Mint.burn_writes done with ⟨ledger, mint, moves, rfl⟩
      rw [moves.balance address denom]
      simp only [Mint.credited_single, credited_nil, add_zero, if_neg isBurn, Mint.only]
      split
      · split <;> omega
      · omega

theorem execute_balances {deposit : Coin} {transfers : List Transfer} {before after : Context L}
    (done : transfers.foldlM (execute deposit) before = .ok after) (address : Address)
    (denom : Denom) :
    (Ledger.balance after.ledger address denom : ℤ) =
      Ledger.balance before.ledger address denom +
        (transfers.map (credit deposit address denom)).sum := by
  induction transfers generalizing before with
  | nil =>
      cases done
      simp
  | cons transfer transfers ih =>
      rw [List.foldlM_cons] at done
      rcases Outcome.bind_eq_ok.mp done with ⟨middle, first, rest⟩
      rw [ih rest, execute_balance first, List.map_cons, List.sum_cons]
      ring

end Transfer

/-- The deposits that a message burns and mints. -/
def transfersNow (ctx : Context L) : Action L → List Transfer
  | .submitProgram msg =>
      match handleMsgSubmitProgram ctx msg with
      | .ok _ => [⟨lastProgramID ctx.budget + 1, msg.submitter, false, ctx.height⟩]
      | .error _ => []
  | .withdrawProgram msg =>
      match handleMsgWithdrawProgram ctx msg, ctx.budget.programs[msg.programID]? with
      | .ok _, some program =>
          if ctx.budget.candQueueHas (program.getVotingEndBlock ctx.budget.params)
              msg.programID then
            [⟨msg.programID, program.submitter, true, ctx.height⟩]
          else []
      | _, _ => []
  | _ => []

/-- A withdrawal that succeeded. -/
structure Withdrawal where
  submitter : Address
  height : ℕ
deriving DecidableEq

/-- The transfers of one deposit. -/
def transfersOf (programID : ℕ) (ctx : Context L) (action : Action L) : List Transfer :=
  (transfersNow ctx action).filter fun transfer => transfer.programID = programID

/-- The successful withdrawals of one program. -/
def withdrawalsOf (programID : ℕ) (ctx : Context L) : Action L → List Withdrawal
  | .withdrawProgram msg =>
      match handleMsgWithdrawProgram ctx msg with
      | .ok _ => if msg.programID = programID then [⟨msg.submitter, ctx.height⟩] else []
      | .error _ => []
  | _ => []

theorem submission_moves {ctx after : Context L} {msg : MsgSubmitProgram} {result : Result}
    (handled : handleMsgSubmitProgram ctx msg = .ok (result, after)) :
    ∃ paid, Mint.burn ctx msg.submitter ctx.budget.params.deposit = .ok paid ∧
      after = { paid with budget := after.budget } := by
  rcases Outcome.bind_eq_ok.mp handled with ⟨paid, burned, done⟩
  cases done
  exact ⟨paid, burned, rfl⟩

/-- A withdrawal mints the deposit when the program is queued, and nothing otherwise. -/
theorem withdrawCandidate_moves {ctx after : Context L} {program : Program}
    {msg : MsgWithdrawProgram} (done : withdrawCandidate ctx program msg = .ok after) :
    if ctx.budget.candQueueHas (program.getVotingEndBlock ctx.budget.params) msg.programID then
      ∃ paid, Mint.mint ctx program.submitter ctx.budget.params.deposit = .ok paid ∧
        after = { paid with budget := after.budget }
    else after = ctx := by
  unfold withdrawCandidate at done
  simp only at done
  split at done
  · next queued =>
      rw [if_pos queued]
      split at done
      · cases done
      · exact ⟨_, Mint.mint_withBudget done, rfl⟩
  · next unqueued =>
      rw [if_neg unqueued]
      cases done
      rfl

theorem withdrawal_moves {ctx after : Context L} {msg : MsgWithdrawProgram} {result : Result}
    (handled : handleMsgWithdrawProgram ctx msg = .ok (result, after)) :
    ∃ program, ctx.budget.programs[msg.programID]? = some program ∧
      program.submitter = msg.submitter ∧
      if ctx.budget.candQueueHas (program.getVotingEndBlock ctx.budget.params) msg.programID then
        ∃ paid, Mint.mint ctx program.submitter ctx.budget.params.deposit = .ok paid ∧
          after = { paid with budget := after.budget }
      else after = { ctx with budget := after.budget } := by
  rcases handleMsgWithdrawProgram_steps handled with
    ⟨program, middle, stored, submitter, withdrawal, rfl⟩
  refine ⟨program, stored, submitter, ?_⟩
  have moves := withdrawCandidate_moves withdrawal
  split at moves
  · next queued =>
      rcases moves with ⟨paid, minted, middleEq⟩
      rw [if_pos queued]
      refine ⟨paid, minted, ?_⟩
      rw [middleEq]
  · next unqueued =>
      rw [if_neg unqueued, moves]

/-- A message does nothing outside of the budget but the transfers that are recorded. -/
theorem step_moves {ctx next : Context L} {action : Action L}
    (taken : step ctx action = some next) (notEnded : action ≠ .endBlock)
    (here : ∀ change, action ≠ .elsewhere change) :
    ∃ paid, (transfersNow ctx action).foldlM (Transfer.execute ctx.budget.params.deposit) ctx =
      .ok paid ∧ next = { paid with budget := next.budget } := by
  cases action with
  | submitProgram msg =>
      cases taken
      simp only [transfersNow]
      cases handled : handleMsgSubmitProgram ctx msg with
      | error failure => exact ⟨ctx, rfl, rfl⟩
      | ok done =>
          rcases submission_moves handled with ⟨paid, burned, afterEq⟩
          refine ⟨paid, ?_, afterEq⟩
          simpa [Transfer.execute] using burned
  | withdrawProgram msg =>
      cases taken
      simp only [transfersNow]
      cases handled : handleMsgWithdrawProgram ctx msg with
      | error failure => exact ⟨ctx, rfl, rfl⟩
      | ok done =>
          rcases withdrawal_moves handled with ⟨program, stored, -, moves⟩
          rw [stored]
          simp only
          split at moves
          · next queued =>
              rcases moves with ⟨paid, minted, afterEq⟩
              rw [if_pos queued]
              refine ⟨paid, ?_, afterEq⟩
              simpa [Transfer.execute] using minted
          · next unqueued =>
              rw [if_neg unqueued]
              exact ⟨ctx, rfl, moves⟩
  | voteProgram msg =>
      cases taken
      refine ⟨ctx, rfl, ?_⟩
      rcases ctx.deliver_cases (handleMsgVoteProgram ctx msg) with ⟨result, done⟩ | ⟨_, same⟩
      · rw [(handleMsgVoteProgram_eq_ok done).2]
      · rw [same]
  | endBlock => exact absurd rfl notEnded
  | setParams params =>
      cases taken
      exact ⟨ctx, rfl, rfl⟩
  | elsewhere change => exact absurd rfl (here change)

theorem withdrawalsOf_of_notWithdrawn {programID : ℕ} {ctx : Context L} {action : Action L}
    (notWithdrawn : NotWithdrawn programID ctx action) :
    withdrawalsOf programID ctx action = [] := by
  cases action with
  | withdrawProgram msg =>
      simp only [withdrawalsOf]
      split
      · next done handled =>
          rw [if_neg]
          intro same
          exact notWithdrawn msg rfl same done handled
      · rfl
  | _ => rfl

/-- A program was stored once, and it is not any more. -/
structure Gone (programID : ℕ) (ctx : Context L) : Prop where
  consistent : Consistent ctx
  handedOut : programID ≤ lastProgramID ctx.budget
  absent : ctx.budget.programs[programID]? = none

theorem step_gone {programID : ℕ} {ctx next : Context L} {action : Action L}
    (taken : step ctx action = some next) (gone : Gone programID ctx) : Gone programID next := by
  refine ⟨step_consistent taken gone.consistent,
    gone.handedOut.trans (step_lastProgramID_le taken), ?_⟩
  have handedOut := gone.handedOut
  cases step_effect taken with
  | kept _ _ budget =>
      rw [budget]
      exact gone.absent
  | submitted _ _ budget =>
      rw [budget, addCandidate_programs, if_neg (by omega)]
      exact gone.absent
  | withdrew _ _ _ budget =>
      rw [budget, withdrawn_programs]
      split
      · rfl
      · exact gone.absent
  | voted _ _ budget =>
      rw [budget]
      exact gone.absent
  | ended _ budget =>
      have same := rewarded_sameRecords ctx
      rw [← budget] at same
      cases stored : next.budget.programs[programID]? with
      | none => rfl
      | some program =>
          have before := (same.shrinks (blockEnd_shrinks ctx)).programs _ _ stored
          rw [gone.absent] at before
          cases before
  | paramsSet _ budget =>
      rw [budget]
      exact gone.absent

theorem Gone.notWithdrawn {programID : ℕ} {ctx : Context L} (gone : Gone programID ctx)
    (action : Action L) : NotWithdrawn programID ctx action := by
  rintro msg rfl rfl done handled
  rcases withdrawal_moves handled with ⟨program, stored, -⟩
  rw [gone.absent] at stored
  cases stored

/-- Without a withdrawal no deposit is moved but that of a submission, which has a new id. -/
theorem transfersOf_of_notWithdrawn {programID : ℕ} {ctx : Context L} {action : Action L}
    (handedOut : programID ≤ lastProgramID ctx.budget)
    (notWithdrawn : NotWithdrawn programID ctx action) : transfersOf programID ctx action = [] := by
  rw [transfersOf, List.filter_eq_nil_iff]
  intro transfer transferMem
  cases action with
  | submitProgram msg =>
      simp only [transfersNow] at transferMem
      split at transferMem
      · rw [List.mem_singleton] at transferMem
        rw [transferMem]
        simp only [decide_eq_true_eq]
        omega
      · cases transferMem
  | withdrawProgram msg =>
      simp only [transfersNow] at transferMem
      split at transferMem
      · next done program handled stored =>
          split at transferMem
          · rw [List.mem_singleton] at transferMem
            rw [transferMem]
            simp only [decide_eq_true_eq]
            intro same
            exact notWithdrawn msg rfl same done handled
          · cases transferMem
      · cases transferMem
  | _ => cases transferMem

/-- The refunds of a program that is withdrawn: those that come before its vote ends. -/
def refundsDue (program : Program) (endBlock : ℤ) (withdrawals : List Withdrawal) :
    List Transfer :=
  (withdrawals.filter fun withdrawal => (withdrawal.height : ℤ) ≤ endBlock).map fun withdrawal =>
    ⟨program.programID, program.submitter, true, withdrawal.height⟩

theorem refundsDue_append (program : Program) (endBlock : ℤ) (left right : List Withdrawal) :
    refundsDue program endBlock (left ++ right) =
      refundsDue program endBlock left ++ refundsDue program endBlock right := by
  simp [refundsDue]

/-- A withdrawal of a program that is followed ends it, and refunds it in time. -/
theorem Tracked.withdraw {program : Program} {endBlock : ℤ} {ctx next : Context L}
    {msg : MsgWithdrawProgram} {result : Result} (tracked : Tracked program endBlock ctx)
    (same : msg.programID = program.programID)
    (handled : handleMsgWithdrawProgram ctx msg = .ok (result, next)) :
    withdrawalsOf program.programID ctx (.withdrawProgram msg) =
        [⟨program.submitter, ctx.height⟩] ∧
      transfersOf program.programID ctx (.withdrawProgram msg) =
        refundsDue program endBlock [⟨program.submitter, ctx.height⟩] ∧
      Gone program.programID next := by
  have taken := step_withdrawProgram handled
  rcases withdrawal_moves handled with ⟨found, stored, submitter, -⟩
  rw [same] at stored
  have foundEq := tracked.same found stored
  subst foundEq
  refine ⟨?_, ?_, ?_⟩
  · simp only [withdrawalsOf, handled, if_pos same, submitter]
  · simp only [transfersOf, transfersNow, handled, same, stored, tracked.ends,
      tracked.candQueueHas_iff, refundsDue, List.filter_cons, decide_eq_true_eq, List.filter_nil]
    split
    · simp
    · simp
  · refine ⟨step_consistent taken tracked.consistent,
      tracked.handedOut.trans (step_lastProgramID_le taken), ?_⟩
    rcases handleMsgWithdrawProgram_eq_ok handled with ⟨other, -, -, budget, -⟩
    rw [budget, withdrawn_programs]
    exact if_pos same

/-- What one step does to the deposit of a program that is followed. -/
theorem Tracked.step {program : Program} {endBlock : ℤ} {ctx next : Context L}
    {action : Action L} (tracked : Tracked program endBlock ctx)
    (taken : step ctx action = some next) :
    transfersOf program.programID ctx action =
        refundsDue program endBlock (withdrawalsOf program.programID ctx action) ∧
      ((withdrawalsOf program.programID ctx action = [] ∧ Tracked program endBlock next) ∨
        ∃ withdrawal, withdrawalsOf program.programID ctx action = [withdrawal] ∧
          withdrawal.submitter = program.submitter ∧ Gone program.programID next) := by
  by_cases notWithdrawn : NotWithdrawn program.programID ctx action
  · rw [withdrawalsOf_of_notWithdrawn notWithdrawn]
    exact ⟨transfersOf_of_notWithdrawn tracked.handedOut notWithdrawn,
      Or.inl ⟨rfl, step_tracked taken tracked notWithdrawn⟩⟩
  · simp only [NotWithdrawn, not_forall, not_not] at notWithdrawn
    rcases notWithdrawn with ⟨msg, rfl, same, ⟨result, after⟩, handled⟩
    cases taken.symm.trans (step_withdrawProgram handled)
    rcases tracked.withdraw same handled with ⟨withdrawals, transfers, gone⟩
    rw [withdrawals]
    exact ⟨transfers, Or.inr ⟨_, rfl, rfl, gone⟩⟩

theorem Gone.step {programID : ℕ} {ctx next : Context L} {action : Action L}
    (gone : Gone programID ctx) (taken : step ctx action = some next) :
    transfersOf programID ctx action = [] ∧ withdrawalsOf programID ctx action = [] ∧
      Gone programID next :=
  ⟨transfersOf_of_notWithdrawn gone.handedOut (gone.notWithdrawn action),
    withdrawalsOf_of_notWithdrawn (gone.notWithdrawn action), step_gone taken gone⟩

/-- From its submission on, a program is withdrawn once at most, by its submitter,
and refunded when this happens in time. -/
theorem Tracked.refunds {program : Program} {endBlock : ℤ} {ctx : Context L}
    (tracked : Tracked program endBlock ctx) (actions : List (Action L)) :
    record Budget.step (transfersOf program.programID) ctx actions =
        refundsDue program endBlock
          (record Budget.step (withdrawalsOf program.programID) ctx actions) ∧
      (record Budget.step (withdrawalsOf program.programID) ctx actions).length ≤ 1 ∧
      ∀ withdrawal ∈ record Budget.step (withdrawalsOf program.programID) ctx actions,
        withdrawal.submitter = program.submitter := by
  constructor
  · refine record_eq_of_invariant
      (fun ctx => Tracked program endBlock ctx ∨ Gone program.programID ctx) rfl
      (refundsDue_append program endBlock) ?_ actions (Or.inl tracked)
    rintro before action after (stillTracked | gone) taken
    · rcases stillTracked.step taken with ⟨transfers, ⟨-, later⟩ | ⟨_, -, -, later⟩⟩
      · exact ⟨transfers, Or.inl later⟩
      · exact ⟨transfers, Or.inr later⟩
    · rcases gone.step taken with ⟨transfers, withdrawals, later⟩
      rw [transfers, withdrawals]
      exact ⟨rfl, Or.inr later⟩
  · exact record_once (Tracked program endBlock) (Gone program.programID)
      (fun _ _ _ stillTracked taken => (stillTracked.step taken).2)
      (fun _ _ _ gone taken => (gone.step taken).2) actions tracked

/-- No deposit is moved for a program id that the step does not hand out. -/
theorem transfersOf_of_unissued {programID : ℕ} {ctx next : Context L} {action : Action L}
    (consistent : Consistent ctx) (taken : step ctx action = some next)
    (unissued : lastProgramID next.budget < programID) :
    transfersOf programID ctx action = [] := by
  rw [transfersOf, List.filter_eq_nil_iff]
  intro transfer transferMem
  have grows := step_lastProgramID_le taken
  cases action with
  | submitProgram msg =>
      simp only [transfersNow] at transferMem
      split at transferMem
      · next done handled =>
          cases taken.symm.trans (step_submitProgram handled)
          rcases handleMsgSubmitProgram_eq_ok handled with ⟨-, budget, -⟩
          rw [budget, (addCandidate_rest ctx.budget msg ctx.height).2.2.2] at unissued
          rw [List.mem_singleton] at transferMem
          rw [transferMem]
          simp only [decide_eq_true_eq]
          omega
      · cases transferMem
  | withdrawProgram msg =>
      simp only [transfersNow] at transferMem
      split at transferMem
      · next done program handled stored =>
          split at transferMem
          · rw [List.mem_singleton] at transferMem
            rw [transferMem]
            simp only [decide_eq_true_eq]
            rintro rfl
            rcases consistent.numbered.programs _ _ stored with listed | handedOut
            · cases listed
            · omega
          · cases transferMem
      · cases transferMem
  | _ => cases transferMem

theorem record_transfersOf_of_unissued {programID : ℕ} {start final : Context L}
    {actions : List (Action L)} (consistent : Consistent start)
    (reached : Reaches step start actions final)
    (unissued : lastProgramID final.budget < programID) :
    record step (transfersOf programID) start actions = [] := by
  induction actions generalizing start with
  | nil => rfl
  | cons action actions ih =>
      rcases reached.of_cons with ⟨next, taken, rest⟩
      rw [record_cons taken, ih (step_consistent taken consistent) rest, List.append_nil]
      exact transfersOf_of_unissued consistent taken
        ((reaches_lastProgramID_le rest).trans_lt unissued)

theorem transfersOf_submission {ctx submitted : Context L} {msg : MsgSubmitProgram}
    {result : Result} (handled : handleMsgSubmitProgram ctx msg = .ok (result, submitted)) :
    transfersOf (lastProgramID ctx.budget + 1) ctx (.submitProgram msg) =
      [⟨lastProgramID ctx.budget + 1, msg.submitter, false, ctx.height⟩] := by
  simp [transfersOf, transfersNow, handled]

/-- The end of a block moves no coins but the rewards of an epoch. -/
structure OnlyRewards (ctx after : Context L) : Prop where
  ordinary : ¬ctx.LastBlock blocksPerEpoch → after = { ctx with budget := after.budget }
  epoch : ctx.LastBlock blocksPerEpoch → ∃ read paid : Context L, read.ledger = ctx.ledger ∧
    read.budget = reweighed ctx ∧ payRewards read (epochReward ctx) = .ok paid ∧
      after.ledger = paid.ledger

theorem endBlocker_onlyRewards {ctx after : Context L} {tags : Tags}
    (done : endBlocker ctx = .ok (tags, after)) : OnlyRewards ctx after := by
  constructor
  · intro notLast
    rcases endBlocker_steps done with ⟨-, rfl⟩ | ⟨last, -⟩
    · rfl
    · exact absurd last notLast
  · intro last
    rcases endBlocker_pays last done with
      ⟨read, paid, sameLedger, -, sameBudget, paying, paidLedger, -⟩
    exact ⟨read, paid, sameLedger, sameBudget, paying, paidLedger⟩

/-- What a run does with one deposit: it is burned at the submission and minted
back by a withdrawal that comes in time. -/
structure Escrowed (msg : MsgSubmitProgram) (programID height : ℕ) (votePeriod : ℤ)
    (transfers : List Transfer) (withdrawals : List Withdrawal) : Prop where
  moved : transfers = ⟨programID, msg.submitter, false, height⟩ ::
    (withdrawals.filter fun withdrawal => (withdrawal.height : ℤ) ≤ height + votePeriod).map
      fun withdrawal => ⟨programID, msg.submitter, true, withdrawal.height⟩
  once : withdrawals.length ≤ 1
  own : ∀ withdrawal ∈ withdrawals, withdrawal.submitter = msg.submitter

/-- What is true of deposits in a state that a run has reached. -/
structure DepositsKept (params : Params) (start : Context L) (actions : List (Action L))
    (ctx : Context L) : Prop where
  /-- Outside of the budget store, a message executes the transfers that are recorded
  for it, and nothing else. -/
  moves : ∀ action next, step ctx action = some next → action ≠ .endBlock →
    (∀ change, action ≠ .elsewhere change) →
      ∃ paid, (transfersNow ctx action).foldlM (Transfer.execute params.deposit) ctx = .ok paid ∧
        next = { paid with budget := next.budget }
  /-- Balances change by the deposits that are recorded. -/
  balances : ∀ action next, step ctx action = some next → action ≠ .endBlock →
    (∀ change, action ≠ .elsewhere change) → ∀ address denom,
      (Ledger.balance next.ledger address denom : ℤ) =
        Ledger.balance ctx.ledger address denom +
          ((transfersNow ctx action).map (Transfer.credit params.deposit address denom)).sum
  /-- Rejecting and legacying programs moves no coins. -/
  blockEnd : ∀ tags after, endBlocker ctx = .ok (tags, after) → OnlyRewards ctx after
  /-- Withdrawing a program that was decided moves no coins. -/
  decided : ∀ msg program next, Active ctx.budget program → program.programID = msg.programID →
    step ctx (.withdrawProgram msg) = some next → next = { ctx with budget := next.budget }
  /-- Nobody but the submitter of a stored program can withdraw it. -/
  refused : ∀ msg, (∀ program, ctx.budget.programs[msg.programID]? = some program →
    program.submitter ≠ msg.submitter) → step ctx (.withdrawProgram msg) = some ctx
  /-- A program that is submitted now, while its vote ends at an `int64` height, pays
  its deposit once in the whole run, and gets it back once at most, when it is
  withdrawn before its vote ends. -/
  escrowed : (ctx.height : ℤ) + params.votePeriod < 2 ^ 63 → ∀ msg result submitted,
    handleMsgSubmitProgram ctx msg = .ok (result, submitted) → ∀ later final,
      Reaches step submitted later final →
        Escrowed msg (lastProgramID ctx.budget + 1) ctx.height params.votePeriod
          (record step (transfersOf (lastProgramID ctx.budget + 1)) start
            (actions ++ .submitProgram msg :: later))
          (record step (withdrawalsOf (lastProgramID ctx.budget + 1)) submitted later)

theorem step_params {ctx next : Context L} {action : Action L}
    (taken : step ctx action = some next) (constantParams : ∀ params, action ≠ .setParams params) :
    next.budget.params = ctx.budget.params := by
  cases step_effect taken with
  | kept _ _ budget => rw [budget]
  | submitted _ _ budget => rw [budget]; rfl
  | withdrew _ _ _ budget => rw [budget]; rfl
  | voted _ _ budget => rw [budget]; rfl
  | ended _ budget => rw [budget, rewarded_params, reweighed_params]
  | @paramsSet params => exact absurd rfl (constantParams params)

theorem reaches_params {start ctx : Context L} {actions : List (Action L)}
    (reached : Reaches step start actions ctx)
    (constantParams : ∀ action ∈ actions, ∀ params, action ≠ .setParams params) :
    ctx.budget.params = start.budget.params :=
  reached.invariant_of_along (fun ctx => ctx.budget.params = start.budget.params)
    (fun _ _ _ holds constant taken => (step_params taken constant).trans holds)
    (along_of_forall (fun action actionMem _ => constantParams action actionMem) start) rfl

theorem withdraw_refused {ctx : Context L} {msg : MsgWithdrawProgram}
    (refused : ∀ program, ctx.budget.programs[msg.programID]? = some program →
      program.submitter ≠ msg.submitter) : step ctx (.withdrawProgram msg) = some ctx := by
  simp only [step, Option.some.injEq]
  rcases ctx.deliver_cases (handleMsgWithdrawProgram ctx msg) with ⟨result, done⟩ | ⟨-, same⟩
  · rcases withdrawal_moves done with ⟨program, stored, submitter, -⟩
    exact absurd submitter (refused program stored)
  · exact same

theorem withdraw_decided {ctx next : Context L} {program : Program} {msg : MsgWithdrawProgram}
    (active : Active ctx.budget program) (same : program.programID = msg.programID)
    (taken : step ctx (.withdrawProgram msg) = some next) :
    next = { ctx with budget := next.budget } := by
  have unqueued : ∀ endBlock, ctx.budget.candQueueHas endBlock msg.programID = false := by
    intro endBlock
    simp only [BudgetStore.candQueueHas, ← same, active.2 endBlock, Option.isSome_none]
  cases taken
  rcases ctx.deliver_cases (handleMsgWithdrawProgram ctx msg) with ⟨result, done⟩ | ⟨-, same⟩
  · rcases withdrawal_moves done with ⟨found, -, -, moves⟩
    rw [unqueued, if_neg Bool.false_ne_true] at moves
    exact moves
  · rw [same]

/-- Deposits are burned once, at the submission, and minted back once at most, to
the submitter who withdraws the program before its vote ends. -/
theorem deposits_refunded_once {params : Params} {start ctx : Context L}
    {actions : List (Action L)} (votePeriod : 0 < params.votePeriod)
    (initial : start.budget = BudgetStore.initial params)
    (constantParams : ∀ action ∈ actions, ∀ params, action ≠ .setParams params)
    (reached : Reaches step start actions ctx) : DepositsKept params start actions ctx := by
  have startConsistent := initial_consistent votePeriod initial
  have consistent := reaches_consistent reached startConsistent
  have sameParams : ctx.budget.params = params := by
    rw [reaches_params reached constantParams, initial]
    rfl
  have moves : ∀ action next, step ctx action = some next → action ≠ .endBlock →
      (∀ change, action ≠ .elsewhere change) →
        ∃ paid, (transfersNow ctx action).foldlM (Transfer.execute params.deposit) ctx =
          .ok paid ∧ next = { paid with budget := next.budget } := by
    intro action next taken notEnded here
    rw [← sameParams]
    exact step_moves taken notEnded here
  constructor
  · exact moves
  · intro action next taken notEnded here address denom
    rcases moves action next taken notEnded here with ⟨paid, done, nextEq⟩
    rw [nextEq]
    exact Transfer.execute_balances done address denom
  · intro tags after done
    exact endBlocker_onlyRewards done
  · intro msg program next active same taken
    exact withdraw_decided active same taken
  · intro msg refused
    exact withdraw_refused refused
  · intro fits msg result submitted handled later final reachedLater
    rw [← sameParams] at fits
    have tracked := tracked_of_submitted consistent fits handled
    rw [sameParams] at tracked
    have taken := step_submitProgram handled
    rcases tracked.refunds later with ⟨refunds, once, own⟩
    refine ⟨?_, once, own⟩
    rw [record_append reached, record_cons taken, transfersOf_submission handled,
      record_transfersOf_of_unissued startConsistent reached (Nat.lt_succ_self _)]
    exact congrArg (List.cons _) refunds

/-- Another account cannot withdraw the program, and its submitter only once. -/
example :
    record step transfersNow sampleStart (sampleActions ++
      [.withdrawProgram ⟨1, List.replicate 20 5⟩, .withdrawProgram ⟨1, List.replicate 20 3⟩,
        .withdrawProgram ⟨1, List.replicate 20 3⟩]) =
      [⟨1, List.replicate 20 3, false, 0⟩, ⟨1, List.replicate 20 3, true, 1⟩] := by
  decide +kernel

theorem deposits_refunded_once_sample :
    ∃ ctx : Context Book, Reaches step sampleStart sampleActions ctx ∧
      ctx.budget.votes[(1, (List.replicate 20 1 : Address))]? = some true ∧
      DepositsKept sampleParams sampleStart sampleActions ctx := by
  rcases Option.map_eq_some_iff.mp sampleActions_stores_vote with ⟨ctx, performed, voted⟩
  have reached := reaches_of_perform performed
  exact ⟨ctx, reached, voted,
    deposits_refunded_once (by decide) rfl (by simp [sampleActions]) reached⟩

end TerraCore.Budget
