import TerraCore.Budget.Consistency
import TerraCore.Library.Keyspace

/-!
# The budget as a collection of proposals

All programs share the store of the module and the loops of its end blocker. A
proposal is what the store keeps of one program, with rules of its own for the
messages about the program and for the end of a block. In every run, each
program is as its proposal says, whatever happens to the other programs.
-/

namespace TerraCore.Budget

open Transition

/-- What the budget keeps of a program. -/
structure Proposal where
  params : Params
  program : Option Program
  votes : Store Address Bool
  candidate : Bool

/-- The proposal in the store. -/
def proposal (store : BudgetStore) (programID : ℕ) : Proposal where
  params := store.params
  program := store.programs[programID]?
  votes := Store.part store.votes programID
  candidate := (store.programs[programID]?).any (isQueued store)

namespace Proposal

variable (staking : Staking) (height : ℕ) (proposal : Proposal)

/-- Yes votes minus no votes, in bonded tokens. -/
def power : ℤ := Store.sum (signedPower staking) proposal.votes

/-- The votes that a tally leaves: those of former validators are deleted. -/
def counted : Store Address Bool :=
  proposal.votes.filter fun voter _ =>
    decide ¬(Readable voter ∧ staking.validator voter = none)

def deleted : Proposal := { proposal with program := none, votes := ∅, candidate := false }

/-- A proposal below the threshold is deleted. -/
def settle (threshold : Dec) : Proposal :=
  if ClearsThreshold (proposal.power staking) staking.bondedTokens threshold then
    { proposal with votes := proposal.counted staking, candidate := false }
  else proposal.deleted

/-- The vote on the candidate has ended. -/
def Due : Prop :=
  proposal.candidate = true ∧
    ∃ program ∈ proposal.program, program.getVotingEndBlock proposal.params ≤ height

instance : Decidable (proposal.Due height) := inferInstanceAs (Decidable (_ ∧ ∃ _ ∈ _, _))

/-- A candidate is decided when its vote has ended. -/
def decide : Proposal :=
  if proposal.Due height then proposal.settle staking proposal.params.activeThreshold else proposal

def IsActive : Prop := proposal.program.isSome ∧ proposal.candidate = false

instance : Decidable proposal.IsActive := inferInstanceAs (Decidable (_ ∧ _))

/-- An active program is weighed. -/
def weigh : Proposal :=
  if proposal.IsActive then proposal.settle staking proposal.params.legacyThreshold else proposal

/-- The height ends a vote period. -/
def PeriodEnds : Prop := ((height : ℤ) + 1).tmod proposal.params.votePeriod = 0

instance : Decidable (proposal.PeriodEnds height) := inferInstanceAs (Decidable (_ = _))

def endBlock : Proposal :=
  if proposal.PeriodEnds height then (proposal.decide staking height).weigh staking
  else proposal.decide staking height

/-- A validator may vote on every stored program. -/
def AcceptsVote (bonded : Bool) : Prop := proposal.program.isSome ∧ bonded = true

instance (bonded : Bool) : Decidable (proposal.AcceptsVote bonded) :=
  inferInstanceAs (Decidable (_ ∧ _))

/-- The submitter may withdraw the program, a candidate only when the deposit can be minted. -/
def AcceptsWithdrawal (submitter : Address) : Prop :=
  (∃ program ∈ proposal.program, program.submitter = submitter) ∧
    (proposal.candidate = true →
      validateDenom proposal.params.deposit.denom = true ∧ 0 < proposal.params.deposit.amount)

instance (submitter : Address) : Decidable (proposal.AcceptsWithdrawal submitter) :=
  inferInstanceAs (Decidable ((∃ _ ∈ _, _) ∧ (_ → _)))

end Proposal

/-- What concerns one program. -/
inductive Notice where
  | submit (program : Program)
  | vote (voter : Address) (option bonded : Bool)
  | withdraw (submitter : Address)
  | endBlock (staking : Staking) (height : ℕ)
  | setParams (params : Params)

/-- The rules of the budget for one program. -/
def Proposal.follow (proposal : Proposal) : Notice → Proposal
  | .submit program => { proposal with program := some program, candidate := true }
  | .vote voter option bonded =>
      if proposal.AcceptsVote bonded then
        { proposal with votes := proposal.votes.insert voter option }
      else proposal
  | .withdraw submitter =>
      if proposal.AcceptsWithdrawal submitter then proposal.deleted else proposal
  | .endBlock staking height => proposal.endBlock staking height
  | .setParams params =>
      { proposal with params := { params with votePeriod := proposal.params.votePeriod } }

section Stored

variable (staking : Staking) {store : BudgetStore} {programID : ℕ} {program : Program}

theorem proposal_program (store : BudgetStore) (programID : ℕ) :
    (proposal store programID).program = store.programs[programID]? := rfl

theorem proposal_votes (store : BudgetStore) (programID : ℕ) (voter : Address) :
    (proposal store programID).votes[voter]? = store.votes[(programID, voter)]? :=
  Store.get_part _ _ _

/-- Where the records of the program are the same, so is the proposal. -/
theorem Agree.proposal_eq {left right : BudgetStore} (agree : Agree programID left right) :
    proposal left programID = proposal right programID := by
  have sameVotes : Store.part left.votes programID = Store.part right.votes programID := by
    apply Store.ext_get
    intro voter
    simp [agree.votes voter]
  have sameQueue : (left.programs[programID]?).any (Budget.isQueued left) =
      (right.programs[programID]?).any (Budget.isQueued right) := by
    rw [agree.program]
    cases stored : right.programs[programID]? with
    | none => rfl
    | some program =>
        have keyed := right.programs_keyed _ _ stored
        subst keyed
        exact agree.isQueued
  rw [proposal, agree.params, sameVotes, sameQueue, agree.program]
  rfl

theorem proposal_power (store : BudgetStore) (programID : ℕ) :
    (proposal store programID).power staking = votePower staking store programID :=
  (Store.sum_part (signedPower staking) store.votes programID).symm

theorem candidate_of_stored (stored : store.programs[programID]? = some program) :
    (proposal store programID).candidate = isQueued store program := by
  simp [proposal, stored]

theorem isQueued_settle (keep : Bool) :
    isQueued (settle staking store programID keep) program = isQueued store program := by
  simp only [isQueued, BudgetStore.candQueueHas, settle_candQueue,
    (settle_sameRest staking store programID keep).1]

theorem proposal_settle_keep (stored : store.programs[programID]? = some program) :
    proposal (settle staking store programID true) programID =
      { proposal store programID with votes := (proposal store programID).counted staking } := by
  have programs : (settle staking store programID true).programs[programID]? = some program := by
    rw [get_settle_programs, if_neg (by simp), stored]
  have votes : Store.part (settle staking store programID true).votes programID =
      (proposal store programID).counted staking := by
    apply Store.ext_get
    intro voter
    rw [Store.get_part, get_settle_votes, Proposal.counted, Std.ExtTreeMap.getElem?_filter',
      proposal_votes]
    cases present : store.votes[(programID, voter)]? with
    | none => simp
    | some option =>
        by_cases stale : Readable voter ∧ staking.validator voter = none
        · simp [Stale, stale]
        · simp [Stale, stale, Option.filter]
  have sameRest := settle_sameRest staking store programID true
  simp only [proposal, programs, stored, votes, sameRest.1, Option.any_some, isQueued_settle]

theorem proposal_settle_drop :
    proposal (settle staking store programID false) programID =
      (proposal store programID).deleted := by
  have programs : (settle staking store programID false).programs[programID]? = none := by
    rw [get_settle_programs, if_pos ⟨rfl, rfl⟩]
  have votes : Store.part (settle staking store programID false).votes programID = ∅ := by
    apply Store.ext_get
    intro voter
    rw [Store.get_part, get_settle_votes, if_pos ⟨rfl, rfl⟩]
    simp
  have sameRest := settle_sameRest staking store programID false
  simp only [proposal, Proposal.deleted, programs, votes, sameRest.1, Option.any_none]

theorem proposal_candQueueRemove (stored : store.programs[programID]? = some program) :
    proposal (store.candQueueRemove (program.getVotingEndBlock store.params) programID) programID =
      { proposal store programID with candidate := false } := by
  have keyed : program.programID = programID := store.programs_keyed _ _ stored
  have removed : isQueued (store.candQueueRemove (program.getVotingEndBlock store.params)
      programID) program = false := by
    simp only [isQueued, BudgetStore.candQueueHas, BudgetStore.get_candQueueRemove, keyed]
    simp [BudgetStore.candQueueRemove]
  have candidate : ((store.candQueueRemove (program.getVotingEndBlock store.params)
      programID).programs[programID]?).any (isQueued (store.candQueueRemove
        (program.getVotingEndBlock store.params) programID)) = false := by
    simp only [BudgetStore.candQueueRemove] at removed ⊢
    simp [stored, removed]
  simp only [proposal, candidate]
  rfl

theorem proposal_decideCandidate (stored : store.programs[programID]? = some program) :
    proposal (decideCandidate staking store programID) programID =
      (proposal store programID).settle staking store.params.activeThreshold := by
  rw [decideCandidate_of_stored staking stored]
  have sameParams := fun keep => (settle_sameRest staking store programID keep).1
  by_cases passes : Passes staking store programID
  · have kept : (settle staking store programID true).programs[programID]? = some program := by
      rw [get_settle_programs, if_neg (by simp), stored]
    have removed := proposal_candQueueRemove kept
    rw [sameParams, proposal_settle_keep staking stored] at removed
    rw [decide_eq_true passes, removed, Proposal.settle, proposal_power]
    exact (if_pos passes).symm
  · have dropped : (settle staking store programID false).programs[programID]? = none := by
      rw [get_settle_programs, if_pos ⟨rfl, rfl⟩]
    have same : proposal ((settle staking store programID false).candQueueRemove
        (program.getVotingEndBlock store.params) programID) programID =
        proposal (settle staking store programID false) programID := by
      have missing : ((settle staking store programID false).candQueueRemove
          (program.getVotingEndBlock store.params) programID).programs[programID]? = none := dropped
      simp only [proposal, missing, dropped]
      rfl
    rw [decide_eq_false passes, same, proposal_settle_drop, Proposal.settle, proposal_power]
    exact (if_neg passes).symm

/-- A candidate is visited by the first loop when its vote has ended. -/
theorem WellFormed.due_iff (wellFormed : WellFormed store) (height : ℕ) :
    (proposal store programID).Due height ↔ programID ∈ store.expiredCandidates height := by
  rw [BudgetStore.mem_expiredCandidates_iff]
  constructor
  · rintro ⟨candidate, program, stored, ended⟩
    replace stored : store.programs[programID]? = some program := stored
    have keyed := store.programs_keyed _ _ stored
    subst keyed
    rw [candidate_of_stored stored] at candidate
    rcases Option.isSome_iff_exists.mp candidate with ⟨found, present⟩
    rw [store.candQueue_keyed _ _ present] at present
    exact ⟨_, ended, present⟩
  · rintro ⟨due, ended, present⟩
    rcases wellFormed.queued _ _ present with ⟨program, stored, ends⟩
    have keyed : program.programID = programID := store.programs_keyed _ _ stored
    subst keyed
    refine ⟨?_, program, stored, by rw [proposal]; simpa [ends] using ended⟩
    rw [candidate_of_stored stored]
    exact wellFormed.isQueued_of_present stored present

theorem WellFormed.proposal_decideCandidates (wellFormed : WellFormed store) (height : ℕ) :
    proposal (Budget.decideCandidates staking height store) programID =
      (proposal store programID).decide staking height := by
  by_cases due : (proposal store programID).Due height
  · rcases due.2 with ⟨program, stored, -⟩
    have agree := decideCandidates_of_expired staking (wellFormed.expiredCandidates_nodup height)
      ((wellFormed.due_iff height).mp due)
    rw [agree.proposal_eq, proposal_decideCandidate staking stored, Proposal.decide, if_pos due]
    rfl
  · have agree := decideCandidates_of_pending staking
      (fun listed => due ((wellFormed.due_iff height).mpr listed))
    rw [agree.proposal_eq, Proposal.decide, if_neg due]

theorem proposal_weighedAll (store : BudgetStore) (programID : ℕ) :
    proposal (weighedAll staking store) programID = (proposal store programID).weigh staking := by
  cases stored : store.programs[programID]? with
  | none =>
      have agree : Agree programID (weighedAll staking store) store := by
        apply Locality.foldl_of_not_mem Agree.equivalence (weighed_framed staking)
        rw [programsOf_ids, Store.mem_keys_iff, stored]
        simp
      rw [agree.proposal_eq, Proposal.weigh, if_neg]
      simp [Proposal.IsActive, proposal_program, stored]
  | some program =>
      have keyed := store.programs_keyed _ _ stored
      subst keyed
      rw [(weighedAll_of_stored staking stored).proposal_eq, Proposal.weigh, weighed]
      have isActive : (proposal store program.programID).IsActive ↔
          isQueued store program = false := by
        simp [Proposal.IsActive, proposal_program, stored, candidate_of_stored stored]
      by_cases queued : isQueued store program = true
      · rw [if_pos queued, if_neg (by simp [isActive, queued])]
      · rw [if_neg queued, if_pos (by simpa [isActive] using queued), Proposal.settle,
          proposal_power]
        have candidate : (proposal store program.programID).candidate = false := by
          simpa [candidate_of_stored stored] using queued
        by_cases survives : Survives staking store program.programID
        · rw [decide_eq_true survives, proposal_settle_keep staking stored]
          refine Eq.trans ?_ (if_pos survives).symm
          simp [candidate]
        · rw [decide_eq_false survives, proposal_settle_drop]
          exact (if_neg survives).symm

end Stored

section Messages

variable {store : BudgetStore} {programID : ℕ} {program : Program}

theorem addCandidate_frame (store : BudgetStore) (msg : MsgSubmitProgram) (height : ℕ)
    (other : lastProgramID store + 1 ≠ programID) :
    Agree programID (addCandidate store msg height) store where
  params := rfl
  program := by rw [addCandidate_programs, if_neg other]
  votes voter := rfl
  queue endBlock := by
    rw [addCandidate_candQueue, if_neg]
    intro same
    exact other (congrArg Prod.snd same)

theorem proposal_addCandidate (store : BudgetStore) (msg : MsgSubmitProgram) (height : ℕ) :
    proposal (addCandidate store msg height) (lastProgramID store + 1) =
      { proposal store (lastProgramID store + 1) with
        program := some (submission store msg height), candidate := true } := by
  have stored : (addCandidate store msg height).programs[lastProgramID store + 1]? =
      some (submission store msg height) := by
    rw [addCandidate_programs, if_pos rfl]
  have queued : isQueued (addCandidate store msg height) (submission store msg height) = true := by
    simp only [isQueued, BudgetStore.candQueueHas, addCandidate_candQueue]
    rw [if_pos]
    · rfl
    · rfl
  have candidate : ((addCandidate store msg height).programs[lastProgramID store + 1]?).any
      (isQueued (addCandidate store msg height)) = true := by
    rw [stored]
    exact queued
  rw [proposal, candidate, stored]
  rfl

theorem withdrawn_frame (store : BudgetStore) (program : Program) {withdrawnID : ℕ}
    (other : withdrawnID ≠ programID) :
    Agree programID (withdrawn store program withdrawnID) store where
  params := rfl
  program := by rw [withdrawn_programs, if_neg other]
  votes voter := by rw [withdrawn_votes, if_neg fun same => other same.symm]
  queue endBlock := by
    rw [withdrawn_candQueue, if_neg]
    intro same
    exact other (congrArg Prod.snd same)

theorem proposal_withdrawn (store : BudgetStore) (program : Program) (programID : ℕ) :
    proposal (withdrawn store program programID) programID =
      (proposal store programID).deleted := by
  have missing : (withdrawn store program programID).programs[programID]? = none := by
    rw [withdrawn_programs, if_pos rfl]
  have votes : Store.part (withdrawn store program programID).votes programID = ∅ := by
    apply Store.ext_get
    intro voter
    rw [Store.get_part, withdrawn_votes, if_pos rfl]
    simp
  have candidate : ((withdrawn store program programID).programs[programID]?).any
      (isQueued (withdrawn store program programID)) = false := by
    simp [missing]
  rw [proposal, candidate, missing, votes]
  rfl

theorem addVote_frame (store : BudgetStore) {votedID : ℕ} (voter : Address) (option : Bool)
    (other : votedID ≠ programID) : Agree programID (store.addVote votedID voter option) store where
  params := rfl
  program := rfl
  votes found := by
    rw [BudgetStore.get_addVote, if_neg]
    intro same
    exact other (congrArg Prod.fst same)
  queue _ := rfl

theorem proposal_addVote (store : BudgetStore) (programID : ℕ) (voter : Address) (option : Bool) :
    proposal (store.addVote programID voter option) programID =
      { proposal store programID with
        votes := (proposal store programID).votes.insert voter option } := by
  have votes : Store.part (store.addVote programID voter option).votes programID =
      (proposal store programID).votes.insert voter option := by
    apply Store.ext_get
    intro found
    rw [Store.get_part, BudgetStore.get_addVote, Store.get_insert, proposal_votes]
    simp
  rw [proposal, votes]
  rfl

end Messages

variable {L : Type} [Sdk L]

omit [Sdk L] in
/-- A vote is accepted by the rule of the proposal. -/
theorem handleMsgVoteProgram_isOk (ctx : Context L) (msg : MsgVoteProgram) :
    (∃ done, handleMsgVoteProgram ctx msg = .ok done) ↔
      (proposal ctx.budget msg.programID).AcceptsVote
        (ctx.staking.validator msg.voter).isSome := by
  simp only [handleMsgVoteProgram, Proposal.AcceptsVote, proposal_program]
  cases ctx.budget.programs[msg.programID]? with
  | none => simp
  | some program => cases ctx.staking.validator msg.voter <;> simp

theorem withdrawCandidate_isOk (ctx : Context L) (program : Program) (msg : MsgWithdrawProgram) :
    (∃ after, withdrawCandidate ctx program msg = .ok after) ↔
      (ctx.budget.candQueueHas (program.getVotingEndBlock ctx.budget.params) msg.programID = true →
        validateDenom ctx.budget.params.deposit.denom = true ∧
          0 < ctx.budget.params.deposit.amount) := by
  simp only [withdrawCandidate]
  by_cases queued : ctx.budget.candQueueHas (program.getVotingEndBlock ctx.budget.params)
      msg.programID = true
  · rw [if_pos queued]
    generalize removedEq : ctx.budget.candQueueRemove
      (program.getVotingEndBlock ctx.budget.params) msg.programID = removed
    have sameParams : removed.params = ctx.budget.params := by rw [← removedEq]; rfl
    have refunds := Mint.mint_isOk_iff { ctx with budget := removed } program.submitter
      ctx.budget.params.deposit
    simp only [queued, forall_const]
    rw [← refunds]
    constructor
    · rintro ⟨after, done⟩
      split at done
      · cases done
      · rw [refundDeposit, sameParams] at done
        exact ⟨after, done⟩
    · rintro ⟨after, minted⟩
      refine ⟨after, ?_⟩
      split
      · next failed =>
          rw [refundDeposit, sameParams] at failed
          cases minted.symm.trans failed
      · rw [refundDeposit, sameParams]
        exact minted
  · simp [queued]

/-- A withdrawal is accepted by the rule of the proposal. -/
theorem handleMsgWithdrawProgram_isOk (ctx : Context L) (msg : MsgWithdrawProgram) :
    (∃ done, handleMsgWithdrawProgram ctx msg = .ok done) ↔
      (proposal ctx.budget msg.programID).AcceptsWithdrawal msg.submitter := by
  simp only [handleMsgWithdrawProgram, Proposal.AcceptsWithdrawal, proposal_program]
  cases stored : ctx.budget.programs[msg.programID]? with
  | none => simp
  | some program =>
      have keyed : program.programID = msg.programID := ctx.budget.programs_keyed _ _ stored
      have withdraws := withdrawCandidate_isOk ctx program msg
      rw [candidate_of_stored stored, isQueued, keyed]
      by_cases own : program.submitter = msg.submitter
      · simp only [own, ne_eq, not_true_eq_false, if_false, Option.mem_some_iff, exists_eq_left',
          true_and]
        refine Iff.trans ?_ withdraws
        constructor
        · rintro ⟨done, handled⟩
          rcases Outcome.bind_eq_ok.mp handled with ⟨after, withdrew, -⟩
          exact ⟨after, withdrew⟩
        · rintro ⟨after, withdrew⟩
          exact ⟨_, Outcome.bind_eq_ok.mpr ⟨after, withdrew, rfl⟩⟩
      · simp [own]

omit [Sdk L] in
theorem proposal_blockEnd {ctx : Context L} (wellFormed : WellFormed ctx.budget) (programID : ℕ) :
    proposal (blockEnd ctx) programID =
      (proposal ctx.budget programID).endBlock ctx.staking ctx.height := by
  have decided : proposal (decideCandidates ctx.staking ctx.height ctx.budget) programID =
      (proposal ctx.budget programID).decide ctx.staking ctx.height :=
    wellFormed.proposal_decideCandidates ctx.staking ctx.height
  by_cases last : ctx.LastBlock ctx.budget.params.votePeriod
  · rw [blockEnd, if_pos last, proposal_weighedAll, Budget.decided, decided]
    exact (if_pos last).symm
  · rw [blockEnd, if_neg last, Budget.decided, decided]
    exact (if_neg last).symm

theorem SameRecords.proposal_eq {left right : BudgetStore} (same : SameRecords left right)
    (programID : ℕ) : proposal left programID = proposal right programID := by
  apply Agree.proposal_eq
  exact ⟨same.params, by rw [same.programs], fun _ => by rw [same.votes],
    fun _ => by rw [same.candQueue]⟩

/-- What an action has to do with a program. -/
def notice (programID : ℕ) (ctx : Context L) : Action L → List Notice
  | .submitProgram msg =>
      match handleMsgSubmitProgram ctx msg with
      | .ok _ =>
          if lastProgramID ctx.budget + 1 = programID then
            [.submit (submission ctx.budget msg ctx.height)]
          else []
      | .error _ => []
  | .withdrawProgram msg => if msg.programID = programID then [.withdraw msg.submitter] else []
  | .voteProgram msg =>
      if msg.programID = programID then
        [.vote msg.voter msg.option (ctx.staking.validator msg.voter).isSome]
      else []
  | .endBlock => [.endBlock ctx.staking ctx.height]
  | .setParams params => [.setParams params]
  | .elsewhere _ => []

theorem step_proposal {ctx next : Context L} {action : Action L} (consistent : Consistent ctx)
    (taken : step ctx action = some next) (programID : ℕ) :
    proposal next.budget programID =
      (notice programID ctx action).foldl Proposal.follow (proposal ctx.budget programID) := by
  cases action with
  | submitProgram msg =>
      cases taken
      simp only [notice]
      cases handled : handleMsgSubmitProgram ctx msg with
      | error failure => rfl
      | ok done =>
          have budget := (handleMsgSubmitProgram_eq_ok handled).2.1
          simp only [Context.deliver, budget]
          by_cases here : lastProgramID ctx.budget + 1 = programID
          · subst here
            simp [proposal_addCandidate, Proposal.follow]
          · rw [if_neg here]
            exact (addCandidate_frame _ _ _ here).proposal_eq
  | withdrawProgram msg =>
      cases taken
      simp only [notice]
      cases handled : handleMsgWithdrawProgram ctx msg with
      | error failure =>
          have refused : ¬(proposal ctx.budget msg.programID).AcceptsWithdrawal msg.submitter := by
            rw [← handleMsgWithdrawProgram_isOk, handled]
            simp
          by_cases here : msg.programID = programID
          · subst here
            simp [Context.deliver, Proposal.follow, refused]
          · simp [Context.deliver, here]
      | ok done =>
          rcases handleMsgWithdrawProgram_eq_ok handled with ⟨program, -, -, budget, -⟩
          simp only [Context.deliver, budget]
          by_cases here : msg.programID = programID
          · subst here
            have accepted := (handleMsgWithdrawProgram_isOk ctx msg).mp ⟨done, handled⟩
            simp [proposal_withdrawn, Proposal.follow, accepted]
          · rw [if_neg here]
            exact (withdrawn_frame _ _ here).proposal_eq
  | voteProgram msg =>
      cases taken
      simp only [notice]
      cases handled : handleMsgVoteProgram ctx msg with
      | error failure =>
          have refused : ¬(proposal ctx.budget msg.programID).AcceptsVote
              (ctx.staking.validator msg.voter).isSome := by
            rw [← handleMsgVoteProgram_isOk, handled]
            simp
          by_cases here : msg.programID = programID
          · subst here
            simp [Context.deliver, Proposal.follow, refused]
          · simp [Context.deliver, here]
      | ok done =>
          have after := (handleMsgVoteProgram_eq_ok handled).2
          simp only [Context.deliver, after]
          by_cases here : msg.programID = programID
          · subst here
            have accepted := (handleMsgVoteProgram_isOk ctx msg).mp ⟨done, handled⟩
            simp [proposal_addVote, Proposal.follow, accepted]
          · rw [if_neg here]
            exact (addVote_frame _ _ _ here).proposal_eq
  | endBlock =>
      cases step_effect taken with
      | kept notEnded => exact absurd rfl notEnded
      | ended _ budget =>
          rw [budget, (rewarded_sameRecords ctx).proposal_eq, proposal_blockEnd consistent.wellFormed]
          rfl
  | setParams params =>
      cases taken
      rfl
  | elsewhere change =>
      cases taken
      rfl

/-- In every run, what the budget keeps of a program is the result of what
concerned the program under its own rules, and so are the answers to the
messages about it. -/
theorem proposal_refines {start finish : Context L} {actions : List (Action L)}
    (consistent : Consistent start) (reached : Reaches step start actions finish)
    (programID : ℕ) :
    let local_ := (record step (notice programID) start actions).foldl Proposal.follow
      (proposal start.budget programID)
    proposal finish.budget programID = local_ ∧
      (∀ msg : MsgVoteProgram, msg.programID = programID →
        ((∃ done, handleMsgVoteProgram finish msg = .ok done) ↔
          local_.AcceptsVote (finish.staking.validator msg.voter).isSome)) ∧
      ∀ msg : MsgWithdrawProgram, msg.programID = programID →
        ((∃ done, handleMsgWithdrawProgram finish msg = .ok done) ↔
          local_.AcceptsWithdrawal msg.submitter) := by
  intro local_
  have refined : proposal finish.budget programID = local_ := by
    apply reached.follows_record Consistent ?_ consistent
    intro before action after holds taken
    exact ⟨step_proposal holds taken programID, step_consistent taken holds⟩
  refine ⟨refined, ?_, ?_⟩
  · rintro msg rfl
    rw [← refined]
    exact handleMsgVoteProgram_isOk finish msg
  · rintro msg rfl
    rw [← refined]
    exact handleMsgWithdrawProgram_isOk finish msg

theorem proposal_refines_sample :
    ∃ finish : Context Book, Reaches step sampleStart sampleActions finish ∧
      (proposal finish.budget 1).votes[(List.replicate 20 1 : Address)]? = some true ∧
      (proposal finish.budget 1).candidate = true := by
  have finishes : (perform step sampleStart sampleActions).isSome = true := by
    decide +kernel
  rcases Option.isSome_iff_exists.mp finishes with ⟨finish, performed⟩
  have reached := reaches_of_perform performed
  have refined := (proposal_refines
    (initial_consistent sampleParams_valid.votePeriod rfl) reached 1).1
  refine ⟨finish, reached, ?_, ?_⟩
  · rw [refined]
    decide +kernel
  · rw [refined]
    decide +kernel

end TerraCore.Budget
