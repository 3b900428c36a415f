import TerraCore.Budget.Executors
import TerraCore.Budget.Proposals
import TerraCore.ClaimPool

/-!
# What programs earn in an epoch

At the end of a vote period every active proposal earns what its votes weigh.
The store adds these weights up under the executors and forgets them when the
epoch is paid. In every run the rewards of an epoch are therefore shared in
proportion to what the proposals earned since the last epoch ended.
-/

namespace TerraCore.Budget

open Transition

namespace Proposal

variable (staking : Staking) (height : ℕ) (proposal : Proposal)

/-- An active proposal above the threshold earns its power for its executor. -/
def grant : List (Claim ℤ) :=
  match proposal.program with
  | some program =>
      if proposal.candidate = false ∧ ClearsThreshold (proposal.power staking)
          staking.bondedTokens proposal.params.legacyThreshold then
        [⟨proposal.power staking, program.executor⟩]
      else []
  | none => []

/-- What the proposal earns with the end of a block. -/
def earns : List (Claim ℤ) :=
  if proposal.PeriodEnds height then (proposal.decide staking height).grant staking else []

end Proposal

theorem proposal_grant (staking : Staking) {store : BudgetStore} {program : Program}
    (stored : store.programs[program.programID]? = some program) :
    (proposal store program.programID).grant staking = grant staking store program := by
  simp only [Proposal.grant, proposal_program, stored, grant, proposal_power,
    candidate_of_stored stored]
  by_cases queued : isQueued store program = true
  · simp [queued]
  · simp [queued]
    rfl

variable {L : Type}

theorem dueGrant_eq {ctx : Context L} (wellFormed : WellFormed ctx.budget) {program : Program}
    (stored : ctx.budget.programs[program.programID]? = some program) :
    dueGrant ctx program =
      ((proposal ctx.budget program.programID).decide ctx.staking ctx.height).grant
        ctx.staking := by
  have found : dueGrant ctx program =
      if (decided ctx).programs[program.programID]? = some program then
        grant ctx.staking (decided ctx) program
      else [] := by
    by_cases expired : program.programID ∈ ctx.budget.expiredCandidates ctx.height
    · exact dueGrant_of_expired wellFormed stored expired
    · exact dueGrant_of_pending stored expired
  rw [found, ← wellFormed.proposal_decideCandidates]
  change _ = (proposal (decided ctx) program.programID).grant ctx.staking
  cases still : (decided ctx).programs[program.programID]? with
  | none => simp [Proposal.grant, proposal_program, still]
  | some other =>
      have same := (decideCandidates_shrinks _ _ _).programs _ _ still
      rw [stored] at same
      cases same
      rw [if_pos rfl, proposal_grant ctx.staking still]

/-- What all programs earn in an action, with the epoch in which they earn it. -/
def earnings (ctx : Context L) : Action L → List (ℤ × Claim ℤ)
  | .endBlock => (programsOf ctx.budget).flatMap fun program =>
      ((proposal ctx.budget program.programID).earns ctx.staking ctx.height).map
        (Prod.mk ctx.getEpoch)
  | _ => []

/-- What was earned in an epoch. -/
def earnedIn (epoch : ℤ) (record : List (ℤ × Claim ℤ)) : List (Claim ℤ) :=
  (record.filter fun entry => entry.1 = epoch).map Prod.snd

theorem earnedIn_append (epoch : ℤ) (first second : List (ℤ × Claim ℤ)) :
    earnedIn epoch (first ++ second) = earnedIn epoch first ++ earnedIn epoch second := by
  simp [earnedIn]

theorem mem_earnings {ctx : Context L} {action : Action L} {entry : ℤ × Claim ℤ}
    (listed : entry ∈ earnings ctx action) : entry.1 = ctx.getEpoch := by
  cases action with
  | endBlock =>
      simp only [earnings, List.mem_flatMap, List.mem_map] at listed
      rcases listed with ⟨_, -, _, -, rfl⟩
      rfl
  | _ => simp [earnings] at listed

theorem earnedIn_earnings (ctx : Context L) (action : Action L) :
    earnedIn ctx.getEpoch (earnings ctx action) = (earnings ctx action).map Prod.snd := by
  rw [earnedIn, List.filter_eq_self.mpr]
  intro entry listed
  exact decide_eq_true (mem_earnings listed)

/-- The claims that are due are those of the store and what the programs earn now. -/
theorem dueClaims_eq {ctx : Context L} (wellFormed : WellFormed ctx.budget) :
    dueClaims ctx =
      addClaims ctx.budget.claims ((earnings ctx .endBlock).map Prod.snd) := by
  have listed : (earnings ctx .endBlock).map Prod.snd =
      (programsOf ctx.budget).flatMap fun program =>
        (proposal ctx.budget program.programID).earns ctx.staking ctx.height := by
    simp [earnings, List.map_flatMap, Function.comp_def]
  rw [listed, dueClaims]
  by_cases last : ctx.LastBlock ctx.budget.params.votePeriod
  · rw [if_pos last]
    congr 1
    apply List.flatMap_congr
    intro program programMem
    rw [dueGrant_eq wellFormed ((mem_programsOf_iff ctx.budget program).mp programMem)]
    exact (if_pos last).symm
  · have nothing : ∀ program ∈ programsOf ctx.budget,
        (proposal ctx.budget program.programID).earns ctx.staking ctx.height = [] :=
      fun _ _ => if_neg last
    rw [if_neg last, List.flatMap_eq_nil_iff.mpr nothing]
    rfl

theorem epoch_of_not_last {ctx : Context L} (notLast : ¬ctx.LastBlock blocksPerEpoch) :
    (((ctx.height + 1) / blocksPerEpoch : ℕ) : ℤ) = ctx.getEpoch := by
  rw [Context.lastBlock_natCast] at notLast
  have positive : 0 < blocksPerEpoch := by decide
  have unchanged : (ctx.height + 1) / blocksPerEpoch = ctx.height / blocksPerEpoch := by
    rw [Nat.succ_div, if_neg, add_zero]
    exact fun divides => notLast (Nat.mod_eq_zero_of_dvd divides)
  rw [unchanged]
  rfl

theorem epoch_of_last {ctx : Context L} (last : ctx.LastBlock blocksPerEpoch) :
    (((ctx.height + 1) / blocksPerEpoch : ℕ) : ℤ) = ctx.getEpoch + 1 := by
  rw [Context.lastBlock_natCast] at last
  have next : (ctx.height + 1) / blocksPerEpoch = ctx.height / blocksPerEpoch + 1 := by
    rw [Nat.succ_div, if_pos (Nat.dvd_of_mod_eq_zero last)]
  rw [next]
  push_cast
  rfl

variable [Sdk L]

/-- The store keeps what was earned since the last epoch ended. -/
structure Accrued (record : List (ℤ × Claim ℤ)) (ctx : Context L) : Prop where
  claims : ctx.budget.claims = addClaims ∅ (earnedIn ctx.getEpoch record)
  epochs : ∀ entry ∈ record, entry.1 ≤ ctx.getEpoch

omit [Sdk L] in
theorem Accrued.dueClaims {record : List (ℤ × Claim ℤ)} {ctx : Context L}
    (accrued : Accrued record ctx) (wellFormed : WellFormed ctx.budget) :
    dueClaims ctx =
      addClaims ∅ (earnedIn ctx.getEpoch (record ++ earnings ctx .endBlock)) := by
  rw [dueClaims_eq wellFormed, accrued.claims, earnedIn_append, earnedIn_earnings]
  simp [addClaims, Store.accumulateAll_append]

theorem step_accrued {record : List (ℤ × Claim ℤ)} {ctx next : Context L} {action : Action L}
    (taken : step ctx action = some next) (consistent : Consistent ctx)
    (executors : Executors (fun executor => executor.length = addrLen) ctx.budget)
    (accrued : Accrued record ctx) : Accrued (record ++ earnings ctx action) next := by
  -- Only the end of a block touches the claims.
  have still (height : next.height = ctx.height) (claims : next.budget.claims = ctx.budget.claims)
      (nothing : earnings ctx action = []) : Accrued (record ++ earnings ctx action) next := by
    have epoch : next.getEpoch = ctx.getEpoch := by simp only [Context.getEpoch, height]
    rw [nothing, List.append_nil]
    exact ⟨by rw [claims, epoch, accrued.claims], by rw [epoch]; exact accrued.epochs⟩
  cases step_effect taken with
  | kept notEnded height budget =>
      apply still height (by rw [budget])
      cases action with
      | endBlock => exact absurd rfl notEnded
      | _ => rfl
  | submitted _ height budget => exact still height (by rw [budget]; rfl) rfl
  | withdrew _ _ height budget => exact still height (by rw [budget]; rfl) rfl
  | voted _ height budget => exact still height (by rw [budget]; rfl) rfl
  | paramsSet height budget => exact still height (by rw [budget]; rfl) rfl
  | ended height budget =>
      have due := accrued.dueClaims consistent.wellFormed
      have reweighedClaims := reweighed_claims consistent.wellFormed
      have epochs : ∀ entry ∈ record ++ earnings ctx .endBlock, entry.1 ≤ ctx.getEpoch := by
        intro entry listed
        rcases List.mem_append.mp listed with earlier | now
        · exact accrued.epochs entry earlier
        · exact (mem_earnings now).le
      by_cases last : ctx.LastBlock blocksPerEpoch
      · have epoch : next.getEpoch = ctx.getEpoch + 1 := by
          rw [← epoch_of_last last, ← height]
          rfl
        have lastStill : ({ ctx with budget := reweighed ctx } : Context L).LastBlock
            blocksPerEpoch := last
        refine ⟨?_, fun entry listed => (epochs entry listed).trans (by omega)⟩
        -- The claims are paid, and nothing was earned in the next epoch yet.
        have cleared : next.budget.claims = ∅ := by
          rw [budget, rewarded, if_pos lastStill]
          apply (clearClaimPool_eq_empty_iff _).mpr
          intro recipient weight present
          apply readBack_of_length
          apply executors.dueClaims recipient weight
          rw [← reweighedClaims]
          exact present
        have nothing : earnedIn next.getEpoch (record ++ earnings ctx .endBlock) = [] := by
          simp only [earnedIn, List.map_eq_nil_iff, List.filter_eq_nil_iff, decide_eq_true_eq]
          intro entry listed
          have := epochs entry listed
          omega
        rw [cleared, nothing]
        rfl
      · have epoch : next.getEpoch = ctx.getEpoch := by
          rw [← epoch_of_not_last last, ← height]
          rfl
        have notLast : ¬({ ctx with budget := reweighed ctx } : Context L).LastBlock
            blocksPerEpoch := last
        refine ⟨?_, by rw [epoch]; exact epochs⟩
        rw [budget, rewarded, if_neg notLast, epoch, ← due]
        exact reweighedClaims

theorem reaches_accrued {params : Params} {start ctx : Context L} {actions : List (Action L)}
    (votePeriod : 0 < params.votePeriod) (initial : start.budget = BudgetStore.initial params)
    (reached : Reaches step start actions ctx)
    (submits : ∀ action ∈ actions,
      SubmitsOnly (fun executor => executor.length = addrLen) action) :
    Accrued (record step earnings start actions) ctx := by
  induction reached with
  | refl =>
      refine ⟨?_, by simp [record]⟩
      rw [initial]
      rfl
  | @snoc earlier state next action before taken ih =>
      have submitsBefore := fun other listed => submits other (List.mem_append_left [action] listed)
      have consistent := reaches_consistent before (initial_consistent votePeriod initial)
      have executors := reaches_executors votePeriod initial before submitsBefore
      rw [record_append before, record_cons taken]
      simp only [record, List.append_nil]
      exact step_accrued taken consistent executors (ih submitsBefore)

/-- What was earned altogether. -/
def totalOf (claims : List (Claim ℤ)) : ℤ := (claims.map Claim.weight).sum

theorem claimTotal_addClaims (claims : List (Claim ℤ)) (store : Store Address ℤ) :
    claimTotal (addClaims store claims) = claimTotal store + totalOf claims := by
  have added (current : Store Address ℤ) (claim : Claim ℤ) :
      claimTotal (Store.accumulate current claim.recipient claim.weight) =
        claimTotal current + claim.weight := by
    simp only [claimTotal, Store.accumulate]
    rw [Store.sum_insert]
    cases present : current[claim.recipient]? with
    | none =>
        rw [Store.erase_of_get_none present]
        exact add_comm _ _
    | some previous =>
        rw [Store.sum_erase _ present]
        ring
  induction claims generalizing store with
  | nil => simp [addClaims, Store.accumulateAll, totalOf]
  | cons claim claims ih =>
      have first := ih (Store.accumulate store claim.recipient claim.weight)
      rw [added] at first
      simp only [addClaims, List.map_cons, Store.accumulateAll_cons, totalOf, List.sum_cons]
        at first ⊢
      rw [first]
      ring

theorem rewardAmt_zero (pool : DecCoin) (weightSum : ℤ) : rewardAmt pool weightSum 0 = 0 := by
  simp [rewardAmt, Dec.mulInt, Dec.quoInt64, Dec.truncateInt]

/-- The share of an address in a pool, in proportion to what it earned. -/
def earnedReward (pool : DecCoin) (earned : List (Claim ℤ)) (address : Address) (denom : Denom) :
    ℤ :=
  Mint.only pool.denom (rewardAmt pool (totalOf earned) (ClaimPool.weightOf earned address)) denom

theorem claimedReward_addClaims (pool : DecCoin) (earned : List (Claim ℤ)) (address : Address)
    (denom : Denom) :
    claimedReward pool (addClaims ∅ earned) address denom =
      earnedReward pool earned address denom := by
  have total : claimTotal (addClaims ∅ earned) = totalOf earned := by
    rw [claimTotal_addClaims]
    exact zero_add _
  have weight : ((addClaims ∅ earned)[address]?).getD 0 = ClaimPool.weightOf earned address := by
    rw [addClaims, Store.getD_accumulateAll]
    simp [ClaimPool.weightOf, List.filter_map, Function.comp_def]
  rw [claimedReward, earnedReward, total, ← weight]
  cases (addClaims ∅ earned)[address]? with
  | some found => rfl
  | none => simp [Mint.only, rewardAmt_zero]

/-- What an address earned in an epoch is worth when the epoch ends with the block. -/
def epochEarnings (ctx : Context L) (earned : List (Claim ℤ)) (address : Address) (denom : Denom) :
    ℤ :=
  if Dec.zero < epochReward ctx then
    match rewardPoolCoin ctx (epochReward ctx) with
    | .ok pool => earnedReward pool earned address denom
    | .error _ => 0
  else 0

/-- In every run whose executors have twenty bytes, the block that ends an epoch
pays every address in proportion to what the proposals earned for it in the
epoch, and nothing of it is left for the next one. -/
theorem epoch_pays_earnings {params : Params} {start ctx after : Context L}
    {actions : List (Action L)} {tags : Tags} (votePeriod : 0 < params.votePeriod)
    (initial : start.budget = BudgetStore.initial params)
    (reached : Reaches step start actions ctx)
    (submits : ∀ action ∈ actions,
      SubmitsOnly (fun executor => executor.length = addrLen) action)
    (last : ctx.LastBlock blocksPerEpoch) (done : endBlocker ctx = .ok (tags, after)) :
    let earned := earnedIn ctx.getEpoch (record step earnings start (actions ++ [.endBlock]))
    after.budget.claims = ∅ ∧
      ∀ address denom, (Ledger.balance after.ledger address denom : ℤ) =
        Ledger.balance ctx.ledger address denom + epochEarnings ctx earned address denom := by
  intro earned
  have consistent := reaches_consistent reached (initial_consistent votePeriod initial)
  have executors := reaches_executors votePeriod initial reached submits
  have accrued := reaches_accrued votePeriod initial reached submits
  have taken : step ctx .endBlock = some { after with height := after.height + 1 } := by
    simp only [step, done]
  have due : dueClaims ctx = addClaims ∅ earned := by
    simp only [earned]
    rw [record_append reached, record_cons taken]
    simpa [record] using accrued.dueClaims consistent.wellFormed
  have settled : ClaimsSettled ctx after := by
    apply (claimsSettled_iff consistent.wellFormed last done).mpr
    intro recipient weight present
    exact readBack_of_length (executors.dueClaims recipient weight present)
  refine ⟨settled.cleared, ?_⟩
  intro address denom
  have shares : epochShare ctx address denom = epochEarnings ctx earned address denom := by
    simp only [epochShare, epochEarnings]
    split
    · cases rewardPoolCoin ctx (epochReward ctx) with
      | ok pool =>
        simp only [due]
        apply claimedReward_addClaims
      | error failure => simp
    · simp
  rw [settled.paid, shares]

theorem settlement_paying :
    settlement (List.replicate 20 4) paying = some (none, 54, 0) ∧
      settlement (List.replicate 20 5) paying = some (none, 40, 0) := by
  constructor <;> decide +kernel

/-- Two executors earn at the ends of two vote periods, the second one more at the
end of the epoch than before. -/
theorem epoch_pays_earnings_sample :
    paying.budget.claims.toList = [(List.replicate 20 4, 20), (List.replicate 20 5, 10)] ∧
      ∃ (tags : Tags) (after : Context Book), endBlocker paying = .ok (tags, after) ∧
        after.budget.claims = ∅ ∧
        (54 : ℤ) = Ledger.balance paying.ledger (List.replicate 20 4 : Address) microLunaDenom +
          epochEarnings paying
            (earnedIn paying.getEpoch
              (record step earnings thirdsStart (payingActions ++ [.endBlock])))
            (List.replicate 20 4) microLunaDenom ∧
        (40 : ℤ) = Ledger.balance paying.ledger (List.replicate 20 5 : Address) microLunaDenom +
          epochEarnings paying
            (earnedIn paying.getEpoch
              (record step earnings thirdsStart (payingActions ++ [.endBlock])))
            (List.replicate 20 5) microLunaDenom := by
  refine ⟨by decide +kernel, ?_⟩
  rcases settlement_eq_some settlement_paying.1 with ⟨tags, after, ended, -, larger, -⟩
  rcases settlement_eq_some settlement_paying.2 with ⟨_, _, endedToo, -, smaller, -⟩
  cases ended.symm.trans endedToo
  have addressed : ∀ action ∈ payingActions,
      SubmitsOnly (fun executor => executor.length = addrLen) action := by
    refine forall_mem_payingActions ?_ ?_ ?_ ?_ ?_
    · simp [SubmitsOnly]
    · rintro msg ⟨rfl⟩
      rfl
    · rintro msg ⟨rfl⟩
      rfl
    · simp [SubmitsOnly]
    · simp [SubmitsOnly]
  have paid := epoch_pays_earnings thirdsParams_valid.votePeriod rfl reaches_paying addressed
    paying_lastBlock ended
  refine ⟨tags, after, ended, paid.1, ?_, ?_⟩
  · rw [← paid.2, larger]
    rfl
  · rw [← paid.2, smaller]
    rfl

end TerraCore.Budget
