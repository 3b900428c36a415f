import TerraCore.Budget.Keeper
import TerraCore.Treasury.Keeper

/-!
# Budget end blocker

Every block ends with three phases. Candidates whose vote has ended are tallied
and become active or are deleted. At the end of a vote period the active
programs are weighed: those below the legacy threshold are deleted, the others
earn a claim. At the end of an epoch the seigniorage is paid out to the claims.

The source discards the tags that it collects on the way, so that the end
blocker reports none.
-/

namespace TerraCore.Budget

/-- One vote of a tally. A voter that is no longer a validator loses its vote. -/
def tallyVote (staking : Staking) (programID : ℕ) (state : ℤ × BudgetStore)
    (vote : Address × Bool) : ℤ × BudgetStore :=
  match staking.validator vote.1 with
  | some bondSize => (if vote.2 then state.1 + bondSize else state.1 - bondSize, state.2)
  | none => (state.1, state.2.deleteVote programID vote.1)

/-- `tally`: yes votes minus no votes, in bonded tokens. -/
def tally (staking : Staking) (store : BudgetStore) (programID : ℕ) : ℤ × BudgetStore :=
  (store.votesOn programID).foldl (tallyVote staking programID) (0, store)

def ClearsThreshold (votePower : ℤ) (totalPower : ℕ) (threshold : Dec) : Prop :=
  (threshold.mulInt totalPower).roundInt ≤ votePower

instance (votePower : ℤ) (totalPower : ℕ) (threshold : Dec) :
    Decidable (ClearsThreshold votePower totalPower threshold) :=
  inferInstanceAs (Decidable (_ ≤ _))

/-- Delete a program with all its votes. -/
def dropProgram (store : BudgetStore) (programID : ℕ) : BudgetStore :=
  (store.deleteVotesForProgram programID).deleteProgram programID

/-- A candidate whose vote has ended is rejected, or passes and becomes active. -/
def decideCandidate (staking : Staking) (store : BudgetStore) (programID : ℕ) : BudgetStore :=
  match store.programs[programID]? with
  | none => store
  | some program =>
      let (votePower, tallied) := tally staking store programID
      let decided :=
        if ClearsThreshold votePower staking.bondedTokens store.params.activeThreshold then tallied
        else dropProgram tallied programID
      decided.candQueueRemove (program.getVotingEndBlock store.params) programID

/-- The first phase: candidates whose vote has ended. -/
def decideCandidates (staking : Staking) (height : ℕ) (store : BudgetStore) : BudgetStore :=
  (store.expiredCandidates height).foldl (decideCandidate staking) store

/-- An active program earns a claim, or is deleted. -/
def weighProgram (staking : Staking) (state : List (Claim ℤ) × BudgetStore) (program : Program) :
    List (Claim ℤ) × BudgetStore :=
  let (claims, store) := state
  if store.candQueueHas (program.getVotingEndBlock store.params) program.programID then state
  else
    let (votePower, tallied) := tally staking store program.programID
    if ClearsThreshold votePower staking.bondedTokens store.params.legacyThreshold then
      (claims ++ [⟨votePower, program.executor⟩], tallied)
    else (claims, dropProgram tallied program.programID)

/-- The second phase: active programs. -/
def weighPrograms (staking : Staking) (store : BudgetStore) : BudgetStore :=
  let (claims, store) :=
    (store.programs.toList.map Prod.snd).foldl (weighProgram staking) ([], store)
  store.addClaimPool claims

section Rewards

variable {L : Type} [Sdk L]

/-- The reward pool in SDR, or in Luna when there is no rate. -/
def rewardPoolCoin (ctx : Context L) (rewardPool : Dec) : Outcome DecCoin := do
  let lunaPool ← newDecCoinFromDec microLunaDenom rewardPool
  match Market.getSwapDecCoin ctx lunaPool microSDRDenom with
  | .error (.error _) => newDecCoinFromDec microLunaDenom rewardPool
  | outcome => outcome

/-- The sum of the weights of all claims. -/
def claimWeightSum (store : BudgetStore) : ℤ :=
  store.claimPool.foldl (fun weightSum claim => weightSum + claim.2) 0

/-- Pay one claim. -/
def payClaim (pool : DecCoin) (weightSum : ℤ) (ctx : Context L) (claim : Address × ℤ) :
    Outcome (Context L) := do
  let share ← (pool.amount.mulInt claim.2).quoInt weightSum
  let coin ← newCoin pool.denom share.truncateInt
  mustSucceed (Mint.mint ctx claim.1 coin)

/-- The share of the seigniorage that is not burned. -/
def rewardPool (ctx : Context L) : Outcome (Dec × Context L) :=
  let epoch := ctx.getEpoch
  let (rewardWeight, ctx) := Treasury.getRewardWeight ctx epoch
  let (seigniorage, ctx) := Mint.peekEpochSeigniorage ctx epoch
  match rewardWeight with
  | some rewardWeight => .ok ((Dec.one.sub rewardWeight).mulInt seigniorage, ctx)
  | none => .error (.panic .nilDec)

/-- Mint the rewards of all claims. -/
def payRewards (ctx : Context L) (rewardPool : Dec) : Outcome (Context L) :=
  if Dec.zero < rewardPool then do
    let pool ← rewardPoolCoin ctx rewardPool
    ctx.budget.claimPool.foldlM (payClaim pool (claimWeightSum ctx.budget)) ctx
  else .ok ctx

/-- The third phase: the claims of the epoch. -/
def distributeRewards (ctx : Context L) : Outcome (Context L) := do
  let (rewardPool, ctx) ← rewardPool ctx
  let ctx ← payRewards ctx rewardPool
  pure { ctx with budget := ctx.budget.clearClaimPool }

/-- Candidates, in every block. -/
def decidePhase (ctx : Context L) : Context L :=
  { ctx with budget := decideCandidates ctx.staking ctx.height ctx.budget }

/-- Active programs, at the end of a vote period. -/
def weighPhase (ctx : Context L) : Outcome (Context L) := do
  let last ← ctx.isPeriodLastBlock ctx.budget.params.votePeriod
  pure (if last then { ctx with budget := weighPrograms ctx.staking ctx.budget } else ctx)

/-- Rewards, at the end of an epoch. -/
def rewardPhase (ctx : Context L) : Outcome (Context L) := do
  let last ← ctx.isPeriodLastBlock blocksPerEpoch
  if last then distributeRewards ctx else pure ctx

def endBlocker (ctx : Context L) : Outcome (Tags × Context L) := do
  let ctx ← weighPhase (decidePhase ctx)
  let ctx ← rewardPhase ctx
  pure ([], ctx)

open Mint

theorem rewardPool_changes {before after : Context L} {pool : Dec}
    (done : rewardPool before = .ok (pool, after)) : Changes 0 0 0 before after := by
  unfold rewardPool at done
  simp only at done
  split at done
  · cases done
    exact ((Treasury.getRewardWeight_changes before _).trans
      (peekEpochSeigniorage_changes _ _)).of_eq (by simp) (by simp) rfl
  · cases done

theorem payClaim_mirrored {pool : DecCoin} {weightSum : ℤ} {before after : Context L}
    {claim : Address × ℤ} (done : payClaim pool weightSum before claim = .ok after) :
    Mirrored before after := by
  rcases Outcome.bind_eq_ok.mp done with ⟨_, -, done⟩
  rcases Outcome.bind_eq_ok.mp done with ⟨_, -, done⟩
  exact mint_mirrored (mustSucceed_eq_ok.mp done)

theorem payClaims_mirrored {pool : DecCoin} {weightSum : ℤ} {claims : List (Address × ℤ)}
    {before after : Context L}
    (done : claims.foldlM (payClaim pool weightSum) before = .ok after) :
    Mirrored before after := by
  induction claims generalizing before with
  | nil =>
      cases done
      exact Mirrored.of_unchanged (Changes.refl _)
  | cons claim claims ih =>
      rw [List.foldlM_cons] at done
      rcases Outcome.bind_eq_ok.mp done with ⟨middle, first, rest⟩
      exact (payClaim_mirrored first).trans (ih rest)

theorem payRewards_mirrored {before after : Context L} {pool : Dec}
    (done : payRewards before pool = .ok after) : Mirrored before after := by
  unfold payRewards at done
  split at done
  · rcases Outcome.bind_eq_ok.mp done with ⟨_, -, done⟩
    exact payClaims_mirrored done
  · cases done
    exact Mirrored.of_unchanged (Changes.refl _)

theorem distributeRewards_mirrored {before after : Context L}
    (done : distributeRewards before = .ok after) : Mirrored before after := by
  rcases Outcome.bind_eq_ok.mp done with ⟨⟨pool, read⟩, pooled, done⟩
  rcases Outcome.bind_eq_ok.mp done with ⟨paid, payment, done⟩
  cases done
  exact ((Mirrored.of_unchanged (rewardPool_changes pooled)).trans
    (payRewards_mirrored payment)).trans (Mirrored.of_unchanged (Changes.of_budget paid _))

/-- The end blocker counts everything it mints. -/
theorem endBlocker_mirrored {before after : Context L} {tags : Tags}
    (done : endBlocker before = .ok (tags, after)) : Mirrored before after := by
  rcases Outcome.bind_eq_ok.mp done with ⟨weighed, weighing, done⟩
  rcases Outcome.bind_eq_ok.mp done with ⟨paid, payment, done⟩
  cases done
  have decidedMirrored : Mirrored before (decidePhase before) :=
    Mirrored.of_unchanged (Changes.of_budget before _)
  have weighedMirrored : Mirrored (decidePhase before) weighed := by
    rcases Outcome.bind_eq_ok.mp weighing with ⟨last, -, weighing⟩
    cases weighing
    split
    · exact Mirrored.of_unchanged (Changes.of_budget _ _)
    · exact Mirrored.of_unchanged (Changes.refl _)
  have paidMirrored : Mirrored weighed after := by
    rcases Outcome.bind_eq_ok.mp payment with ⟨last, -, payment⟩
    split at payment
    · exact distributeRewards_mirrored payment
    · cases payment
      exact Mirrored.of_unchanged (Changes.refl _)
  exact (decidedMirrored.trans weighedMirrored).trans paidMirrored

end Rewards

end TerraCore.Budget
