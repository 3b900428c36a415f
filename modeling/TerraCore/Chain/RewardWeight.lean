import TerraCore.Chain.Block
import TerraCore.Treasury.RewardTarget

/-!
# One reward weight per epoch

At the end of an epoch the budget splits the seigniorage by the reward weight of
the epoch. Right after that the treasury stores its new reward weight under the
epoch that ends, and not under the next one. Later policy updates count the
seigniorage rewards of the epoch by the weight that is stored then. The two
weights are the same exactly when the update did not move the weight.
-/

namespace TerraCore.Treasury

open Inheritance

variable {L : Type}

/-- The calls that the loop over the epochs makes: `Calls f oldest n i ctx read period` when
the loop, started at `i` in `ctx`, calls `f` for `period` in the state `read`. -/
inductive Calls (indicatorFunction : Indicator L) (oldest : ℤ) :
    ℕ → ℤ → Context L → Context L → ℤ → Prop where
  | first {remaining : ℕ} {i : ℤ} {ctx : Context L} (inWindow : 0 ≤ i ∧ oldest < i) :
      Calls indicatorFunction oldest (remaining + 1) i ctx ctx i
  | later {remaining : ℕ} {i period : ℤ} {val : Dec} {ctx next read : Context L}
      (inWindow : 0 ≤ i ∧ oldest < i) (called : indicatorFunction ctx i = .ok (val, next))
      (rest : Calls indicatorFunction oldest remaining (i - 1) next read period) :
      Calls indicatorFunction oldest (remaining + 1) i ctx read period

/-- The calls that `SumIndicator` makes. -/
def SumCalls (ctx : Context L) (epochs : ℤ) (indicatorFunction : Indicator L) :
    Context L → ℤ → Prop :=
  Calls indicatorFunction (ctx.getEpoch - epochs) (ctx.getEpoch + 1).toNat ctx.getEpoch ctx

theorem Calls.reads {indicatorFunction : Indicator L} (onlyReads : OnlyReads indicatorFunction)
    {oldest : ℤ} {remaining : ℕ} {i period : ℤ} {ctx read : Context L} (grounded : Grounded ctx)
    (past : i ≤ epoch ctx) (calls : Calls indicatorFunction oldest remaining i ctx read period) :
    Peeks ctx read := by
  induction calls with
  | first => exact Peeks.refl _
  | later inWindow called _ ih =>
      rcases Int.eq_ofNat_of_zero_le inWindow.1 with ⟨current, rfl⟩
      have firstReads := onlyReads grounded (by exact_mod_cast past) called
      refine firstReads.trans (ih (firstReads.grounded grounded) ?_)
      rw [firstReads.epoch_eq]
      omega

section Consults

variable [Sdk L]

/-- The reward weight by which `SeigniorageRewardsForEpoch` counts the seigniorage. -/
def weightCounted (ctx : Context L) (period : ℤ) : Option Dec :=
  (getRewardWeight (Mint.peekEpochSeigniorage ctx period).2 period).1

/-- The policy update at the end of a block calls `SeigniorageRewardsForEpoch` for a period
in a state: itself, or through the sum of all mining rewards. -/
inductive Consults (ctx read : Context L) (period : ℤ) : Prop where
  | seigniorage {rate : Dec} {taxed : Context L} (updates : Updates ctx)
      (tax : updateTaxPolicy ctx = .ok (rate, taxed))
      (calls : SumCalls (getRewardWeight taxed taxed.getEpoch).2 taxed.treasury.params.windowShort
        seigniorageRewardsForEpoch read period)
  | mining {rate sum : Dec} {taxed summed : Context L} (updates : Updates ctx)
      (tax : updateTaxPolicy ctx = .ok (rate, taxed))
      (seigniorage : sumIndicator (getRewardWeight taxed taxed.getEpoch).2
        taxed.treasury.params.windowShort seigniorageRewardsForEpoch = .ok (sum, summed))
      (calls : SumCalls summed taxed.treasury.params.windowShort miningRewardForEpoch read period)

/-- Where the treasury counts rewards, it sees the weights with which the update began. -/
theorem Consults.weights {ctx read : Context L} {period : ℤ} (grounded : Grounded ctx)
    (consults : Consults ctx read period) :
    Grounded read ∧ epoch read = epoch ctx ∧
      ∀ earlier : ℕ, valueAt read.treasury.rewardWeights earlier =
        valueAt ctx.treasury.rewardWeights earlier := by
  -- The update of the tax rate comes first; it only reads the reward weights.
  have fromTaxed : ∀ {rate : Dec} {taxed : Context L}, updateTaxPolicy ctx = .ok (rate, taxed) →
      (Grounded taxed → Peeks taxed read) →
      Grounded read ∧ epoch read = epoch ctx ∧
        ∀ earlier : ℕ, valueAt read.treasury.rewardWeights earlier =
          valueAt ctx.treasury.rewardWeights earlier := by
    intro rate taxed tax reads
    rcases updateTaxPolicy_eq_ok grounded tax with ⟨sameHeight, -, taxedGrounded, filled, -⟩
    have taxedReads := reads taxedGrounded
    refine ⟨taxedReads.grounded taxedGrounded, ?_, ?_⟩
    · rw [taxedReads.epoch_eq, epoch, epoch, sameHeight]
    · intro earlier
      exact (taxedReads.valueAt_eq .reward earlier).trans (filled.valueAt_eq earlier)
  have weightReads : ∀ {taxed : Context L}, Grounded taxed →
      Peeks taxed (getRewardWeight taxed taxed.getEpoch).2 :=
    fun taxedGrounded => (getRewardWeight_spec taxedGrounded le_rfl).2
  cases consults with
  | seigniorage _ tax calls =>
      apply fromTaxed tax
      intro taxedGrounded
      have first := weightReads taxedGrounded
      exact first.trans
        (calls.reads seigniorageRewardsForEpoch_reads (first.grounded taxedGrounded) le_rfl)
  | mining _ tax seigniorage calls =>
      apply fromTaxed tax
      intro taxedGrounded
      have first := weightReads taxedGrounded
      have second := first.trans (sumIndicator_reads seigniorageRewardsForEpoch_reads
        (first.grounded taxedGrounded) seigniorage)
      exact second.trans
        (calls.reads miningRewardForEpoch_reads (second.grounded taxedGrounded) le_rfl)

theorem weightCounted_eq {ctx : Context L} (grounded : Grounded ctx) {period : ℕ}
    (past : period ≤ epoch ctx) :
    weightCounted ctx period = valueAt ctx.treasury.rewardWeights period := by
  have peeked : Reads ctx (Mint.peekEpochSeigniorage ctx period).2 := Reads.of_same rfl rfl
  exact (getRewardWeight_spec (peeked.grounded grounded) past).1

theorem endBlocker_height {ctx after : Context L} {tags : Tags} (grounded : Grounded ctx)
    (done : endBlocker ctx = .ok (tags, after)) : after.height = ctx.height := by
  rcases endBlocker_cases grounded done with ⟨-, rfl⟩ | update
  · rfl
  · exact update.height

/-- The policy has no reason to move the reward weight at the end of the block: the probation
period is not over, no change is allowed, or the weight in force is the target, as far as this
is in the range of the policy. -/
def KeepsWeight (ctx : Context L) : Prop :=
  IsProbationPeriod ctx ∨
    (Dec.zero ≤ ctx.treasury.params.rewardPolicy.changeRateMax ∧
      (ctx.treasury.params.rewardPolicy.changeRateMax = Dec.zero ∨
        ∃ weight ∈ valueAt ctx.treasury.rewardWeights (epoch ctx),
          ctx.treasury.params.rewardPolicy.ranged (aimedWeight ctx weight) = weight))

instance (ctx : Context L) : Decidable (KeepsWeight ctx) :=
  inferInstanceAs (Decidable (_ ∨ (_ ∧ (_ ∨ ∃ weight ∈ _, _))))

omit [Sdk L] in
/-- Clamping keeps a rate that is at its target, and every rate when no change is allowed. -/
theorem PolicyConstraints.clamp_eq_self_iff (policy : PolicyConstraints) (prevRate newRate : Dec) :
    policy.clamp prevRate newRate = prevRate ↔
      Dec.zero ≤ policy.changeRateMax ∧
        (policy.changeRateMax = Dec.zero ∨ policy.ranged newRate = prevRate) := by
  have ext : ∀ {first second : Dec}, first = second ↔ first.raw = second.raw := by
    intro first second
    cases first
    cases second
    simp
  have nonneg : Dec.zero ≤ policy.changeRateMax ↔ 0 ≤ policy.changeRateMax.raw := Iff.rfl
  have zero : Dec.zero.raw = 0 := rfl
  rcases clamp_cases policy prevRate newRate with ⟨eq, small⟩ | ⟨large, eq⟩ | ⟨large, falls, eq⟩
  · have stepNonneg := (abs_nonneg _).trans small
    rw [eq]
    refine ⟨fun same => ⟨stepNonneg, Or.inr same⟩, ?_⟩
    rintro ⟨-, noStep | same⟩
    · rw [ext.mp noStep, zero, abs_nonpos_iff] at small
      exact ext.mpr (by omega)
    · exact same
  · have raised : (prevRate.add policy.changeRateMax).raw =
        prevRate.raw + policy.changeRateMax.raw := rfl
    rw [eq, nonneg, ext, ext, ext, raised, zero]
    omega
  · have lowered : (prevRate.sub policy.changeRateMax).raw =
        prevRate.raw - policy.changeRateMax.raw := rfl
    rw [abs_of_nonpos (by omega)] at large
    rw [eq, nonneg, ext, ext, ext, lowered, zero]
    omega

/-- The end blocker leaves the weight of the epoch as it was exactly when the policy had no
reason to move it. -/
theorem endBlocker_keeps_iff {ctx after : Context L} {tags : Tags} (grounded : Grounded ctx)
    (last : ctx.LastBlock blocksPerEpoch) (done : endBlocker ctx = .ok (tags, after)) :
    valueAt after.treasury.rewardWeights (epoch ctx) =
        valueAt ctx.treasury.rewardWeights (epoch ctx) ↔ KeepsWeight ctx := by
  rcases endBlocker_cases grounded done with ⟨notUpdates, afterEq⟩ | update
  · have probation : IsProbationPeriod ctx := by
      by_contra notProbation
      exact notUpdates ⟨last, notProbation⟩
    rw [afterEq]
    exact ⟨fun _ => Or.inl probation, fun _ => rfl⟩
  · rcases update.reward with ⟨old, target, aimed, moved⟩
    have now : valueAt after.treasury.rewardWeights (epoch ctx) = _ := moved.now
    have before : valueAt ctx.treasury.rewardWeights (epoch ctx) = _ := moved.before
    have targetEq := weightUpdate_eq_aimed aimed
    subst targetEq
    rw [now, before, Option.some_inj]
    refine (PolicyConstraints.clamp_eq_self_iff _ old _).trans ⟨?_, ?_⟩
    · rintro ⟨stepNonneg, noStep | same⟩
      · exact Or.inr ⟨stepNonneg, Or.inl noStep⟩
      · exact Or.inr ⟨stepNonneg, Or.inr ⟨old, before, same⟩⟩
    · rintro (probation | ⟨stepNonneg, noStep | ⟨weight, inForce, same⟩⟩)
      · exact absurd probation update.updates.2
      · exact ⟨stepNonneg, Or.inl noStep⟩
      · cases before.symm.trans inForce
        exact ⟨stepNonneg, Or.inr same⟩

end Consults

end TerraCore.Treasury

namespace TerraCore.Chain.Block

open Inheritance Transition Treasury

variable {L : Type} [Sdk L]

/-- The reward weight by which the budget splits the seigniorage at the end of an epoch. -/
def weightPaid (order : Oracle.MapOrder) (ctx : Context L) : Outcome (Option Dec) := do
  let (_, ctx) ← Oracle.endBlocker order ctx
  let ctx ← Budget.weighPhase (Budget.decidePhase ctx)
  pure (getRewardWeight ctx ctx.getEpoch).1

omit [Sdk L] in
theorem weighPhase_reads {before after : Context L}
    (done : Budget.weighPhase (Budget.decidePhase before) = .ok after) : Peeks before after := by
  rw [Budget.weighPhase_decidePhase] at done
  split at done
  · cases done
  · cases done
    exact Peeks.of_same rfl rfl

theorem weightPaid_eq {order : Oracle.MapOrder} {ctx closed : Context L} (grounded : Grounded ctx)
    (closes : closing order ctx = .ok closed) :
    weightPaid order ctx = .ok (valueAt ctx.treasury.rewardWeights (epoch ctx)) := by
  rcases Outcome.bind_eq_ok.mp closes with ⟨⟨_, tallied⟩, tally, closes⟩
  rcases Outcome.bind_eq_ok.mp closes with ⟨⟨_, rewarded⟩, reward, -⟩
  rcases Outcome.bind_eq_ok.mp reward with ⟨weighed, weigh, -⟩
  have reads := (oracleEndBlocker_reads tally).trans (weighPhase_reads weigh)
  have weight := (getRewardWeight_spec (reads.grounded grounded) (le_refl (epoch weighed))).1
  simp only [weightPaid, tally, weigh, bind, Except.bind, pure, Except.pure, Except.ok.injEq]
  rw [getEpoch_eq, weight, reads.epoch_eq]
  exact reads.valueAt_eq .reward (epoch ctx)

/-- One reward weight per epoch. In every run of blocks, the reward weight by which the budget
splits the seigniorage at the last block of an epoch is the one by which every later policy
update counts the seigniorage rewards of that epoch, exactly when the policy had no reason to
move the weight at the end of the epoch. -/
theorem one_weight_per_epoch_iff {data : GenesisState} {start ctx closed next later laterClosed
      read : Context L} (fresh : Fresh data start) {events moreEvents : List (Event L)}
    {order laterOrder : Oracle.MapOrder} {accountKeeper : Update.AccountKeeper}
    (reached : Reaches step start events ctx)
    (last : ctx.LastBlock blocksPerEpoch) (closes : closing order ctx = .ok closed)
    (taken : step ctx (.endBlock order accountKeeper) = some next)
    (further : Reaches step next moreEvents later)
    (laterCloses : closing laterOrder later = .ok laterClosed)
    (consults : Consults laterClosed read (epoch ctx)) :
    weightPaid order ctx = .ok (weightCounted read (epoch ctx)) ↔ KeepsWeight closed := by
  have grounded := (reaches_keepsPast fresh.grounded reached).grounded
  have closedReads := closing_reads grounded closes
  have closedGrounded := closedReads.grounded grounded
  have closedLast : closed.LastBlock blocksPerEpoch := by
    rw [Context.LastBlock, closedReads.height]
    exact last
  rcases step_endBlock_stages taken with
    ⟨closedAlso, tags, updated, closesAlso, update, band, cap, nextEq⟩
  cases closes.symm.trans closesAlso
  have nextKeeps := step_keepsPast grounded taken
  have updatedKeeps := treasuryEndBlocker_keepsPast closedGrounded update
  -- The epoch has ended, so that what is stored for it now stays.
  have ended : epoch ctx < epoch next := by
    have updatedHeight : updated.height = closed.height := endBlocker_height closedGrounded update
    have updatedLast : (Update.withParams updated band cap).LastBlock blocksPerEpoch := by
      change updated.LastBlock blocksPerEpoch
      rw [Context.LastBlock, updatedHeight]
      exact closedLast
    have order : epoch ctx ≤ epoch updated := by
      rw [← closedReads.epoch_eq]
      exact updatedKeeps.epoch
    have next := epoch_succ (Update.withParams updated band cap)
    rw [if_pos updatedLast] at next
    rw [nextEq]
    exact lt_of_le_of_lt order (lt_of_lt_of_eq (Nat.lt_succ_self _) next.symm)
  have laterKeeps := reaches_keepsPast nextKeeps.grounded further
  have laterReads := closing_reads laterKeeps.grounded laterCloses
  rcases consults.weights (laterReads.grounded laterKeeps.grounded) with
    ⟨readGrounded, readEpoch, readWeights⟩
  have counted : weightCounted read (epoch ctx) =
      valueAt updated.treasury.rewardWeights (epoch ctx) := by
    have past : epoch ctx ≤ epoch read := by
      have order := laterKeeps.epoch
      rw [readEpoch, laterReads.epoch_eq]
      omega
    rw [weightCounted_eq readGrounded past, readWeights]
    have stays := (laterReads.valueAt_eq .reward (epoch ctx)).trans
      (laterKeeps.past .reward (epoch ctx) ended)
    rw [nextEq] at stays
    exact stays
  have paid : valueAt ctx.treasury.rewardWeights (epoch ctx) =
      valueAt closed.treasury.rewardWeights (epoch ctx) :=
    (closedReads.valueAt_eq .reward (epoch ctx)).symm
  rw [weightPaid_eq grounded closes, counted, paid, Except.ok.injEq, eq_comm,
    ← closedReads.epoch_eq]
  exact endBlocker_keeps_iff closedGrounded closedLast update

/-- The end of the block finds nothing to do. -/
structure Quiet (ctx : Context L) : Prop where
  oracleNonzero : ctx.oracle.params.votePeriod ≠ 0
  oracleNotLast : ¬ctx.LastBlock ctx.oracle.params.votePeriod
  budgetNonzero : ctx.budget.params.votePeriod ≠ 0
  budgetNotLast : ¬ctx.LastBlock ctx.budget.params.votePeriod
  noCandidate : ctx.budget.expiredCandidates ctx.height = []
  notEpoch : ¬ctx.LastBlock blocksPerEpoch
  notUpdate : ctx.height ≠ Update.updateHeight

theorem endBlock_of_quiet {ctx : Context L} (quiet : Quiet ctx) (order : Oracle.MapOrder)
    (accountKeeper : Update.AccountKeeper) :
    endBlock order accountKeeper ctx = .ok { ctx with height := ctx.height + 1 } := by
  have oracleDone := Oracle.endBlocker_of_not_lastBlock order quiet.oracleNonzero
    quiet.oracleNotLast
  have nonzero : (blocksPerEpoch : ℤ) ≠ 0 := by decide
  have noneDecided : Budget.decideCandidates ctx.staking ctx.height ctx.budget = ctx.budget := by
    rw [Budget.decideCandidates, quiet.noCandidate]
    rfl
  have unweighed : Budget.reweighed ctx = ctx.budget := by
    simp only [Budget.reweighed, noneDecided, if_neg quiet.budgetNotLast]
  have budgetDone : Budget.endBlocker ctx = .ok ([], ctx) := by
    simp only [Budget.endBlocker, Budget.weighPhase_decidePhase, if_neg quiet.budgetNonzero,
      unweighed, Budget.rewardPhase, ctx.isPeriodLastBlock_eq nonzero, quiet.notEpoch,
      bind, Except.bind, pure, Except.pure]
    rfl
  have updateDone : Update.endBlocker accountKeeper ctx = .ok ([], ctx, accountKeeper.accounts) := by
    simp only [Update.endBlocker, Update.update230000, if_pos quiet.notUpdate]
    rfl
  have treasuryDone : Treasury.endBlocker ctx = .ok ([], ctx) := by
    simp only [Treasury.endBlocker, ctx.isPeriodLastBlock_eq nonzero, quiet.notEpoch, bind,
      Except.bind, pure, Except.pure]
    rfl
  simp only [endBlock, closing, oracleDone, budgetDone, treasuryDone, updateDone, bind,
    Except.bind, pure, Except.pure]

theorem reaches_quiet (ctx : Context L) (order : Oracle.MapOrder)
    (accountKeeper : Update.AccountKeeper) (blocks : ℕ)
    (quiet : ∀ height, ctx.height ≤ height → height < ctx.height + blocks →
      Quiet { ctx with height }) :
    Reaches step ctx (List.replicate blocks (.endBlock order accountKeeper))
      { ctx with height := ctx.height + blocks } := by
  induction blocks with
  | zero => exact .refl
  | succ blocks ih =>
      have before := ih fun height lower upper => quiet height lower (by omega)
      have nothing := endBlock_of_quiet (quiet (ctx.height + blocks) (by omega) (by omega)) order
        accountKeeper
      rw [List.replicate_succ']
      refine before.snoc ?_
      simp only [step, nothing]
      rfl

/-- The default genesis without a probation period and with another reward weight. -/
def promptGenesis (genesisRewardWeight : Dec) : GenesisState :=
  { defaultGenesisState with
    params := { defaultParams with windowProbation := 0 }
    genesisRewardWeight }

/-- A chain without coins, whose votes last a month. -/
def promptStart (genesisRewardWeight : Dec) : Context Book :=
  { Context.genesis Book.empty (Staking.single (List.replicate 20 1) 10 single_length) with
    oracle := OracleStore.initGenesis
      { Oracle.defaultParams with votePeriod := blocksPerMonth }
    treasury := Treasury.initGenesis (promptGenesis genesisRewardWeight) }

theorem promptStart_fresh (genesisRewardWeight : Dec) :
    Fresh (promptGenesis genesisRewardWeight) (promptStart genesisRewardWeight) := ⟨rfl, rfl⟩

/-- Within an epoch, a block before the first month is over is quiet. -/
theorem quiet_of_month {ctx : Context Book}
    (oraclePeriod : ctx.oracle.params.votePeriod = blocksPerMonth)
    (budgetPeriod : ctx.budget.params.votePeriod = blocksPerMonth)
    (noQueue : ctx.budget.candQueue.toList = []) (early : ctx.height < Update.updateHeight)
    (notEpoch : (ctx.height + 1) % blocksPerEpoch ≠ 0) : Quiet ctx := by
  have month : ctx.height + 1 < blocksPerMonth :=
    lt_of_le_of_lt early (by decide : Update.updateHeight < blocksPerMonth)
  have notMonth : ¬ctx.LastBlock blocksPerMonth := by
    rw [Context.lastBlock_natCast, Nat.mod_eq_of_lt month]
    omega
  have nonzero : (blocksPerMonth : ℤ) ≠ 0 := by decide
  refine ⟨by rw [oraclePeriod]; exact nonzero, by rw [oraclePeriod]; exact notMonth,
    by rw [budgetPeriod]; exact nonzero, by rw [budgetPeriod]; exact notMonth, ?_, ?_, early.ne⟩
  · rw [BudgetStore.expiredCandidates, noQueue]
    rfl
  · rw [Context.lastBlock_natCast]
    exact notEpoch

/-- The last block of the first epoch. -/
def promptFirst (genesisRewardWeight : Dec) : Context Book :=
  { promptStart genesisRewardWeight with
    height := (promptStart genesisRewardWeight).height + (blocksPerEpoch - 1) }

theorem promptFirst_reached (genesisRewardWeight : Dec) :
    Reaches step (promptStart genesisRewardWeight)
      (List.replicate (blocksPerEpoch - 1) (.endBlock .sorted .empty))
      (promptFirst genesisRewardWeight) := by
  apply reaches_quiet
  intro height _ before
  change height < 0 + (blocksPerEpoch - 1) at before
  have epochEq : blocksPerEpoch = 100800 := by decide
  have updateEq : Update.updateHeight = 230000 := rfl
  apply quiet_of_month rfl rfl (by rfl)
  · change height < Update.updateHeight
    omega
  · change (height + 1) % blocksPerEpoch ≠ 0
    rw [epochEq]
    omega

/-- The first block of the second epoch. -/
def promptNext (genesisRewardWeight : Dec) : Context Book :=
  (step (promptFirst genesisRewardWeight) (.endBlock .sorted .empty)).getD
    (promptFirst genesisRewardWeight)

/-- The last block of the second epoch. -/
def promptSecond (genesisRewardWeight : Dec) : Context Book :=
  { promptNext genesisRewardWeight with
    height := (promptNext genesisRewardWeight).height + (blocksPerEpoch - 1) }

/-- What the first epoch leaves for the quiet blocks of the second one. -/
structure Turned (next : Context Book) : Prop where
  height : next.height = blocksPerEpoch
  oraclePeriod : next.oracle.params.votePeriod = blocksPerMonth
  budgetPeriod : next.budget.params.votePeriod = blocksPerMonth
  noQueue : next.budget.candQueue.toList = []

theorem Turned.reaches {next : Context Book} (turned : Turned next) :
    Reaches step next (List.replicate (blocksPerEpoch - 1) (.endBlock .sorted .empty))
      { next with height := next.height + (blocksPerEpoch - 1) } := by
  apply reaches_quiet
  intro height lower before
  rw [turned.height] at lower before
  have epochEq : blocksPerEpoch = 100800 := by decide
  have updateEq : Update.updateHeight = 230000 := rfl
  refine @quiet_of_month { next with height } turned.oraclePeriod turned.budgetPeriod
    turned.noQueue ?_ ?_
  · change height < Update.updateHeight
    omega
  · change (height + 1) % blocksPerEpoch ≠ 0
    rw [epochEq]
    omega

theorem promptNext_taken {genesisRewardWeight : Dec}
    (finishes : (step (promptFirst genesisRewardWeight) (.endBlock .sorted .empty)).isSome) :
    step (promptFirst genesisRewardWeight) (.endBlock .sorted .empty) =
      some (promptNext genesisRewardWeight) := by
  rcases Option.isSome_iff_exists.mp finishes with ⟨next, taken⟩
  rw [promptNext, taken, Option.getD_some]

/-- The states of the policy update that ends a block: before it, after the tax rate was
updated, and where the previous epoch is counted. -/
def previousCount (ctx : Context Book) : Outcome (Context Book × Context Book × Context Book) := do
  let closed ← closing .sorted ctx
  let (_, taxed) ← updateTaxPolicy closed
  let weighted := (getRewardWeight taxed taxed.getEpoch).2
  let (_, read) ← seigniorageRewardsForEpoch weighted weighted.getEpoch
  pure (closed, taxed, read)

/-- The update at the end of the second epoch counts the first one. -/
theorem consults_of_previousCount {ctx closed taxed read : Context Book}
    (counted : previousCount ctx = .ok (closed, taxed, read)) (updates : Updates closed)
    (second : (getRewardWeight taxed taxed.getEpoch).2.getEpoch = 1)
    (window : taxed.treasury.params.windowShort = 4) :
    closing .sorted ctx = .ok closed ∧ Consults closed read 0 := by
  rcases Outcome.bind_eq_ok.mp counted with ⟨closedAlso, closes, counted⟩
  rcases Outcome.bind_eq_ok.mp counted with ⟨⟨rate, taxedAlso⟩, tax, counted⟩
  rcases Outcome.bind_eq_ok.mp counted with ⟨⟨val, readAlso⟩, called, counted⟩
  cases counted
  refine ⟨closes, .seigniorage updates tax ?_⟩
  rw [second] at called
  rw [SumCalls, second, window]
  exact .later (by decide) called (.first (by decide))

/-- What is evaluated of the update at the end of the second epoch. -/
def previousWeight (ctx : Context Book) : Option (Bool × ℤ × ℤ × Option Dec) :=
  match previousCount ctx with
  | .ok (closed, taxed, read) =>
      some (decide (closed.LastBlock blocksPerEpoch ∧ ¬IsProbationPeriod closed),
        (getRewardWeight taxed taxed.getEpoch).2.getEpoch, taxed.treasury.params.windowShort,
        weightCounted read 0)
  | .error _ => none

theorem consults_of_previousWeight {ctx : Context Book} {weight : Option Dec}
    (evaluated : previousWeight ctx = some (true, 1, 4, weight)) :
    ∃ closed read, closing .sorted ctx = .ok closed ∧ Consults closed read 0 ∧
      weightCounted read 0 = weight := by
  simp only [previousWeight] at evaluated
  split at evaluated
  · next closed taxed read counted =>
      simp only [Option.some.injEq, Prod.mk.injEq, decide_eq_true_eq] at evaluated
      rcases evaluated with ⟨updates, second, window, weightEq⟩
      rcases consults_of_previousCount counted updates second window with ⟨closes, consults⟩
      exact ⟨closed, read, closes, consults, weightEq⟩
  · cases evaluated

/-- The largest reward weight that the policy allows. -/
def largestWeight : Dec := defaultParams.rewardPolicy.rateMax

theorem promptNext_turned_largest : Turned (promptNext largestWeight) where
  height := by decide +kernel
  oraclePeriod := by decide +kernel
  budgetPeriod := by decide +kernel
  noQueue := by decide +kernel

/-- The first update aims at the largest weight, as there are no revenues, and finds it in force. -/
theorem one_weight_per_epoch_iff_sample :
    ∃ closed read : Context Book, closing .sorted (promptSecond largestWeight) = .ok closed ∧
      Consults closed read (epoch (promptFirst largestWeight)) ∧
      weightPaid .sorted (promptFirst largestWeight) =
        .ok (weightCounted read (epoch (promptFirst largestWeight))) := by
  have evaluated : previousWeight (promptSecond largestWeight) =
      some (true, 1, 4, some largestWeight) := by
    decide +kernel
  rcases consults_of_previousWeight evaluated with ⟨laterClosed, read, laterCloses, consults, -⟩
  have taken := promptNext_taken
    (by decide +kernel : (step (promptFirst largestWeight) (.endBlock .sorted .empty)).isSome)
  rcases step_endBlock_stages taken with ⟨closed, -, -, closes, -⟩
  have keeps : KeepsWeight closed := by
    have decided : (closing .sorted (promptFirst largestWeight)).map
        (fun closed => decide (¬IsProbationPeriod closed ∧ KeepsWeight closed)) = .ok true := by
      decide +kernel
    rw [closes] at decided
    exact (of_decide_eq_true (Except.ok.inj decided)).2
  exact ⟨laterClosed, read, laterCloses, consults,
    (one_weight_per_epoch_iff (promptStart_fresh largestWeight) (promptFirst_reached largestWeight)
      (by decide) closes taken promptNext_turned_largest.reaches laterCloses consults).mpr keeps⟩

theorem promptNext_turned : Turned (promptNext genesisRewardWeight) where
  height := by decide +kernel
  oraclePeriod := by decide +kernel
  budgetPeriod := by decide +kernel
  noQueue := by decide +kernel

/-- Without a probation period, the budget pays the first epoch by the weight of the genesis.
The update at the end of the second epoch counts it by the weight that the first update stored. -/
theorem paid_and_counted_weights_differ :
    validateGenesis (promptGenesis genesisRewardWeight) = .ok () ∧
      ∃ (first next second closed read : Context Book),
        Reaches step (promptStart genesisRewardWeight)
          (List.replicate (blocksPerEpoch - 1) (.endBlock .sorted .empty)) first ∧
        first.LastBlock blocksPerEpoch ∧
        step first (.endBlock .sorted .empty) = some next ∧
        Reaches step next (List.replicate (blocksPerEpoch - 1) (.endBlock .sorted .empty)) second ∧
        closing .sorted second = .ok closed ∧ Consults closed read (epoch first) ∧
        weightPaid .sorted first = .ok (some (Dec.withPrec 5 2)) ∧
        weightCounted read (epoch first) = some (Dec.withPrec 75 3) ∧
        weightPaid .sorted first ≠ .ok (weightCounted read (epoch first)) := by
  have evaluated : previousWeight (promptSecond genesisRewardWeight) =
      some (true, 1, 4, some (Dec.withPrec 75 3)) := by
    decide +kernel
  rcases consults_of_previousWeight evaluated with ⟨closed, read, closes, consults, counted⟩
  have reached := promptFirst_reached genesisRewardWeight
  have taken := promptNext_taken (by decide +kernel :
    (step (promptFirst genesisRewardWeight) (.endBlock .sorted .empty)).isSome)
  rcases step_endBlock_stages taken with ⟨_, -, -, firstCloses, -⟩
  have firstGrounded : Grounded (promptFirst genesisRewardWeight) :=
    (reaches_keepsPast (promptStart_fresh genesisRewardWeight).grounded reached).grounded
  have paid := weightPaid_eq firstGrounded firstCloses
  have genesisWeight : valueAt (promptFirst genesisRewardWeight).treasury.rewardWeights
      (epoch (promptFirst genesisRewardWeight)) = some (Dec.withPrec 5 2) := by
    decide +kernel
  rw [genesisWeight] at paid
  have countedFirst : weightCounted read (epoch (promptFirst genesisRewardWeight)) =
      some (Dec.withPrec 75 3) := counted
  refine ⟨by decide, promptFirst genesisRewardWeight, promptNext genesisRewardWeight,
    promptSecond genesisRewardWeight, closed, read, reached, by decide, taken,
    promptNext_turned.reaches, closes, consults, paid, countedFirst, ?_⟩
  rw [paid, countedFirst]
  simp [Dec.withPrec]

end TerraCore.Chain.Block
