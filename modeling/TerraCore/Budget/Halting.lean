import TerraCore.Budget.Payout

/-!
# Blocks that cannot end

The end blocker panics when the rewards of an epoch cannot be paid, and in no
other case. A program can keep a claim without any weight: the legacy threshold
may be zero, and the votes on an active program may cancel out. If there is no
other claim, the rewards are divided by a total weight of zero.
-/

namespace TerraCore.Budget

open Transition

variable {L : Type} [Sdk L]

/-- The parameters stay the same, and the rest of the chain does not remove the
reward weight of the first epoch. -/
structure Admissible (action : Action L) : Prop where
  constantParams : ∀ params, action ≠ .setParams params
  keepsRewardWeight : ∀ change, action = .elsewhere change → ∀ ctx : Context L,
    (∃ weight, ctx.treasury.rewardWeights[(0 : ℤ)]? = some weight) →
      ∃ weight, (change ctx).treasury.rewardWeights[(0 : ℤ)]? = some weight

/-- The invariant of a run with constant parameters. -/
structure Audited (params : Params) (ctx : Context L) : Prop where
  consistent : Consistent ctx
  params : ctx.budget.params = params
  claims : ∀ (recipient : Address) (weight : ℤ),
    ctx.budget.claims[recipient]? = some weight → 0 ≤ weight
  rewardWeight : ∃ weight, ctx.treasury.rewardWeights[(0 : ℤ)]? = some weight

theorem votePower_nonneg_of_survives {staking : Staking} {store : BudgetStore} {programID : ℕ}
    (legacyThreshold : Dec.zero ≤ store.params.legacyThreshold)
    (survives : Survives staking store programID) : 0 ≤ votePower staking store programID := by
  have thresholdNonneg : 0 ≤ (store.params.legacyThreshold.mulInt staking.bondedTokens).raw :=
    mul_nonneg legacyThreshold (Int.natCast_nonneg _)
  exact (Dec.roundInt_nonneg thresholdNonneg).trans survives

omit [Sdk L] in
theorem dueClaims_nonneg {ctx : Context L}
    (legacyThreshold : Dec.zero ≤ ctx.budget.params.legacyThreshold)
    (claims : ∀ (recipient : Address) (weight : ℤ),
      ctx.budget.claims[recipient]? = some weight → 0 ≤ weight)
    (recipient : Address) (weight : ℤ) (present : (dueClaims ctx)[recipient]? = some weight) :
    0 ≤ weight := by
  unfold dueClaims at present
  split at present
  · refine Store.accumulateAll_induction (fun amount : ℤ => 0 ≤ amount)
      (fun _ _ left right => add_nonneg left right) claims ?_ recipient weight present
    intro entry entryMem
    rcases List.mem_map.mp entryMem with ⟨claim, claimMem, rfl⟩
    rcases List.mem_flatMap.mp claimMem with ⟨program, -, granted⟩
    unfold dueGrant at granted
    split at granted
    · next earned =>
        rcases List.mem_singleton.mp granted with rfl
        exact votePower_nonneg_of_survives legacyThreshold earned.2
    · cases granted
  · exact claims recipient weight present

omit [Sdk L] in
theorem deliver_treasury {ctx : Context L} {outcome : Outcome (Result × Context L)}
    (same : ∀ result after, outcome = .ok (result, after) → after.treasury = ctx.treasury) :
    (ctx.deliver outcome).treasury = ctx.treasury := by
  rcases ctx.deliver_cases outcome with ⟨result, done⟩ | ⟨-, unchanged⟩
  · exact same result _ done
  · rw [unchanged]

theorem step_rewardWeight {ctx next : Context L} {action : Action L}
    (taken : step ctx action = some next) (admissible : Admissible action)
    (stored : ∃ weight, ctx.treasury.rewardWeights[(0 : ℤ)]? = some weight) :
    ∃ weight, next.treasury.rewardWeights[(0 : ℤ)]? = some weight := by
  cases action with
  | submitProgram msg =>
      cases taken
      rwa [deliver_treasury fun _ _ handled => (handleMsgSubmitProgram_eq_ok handled).2.2.1]
  | withdrawProgram msg =>
      cases taken
      rw [deliver_treasury]
      · exact stored
      · intro result after handled
        rcases handleMsgWithdrawProgram_eq_ok handled with ⟨-, -, -, -, treasury, -⟩
        exact treasury
  | voteProgram msg =>
      cases taken
      rw [deliver_treasury]
      · exact stored
      · intro result after handled
        rw [(handleMsgVoteProgram_eq_ok handled).2]
  | endBlock =>
      simp only [step] at taken
      split at taken
      · next after done =>
          cases taken
          rcases stored with ⟨weight, present⟩
          exact ⟨weight, (endBlocker_eq_ok done).2.2 0 weight present⟩
      · cases taken
  | setParams params =>
      cases taken
      exact stored
  | elsewhere change =>
      cases taken
      exact admissible.keepsRewardWeight change rfl ctx stored

theorem step_audited {params : Params} (valid : params.Valid) {ctx next : Context L}
    {action : Action L} (taken : step ctx action = some next) (admissible : Admissible action)
    (audited : Audited params ctx) : Audited params next := by
  have consistent := step_consistent taken audited.consistent
  have rewardWeight := step_rewardWeight taken admissible audited.rewardWeight
  cases step_effect taken with
  | kept _ _ budget =>
      exact ⟨consistent, budget ▸ audited.params, budget ▸ audited.claims, rewardWeight⟩
  | submitted _ _ budget =>
      exact ⟨consistent, budget ▸ audited.params, budget ▸ audited.claims, rewardWeight⟩
  | withdrew _ _ _ budget =>
      exact ⟨consistent, budget ▸ audited.params, budget ▸ audited.claims, rewardWeight⟩
  | voted _ _ budget =>
      exact ⟨consistent, budget ▸ audited.params, budget ▸ audited.claims, rewardWeight⟩
  | ended _ budget =>
      refine ⟨consistent, ?_, ?_, rewardWeight⟩
      · rw [budget, rewarded_params, reweighed_params]
        exact audited.params
      · have legacyThreshold : Dec.zero ≤ ctx.budget.params.legacyThreshold := by
          rw [audited.params]
          exact valid.legacyThreshold
        have dueNonneg := dueClaims_nonneg legacyThreshold audited.claims
        rw [← reweighed_claims audited.consistent.wellFormed] at dueNonneg
        rw [budget]
        unfold rewarded
        split
        · exact fun recipient weight present =>
            dueNonneg recipient weight (Store.get_of_get_eraseAll present)
        · exact dueNonneg
  | paramsSet _ _ => exact absurd rfl (admissible.constantParams _)

theorem reaches_audited {params : Params} (valid : params.Valid) {start ctx : Context L}
    {actions : List (Action L)} (reached : Reaches step start actions ctx)
    (admissible : ∀ action ∈ actions, Admissible action) (audited : Audited params start) :
    Audited params ctx := by
  induction reached with
  | refl => exact audited
  | snoc _ taken ih =>
      have before := ih fun action earlier => admissible action (List.mem_append_left _ earlier)
      exact step_audited valid taken (admissible _ (by simp)) before

/-- In every state that is reached from genesis with valid parameters, the end
blocker finishes exactly when the rewards that are due can be paid. -/
theorem endBlocker_finishes_iff {params : Params} {start ctx : Context L} {first : Dec}
    {actions : List (Action L)} (valid : params.Valid)
    (initial : start.budget = BudgetStore.initial params)
    (weighted : start.treasury.rewardWeights[(0 : ℤ)]? = some first)
    (admissible : ∀ action ∈ actions, Admissible action)
    (reached : Reaches step start actions ctx) :
    (∃ tags after, endBlocker ctx = .ok (tags, after)) ↔ Payable ctx := by
  have initially : Audited params start := by
    refine ⟨initial_consistent valid.votePeriod initial, by rw [initial]; rfl, ?_,
      ⟨first, weighted⟩⟩
    rw [initial]
    exact fun _ _ present => by simp [BudgetStore.initial] at present
  have audited := reaches_audited valid reached admissible initially
  rcases audited.rewardWeight with ⟨weight, stored⟩
  refine endBlocker_isOk_iff audited.consistent.wellFormed ?_ ?_ stored
  · exact audited.consistent.votePeriod.ne'
  · refine dueClaims_nonneg ?_ audited.claims
    rw [audited.params]
    exact valid.legacyThreshold

theorem expiredCandidates_eq_nil_of_le {store : BudgetStore} {height later : ℤ}
    (order : height ≤ later) (noneLater : store.expiredCandidates later = []) :
    store.expiredCandidates height = [] := by
  rw [List.eq_nil_iff_forall_not_mem] at noneLater ⊢
  intro programID expired
  rcases (BudgetStore.mem_expiredCandidates_iff _ _ _).mp expired with ⟨due, overdue, present⟩
  exact noneLater programID
    ((BudgetStore.mem_expiredCandidates_iff _ _ _).mpr ⟨due, overdue.trans order, present⟩)

/-- Nothing happens at the end of a block that ends no vote and no period. -/
theorem step_endBlock_of_quiet {ctx : Context L}
    (votePeriod : ctx.budget.params.votePeriod ≠ 0)
    (noneExpired : ctx.budget.expiredCandidates ctx.height = [])
    (notVotePeriod : ¬ctx.LastBlock ctx.budget.params.votePeriod)
    (notEpoch : ¬ctx.LastBlock blocksPerEpoch) :
    step ctx .endBlock = some { ctx with height := ctx.height + 1 } := by
  have sameStore : reweighed ctx = ctx.budget := by
    unfold reweighed decideCandidates
    rw [noneExpired]
    exact if_neg notVotePeriod
  have firstPhases : weighPhase (decidePhase ctx) = .ok ctx := by
    rw [weighPhase_decidePhase, if_neg votePeriod, sameStore]
  have thirdPhase : rewardPhase ctx = .ok ctx := by
    unfold rewardPhase
    rw [ctx.isPeriodLastBlock_eq (by decide), decide_eq_false notEpoch]
    rfl
  have finished : endBlocker ctx = .ok ([], ctx) :=
    Outcome.bind_eq_ok.mpr ⟨ctx, firstPhases, Outcome.bind_eq_ok.mpr ⟨ctx, thirdPhase, rfl⟩⟩
  simp only [step, finished]

theorem reaches_of_quiet (ctx : Context L) {votePeriod : ℕ}
    (period : ctx.budget.params.votePeriod = votePeriod) (positive : votePeriod ≠ 0) (count : ℕ)
    (noneExpired : ctx.budget.expiredCandidates (ctx.height + count) = [])
    (quiet : ∀ passed < count, (ctx.height + passed + 1) % votePeriod ≠ 0 ∧
      (ctx.height + passed + 1) % blocksPerEpoch ≠ 0) :
    Reaches step ctx (List.replicate count .endBlock)
      { ctx with height := ctx.height + count } := by
  induction count with
  | zero => exact .refl
  | succ count ih =>
      have earlier := ih
        (expiredCandidates_eq_nil_of_le (by push_cast; omega) noneExpired)
        fun passed before => quiet passed (by omega)
      rcases quiet count (by omega) with ⟨notVotePeriod, notEpoch⟩
      rw [List.replicate_succ']
      refine earlier.snoc (step_endBlock_of_quiet ?_ ?_ ?_ ?_)
      · simp only [period]
        exact_mod_cast positive
      · exact expiredCandidates_eq_nil_of_le (by push_cast; omega) noneExpired
      · simp only [period]
        rw [Context.lastBlock_natCast]
        exact notVotePeriod
      · rw [Context.lastBlock_natCast]
        exact notEpoch

theorem reaches_waiting {start ctx : Context L} {actions : List (Action L)} {height votePeriod : ℕ}
    (reached : Reaches step start actions ctx) (ctxHeight : ctx.height = height)
    (period : ctx.budget.params.votePeriod = votePeriod) (positive : votePeriod ≠ 0) (count : ℕ)
    (queue : ctx.budget.expiredCandidates (height + count : ℕ) = [])
    (quiet : ∀ passed < count, (height + passed + 1) % votePeriod ≠ 0 ∧
      (height + passed + 1) % 100800 ≠ 0) :
    Reaches step start (actions ++ List.replicate count .endBlock)
      { ctx with height := height + count } := by
  have epochLength : blocksPerEpoch = 100800 := by
    simp only [blocksPerEpoch, blocksPerWeek, blocksPerDay, blocksPerHour, blocksPerMinute]
  subst ctxHeight
  apply reached.trans (reaches_of_quiet ctx period positive count _ _)
  · exact_mod_cast queue
  · rw [epochLength]
    exact quiet

omit [Sdk L] in
theorem forall_mem_waiting {P : Action L → Prop} {actions : List (Action L)}
    (each : ∀ action ∈ actions, P action) (idles : P .endBlock) (count : ℕ) :
    ∀ action ∈ actions ++ List.replicate count .endBlock, P action := by
  apply List.forall_mem_append.mpr ⟨each, _⟩
  intro action listed
  rw [List.eq_of_mem_replicate listed]
  exact idles

/-- The state after a list of actions, or the same state when they cannot be performed. -/
def performed (ctx : Context L) (actions : List (Action L)) : Context L :=
  (perform step ctx actions).getD ctx

theorem reaches_performed {ctx : Context L} {actions : List (Action L)}
    (possible : (perform step ctx actions).isSome) :
    Reaches step ctx actions (performed ctx actions) := by
  rcases Option.isSome_iff_exists.mp possible with ⟨final, isFinal⟩
  unfold performed
  rw [isFinal]
  exact reaches_of_perform isFinal

/-- Three vote periods are an epoch. -/
def thirdsParams : Params := { sampleParams with votePeriod := 33600 }

def thirdsStart : Context Book := { sampleStart with budget := BudgetStore.initial thirdsParams }

/-- Three programs are submitted, the second one for another executor, and both
validators vote for the first one, but only one of them for the second. -/
def fundingActions : List (Action Book) :=
  [.submitProgram sampleProgram,
    .submitProgram { sampleProgram with executor := List.replicate 20 5 },
    .submitProgram sampleProgram, .voteProgram ⟨1, true, List.replicate 20 1⟩,
    .voteProgram ⟨1, true, List.replicate 20 2⟩, .voteProgram ⟨2, true, List.replicate 20 1⟩]

/-- The third program is withdrawn, so that Luna is minted, and the others become active. -/
def adoptingActions : List (Action Book) :=
  [.endBlock, .withdrawProgram ⟨3, List.replicate 20 3⟩, .endBlock]

/-- The second period ends, and then the second program gets another vote. -/
def supportingActions : List (Action Book) :=
  [.endBlock, .voteProgram ⟨2, true, List.replicate 20 2⟩]

def payingActions : List (Action Book) :=
  fundingActions ++ List.replicate 33599 .endBlock ++ adoptingActions ++
    List.replicate 33598 .endBlock ++ supportingActions ++ List.replicate 33599 .endBlock

def funded : Context Book := performed thirdsStart fundingActions

def adopted : Context Book := performed { funded with height := 33599 } adoptingActions

def supported : Context Book := performed { adopted with height := 67199 } supportingActions

/-- The last block of the first epoch, which pays two executors. -/
def paying : Context Book := { supported with height := 100799 }

theorem thirdsParams_valid : thirdsParams.Valid :=
  { sampleParams_valid with votePeriod := by decide }

theorem reaches_paying : Reaches step thirdsStart payingActions paying := by
  have funds : Reaches step thirdsStart fundingActions funded :=
    reaches_performed (by decide +kernel)
  have adopts : Reaches step { funded with height := 33599 } adoptingActions adopted :=
    reaches_performed (by decide +kernel)
  have supports : Reaches step { adopted with height := 67199 } supportingActions supported :=
    reaches_performed (by decide +kernel)
  have first := reaches_waiting funds (by decide +kernel : funded.height = 0)
    (by decide +kernel : funded.budget.params.votePeriod = (33600 : ℕ)) (by decide) 33599
    (by decide +kernel) (by omega)
  have second := reaches_waiting (first.trans adopts) (by decide +kernel : adopted.height = 33601)
    (by decide +kernel : adopted.budget.params.votePeriod = (33600 : ℕ)) (by decide) 33598
    (by decide +kernel) (by omega)
  exact reaches_waiting (second.trans supports) (by decide +kernel : supported.height = 67200)
    (by decide +kernel : supported.budget.params.votePeriod = (33600 : ℕ)) (by decide) 33599
    (by decide +kernel) (by omega)

theorem forall_mem_payingActions {P : Action Book → Prop} (idles : P .endBlock)
    (submits : P (.submitProgram sampleProgram))
    (submitsOther : P (.submitProgram { sampleProgram with executor := List.replicate 20 5 }))
    (withdraws : ∀ msg, P (.withdrawProgram msg)) (votes : ∀ msg, P (.voteProgram msg)) :
    ∀ action ∈ payingActions, P action := by
  have funds : ∀ action ∈ fundingActions, P action := by
    simp only [fundingActions, List.forall_mem_cons, List.not_mem_nil, false_implies,
      implies_true, and_true]
    exact ⟨submits, submitsOther, submits, votes _, votes _, votes _⟩
  have adopts : ∀ action ∈ adoptingActions, P action := by
    simp [adoptingActions, idles, withdraws]
  have supports : ∀ action ∈ supportingActions, P action := by
    simp [supportingActions, idles, votes]
  have first := List.forall_mem_append.mpr ⟨forall_mem_waiting funds idles 33599, adopts⟩
  have second := List.forall_mem_append.mpr ⟨forall_mem_waiting first idles 33598, supports⟩
  exact forall_mem_waiting second idles 33599

/-- What has to be computed of the rewards at the end of the epoch: two claims, and
95 Luna for them. -/
theorem paying_rewards :
    (dueClaims paying).toList = [(List.replicate 20 4, 40), (List.replicate 20 5, 30)] ∧
      Dec.zero < epochReward paying ∧
      (rewardPoolCoin paying (epochReward paying)).toOption =
        some ⟨microLunaDenom, Dec.ofInt 95⟩ := by
  refine ⟨?_, ?_, ?_⟩ <;> decide +kernel

theorem paying_lastBlock : paying.LastBlock blocksPerEpoch := by
  rw [Context.lastBlock_natCast]
  exact Nat.mod_self blocksPerEpoch

theorem endBlocker_finishes_iff_sample :
    Reaches step thirdsStart payingActions paying ∧ paying.LastBlock blocksPerEpoch ∧
      Dec.zero < epochReward paying ∧ ∃ tags after, endBlocker paying = .ok (tags, after) := by
  rcases paying_rewards with ⟨claims, positive, pooled⟩
  have admissible : ∀ action ∈ payingActions, Admissible action :=
    forall_mem_payingActions ⟨nofun, nofun⟩ ⟨nofun, nofun⟩ ⟨nofun, nofun⟩
      (fun _ => ⟨nofun, nofun⟩) fun _ => ⟨nofun, nofun⟩
  have weighted : thirdsStart.treasury.rewardWeights[(0 : ℤ)]? =
      some Treasury.genesisRewardWeight := by decide +kernel
  have payable : Payable paying := by
    intro _ _ pool isPool recipient weight present
    rw [isPool] at pooled
    cases pooled
    rw [← Store.mem_toList_iff (dueClaims paying) (recipient, weight), claims] at present
    simp only [claimTotal, Store.sum, claims]
    simp only [List.mem_cons, List.not_mem_nil, or_false, Prod.mk.injEq] at present
    rcases present with ⟨-, rfl⟩ | ⟨-, rfl⟩ <;> decide
  exact ⟨reaches_paying, paying_lastBlock, positive,
    (endBlocker_finishes_iff thirdsParams_valid rfl weighted admissible reaches_paying).mpr
      payable⟩

/-- Nothing happens while the first vote period runs, nor between the actions at
its end and the last block of the epoch. -/
theorem reaches_epochEnd {start opened passed : Context L} {opening passing : List (Action L)}
    (opens : Reaches step start opening opened) (openedHeight : opened.height = 0)
    (openedPeriod : opened.budget.params.votePeriod = (50400 : ℕ))
    (openedQueue : opened.budget.expiredCandidates 50399 = [])
    (passes : Reaches step { opened with height := 50399 } passing passed)
    (passedHeight : passed.height = 50401)
    (passedPeriod : passed.budget.params.votePeriod = (50400 : ℕ))
    (passedQueue : passed.budget.expiredCandidates 100799 = []) :
    Reaches step start
      (opening ++ List.replicate 50399 .endBlock ++ passing ++ List.replicate 50398 .endBlock)
      { passed with height := 100799 } := by
  have waited : Reaches step start (opening ++ List.replicate 50399 .endBlock)
      { opened with height := 0 + 50399 } :=
    reaches_waiting opens openedHeight openedPeriod (by decide) 50399 openedQueue (by omega)
  exact reaches_waiting (waited.trans passes) passedHeight passedPeriod (by decide) 50398
    passedQueue (by omega)

omit [Sdk L] in
theorem forall_mem_epoch {P : Action L → Prop} {opening passing : List (Action L)}
    (opens : ∀ action ∈ opening, P action) (passes : ∀ action ∈ passing, P action)
    (idles : P .endBlock) (first second : ℕ) :
    ∀ action ∈ opening ++ List.replicate first .endBlock ++ passing ++
      List.replicate second .endBlock, P action := by
  have before := forall_mem_waiting opens idles first
  exact forall_mem_waiting (List.forall_mem_append.mpr ⟨before, passes⟩) idles second

/-- Two programs are submitted, and a validator votes for the first one. -/
def openingActions : List (Action Book) :=
  [.submitProgram sampleProgram, .submitProgram sampleProgram,
    .voteProgram ⟨1, true, List.replicate 20 1⟩]

/-- The second program is withdrawn before its vote ends, so that Luna is minted.
The first one becomes active, and then the other validator votes against it. -/
def decisiveActions : List (Action Book) :=
  [.endBlock, .withdrawProgram ⟨2, List.replicate 20 3⟩, .endBlock,
    .voteProgram ⟨1, false, List.replicate 20 2⟩]

def opened : Context Book := performed sampleStart openingActions

def contested : Context Book := performed { opened with height := 50399 } decisiveActions

/-- The last block of the first epoch. -/
def halting : Context Book := { contested with height := 100799 }

theorem reaches_opened : Reaches step sampleStart openingActions opened :=
  reaches_performed (by decide +kernel)

theorem reaches_contested :
    Reaches step { opened with height := 50399 } decisiveActions contested :=
  reaches_performed (by decide +kernel)

/-- The reason why a call did not complete. -/
def failureOf {α : Type} : Outcome α → Option Failure
  | .ok _ => none
  | .error failure => some failure

theorem failureOf_eq_some {α : Type} {outcome : Outcome α} {failure : Failure}
    (failed : failureOf outcome = some failure) : outcome = .error failure := by
  cases outcome with
  | ok value => cases failed
  | error found =>
      cases failed
      rfl

/-- Messages and block ends leave everything outside of the budget to the chain,
and programs have executors with proper addresses. -/
def Ordinary (action : Action Book) : Prop :=
  Admissible action ∧ ∀ msg, action = .submitProgram msg → msg.executor.length = addrLen

theorem ordinary_endBlock : Ordinary .endBlock := ⟨⟨by simp, by simp⟩, by simp⟩

theorem ordinary_submitProgram : Ordinary (.submitProgram sampleProgram) := by
  refine ⟨⟨by simp, by simp⟩, ?_⟩
  rintro msg ⟨rfl⟩
  rfl

theorem ordinary_voteProgram (msg : MsgVoteProgram) : Ordinary (.voteProgram msg) :=
  ⟨⟨by simp, by simp⟩, by simp⟩

theorem ordinary_withdrawProgram (msg : MsgWithdrawProgram) : Ordinary (.withdrawProgram msg) :=
  ⟨⟨by simp, by simp⟩, by simp⟩

/-- The votes on the only program cancel out when the epoch ends, and the end
blocker divides the rewards by a total weight of zero. -/
theorem endBlocker_divides_by_zero :
    sampleParams.Valid ∧ sampleStart.budget = BudgetStore.initial sampleParams ∧
      sampleStart.treasury = TreasuryStore.initGenesis Treasury.defaultParams
        Treasury.genesisTaxRate Treasury.genesisRewardWeight ∧
      ∃ actions, (∀ action ∈ actions, Ordinary action) ∧
        Reaches step sampleStart actions halting ∧ 0 < halting.staking.bondedTokens ∧
        endBlocker halting = .error (.panic .divisionByZero) := by
  refine ⟨sampleParams_valid, rfl, rfl, ?_⟩
  have opening : ∀ action ∈ openingActions, Ordinary action := by
    simp only [openingActions, List.forall_mem_cons, List.not_mem_nil, false_implies,
      implies_true, and_true]
    exact ⟨ordinary_submitProgram, ordinary_submitProgram, ordinary_voteProgram _⟩
  have decisive : ∀ action ∈ decisiveActions, Ordinary action := by
    simp only [decisiveActions, List.forall_mem_cons, List.not_mem_nil, false_implies,
      implies_true, and_true]
    exact ⟨ordinary_endBlock, ordinary_withdrawProgram _, ordinary_endBlock,
      ordinary_voteProgram _⟩
  have ended : Reaches step sampleStart (openingActions ++ List.replicate 50399 .endBlock ++
      decisiveActions ++ List.replicate 50398 .endBlock) halting := by
    apply reaches_epochEnd reaches_opened
    case passes => exact reaches_contested
    all_goals decide +kernel
  exact ⟨_, forall_mem_epoch opening decisive ordinary_endBlock _ _, ended, by decide +kernel,
    failureOf_eq_some (by decide +kernel)⟩

end TerraCore.Budget
