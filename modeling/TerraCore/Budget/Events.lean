import TerraCore.Budget.Run

/-!
# Events of the end blocker

The end blocker has an entry to report for every program that it decides or
weighs. It appends the tags of these entries, but does not keep what appending
returns, so that it reports nothing.
-/

namespace TerraCore.Budget

/-- What a call that appends tags makes of the tags that were collected before. -/
abbrev Append := Tags → Tags → Tags

/-- `Tags.AppendTag` and `Tags.AppendTags` return the longer list. -/
def appended : Append := fun resTags tags => resTags ++ tags

/-- A call whose result is not assigned leaves `resTags` as it is. -/
def discarded : Append := fun resTags _ => resTags

/-- A candidate whose vote has ended, with its tags. -/
def reportCandidate (append : Append) (staking : Staking) (state : Tags × BudgetStore)
    (programID : ℕ) : Tags × BudgetStore :=
  let (resTags, store) := state
  match store.programs[programID]? with
  | none => (resTags, store)
  | some program =>
      let (votePower, tallied) := tally staking store programID
      let (resTags, decided) :=
        if ClearsThreshold votePower staking.bondedTokens store.params.activeThreshold then
          (append resTags [.action .programPassed], tallied)
        else (append resTags [.action .programRejected], dropProgram tallied programID)
      let resTags := append resTags [.programID programID, .weight votePower]
      (resTags, decided.candQueueRemove (program.getVotingEndBlock store.params) programID)

/-- An active program, with its tags. -/
def reportProgram (append : Append) (staking : Staking)
    (state : Tags × List (Claim ℤ) × BudgetStore) (program : Program) :
    Tags × List (Claim ℤ) × BudgetStore :=
  let (resTags, claims, store) := state
  if store.candQueueHas (program.getVotingEndBlock store.params) program.programID then state
  else
    let (votePower, tallied) := tally staking store program.programID
    let (resTags, claims, store) :=
      if ClearsThreshold votePower staking.bondedTokens store.params.legacyThreshold then
        (append resTags [.action .programGranted],
          claims ++ [⟨votePower, program.executor⟩], tallied)
      else
        (append resTags [.action .programLegacied], claims,
          dropProgram tallied program.programID)
    (append resTags [.programID program.programID, .weight votePower], claims, store)

variable {L : Type} [Sdk L]

/-- `EndBlocker` with the tags that it collects. -/
def reportingEndBlocker (append : Append) (ctx : Context L) : Outcome (Tags × Context L) := do
  let params := ctx.budget.params
  let (resTags, budget) := (ctx.budget.expiredCandidates ctx.height).foldl
    (reportCandidate append ctx.staking) ([], ctx.budget)
  let ctx := { ctx with budget }
  let last ← ctx.isPeriodLastBlock params.votePeriod
  let (resTags, ctx) :=
    if last then
      let (resTags, claims, store) := (ctx.budget.programs.toList.map Prod.snd).foldl
        (reportProgram append ctx.staking) (resTags, [], ctx.budget)
      (resTags, { ctx with budget := store.addClaimPool claims })
    else (resTags, ctx)
  let ctx ← rewardPhase ctx
  pure (resTags, ctx)

/-- What there is to report on one program. -/
structure Entry where
  action : TerraCore.Action
  programID : ℕ
  weight : ℤ
deriving DecidableEq

def Entry.tags (entry : Entry) : Tags :=
  [.action entry.action, .programID entry.programID, .weight entry.weight]

/-- The entry of a candidate, if its program is stored. -/
def decision (staking : Staking) (store : BudgetStore) (programID : ℕ) : List Entry :=
  match store.programs[programID]? with
  | none => []
  | some _ =>
      [⟨if Passes staking store programID then .programPassed else .programRejected, programID,
        votePower staking store programID⟩]

/-- The entry of a program, if it is active. -/
def weighing (staking : Staking) (store : BudgetStore) (program : Program) : List Entry :=
  if isQueued store program then []
  else
    [⟨if Survives staking store program.programID then .programGranted else .programLegacied,
      program.programID, votePower staking store program.programID⟩]

/-- The entries of candidates that are decided one after another. -/
def decisions (staking : Staking) : BudgetStore → List ℕ → List Entry
  | _, [] => []
  | store, programID :: rest =>
      decision staking store programID ++
        decisions staking (decideCandidate staking store programID) rest

/-- The entries of programs that are weighed one after another. -/
def weighings (staking : Staking) : BudgetStore → List Program → List Entry
  | _, [] => []
  | store, program :: rest =>
      weighing staking store program ++ weighings staking (weighed staking store program) rest

/-- The entries of all programs that the end of a block decides or weighs. -/
def entries (ctx : Context L) : List Entry :=
  let store := decideCandidates ctx.staking ctx.height ctx.budget
  decisions ctx.staking ctx.budget (ctx.budget.expiredCandidates ctx.height) ++
    if ctx.LastBlock ctx.budget.params.votePeriod then
      weighings ctx.staking store (programsOf store)
    else []

/-- Append the tags of a list of entries. -/
def report (append : Append) (resTags : Tags) (listed : List Entry) : Tags :=
  listed.foldl (fun resTags entry => append (append resTags [.action entry.action])
    [.programID entry.programID, .weight entry.weight]) resTags

theorem report_appended (resTags : Tags) (listed : List Entry) :
    report appended resTags listed = resTags ++ listed.flatMap Entry.tags := by
  induction listed generalizing resTags with
  | nil => simp [report]
  | cons entry listed ih =>
      refine (ih _).trans ?_
      simp [appended, Entry.tags]

theorem report_discarded (resTags : Tags) (listed : List Entry) :
    report discarded resTags listed = resTags := by
  induction listed generalizing resTags with
  | nil => rfl
  | cons entry listed ih => exact ih resTags

theorem report_append (append : Append) (resTags : Tags) (first second : List Entry) :
    report append resTags (first ++ second) =
      report append (report append resTags first) second :=
  List.foldl_append

theorem reportCandidate_eq (append : Append) (staking : Staking) (resTags : Tags)
    (store : BudgetStore) (programID : ℕ) :
    reportCandidate append staking (resTags, store) programID =
      (report append resTags (decision staking store programID),
        decideCandidate staking store programID) := by
  unfold reportCandidate decision decideCandidate
  cases stored : store.programs[programID]? with
  | none =>
      simp only [stored]
      rfl
  | some program =>
      simp only [stored, tally_fst]
      by_cases passes : Passes staking store programID
      · have clears : ClearsThreshold (votePower staking store programID) staking.bondedTokens
            store.params.activeThreshold := passes
        simp only [clears, passes, if_true]
        rfl
      · have fails : ¬ClearsThreshold (votePower staking store programID) staking.bondedTokens
            store.params.activeThreshold := passes
        simp only [fails, passes, if_false]
        rfl

theorem foldl_reportCandidate_eq (append : Append) (staking : Staking) (programIDs : List ℕ)
    (resTags : Tags) (store : BudgetStore) :
    programIDs.foldl (reportCandidate append staking) (resTags, store) =
      (report append resTags (decisions staking store programIDs),
        programIDs.foldl (decideCandidate staking) store) := by
  induction programIDs generalizing resTags store with
  | nil => rfl
  | cons programID rest ih =>
      rw [List.foldl_cons, reportCandidate_eq, ih, decisions, report_append]
      rfl

theorem reportProgram_eq (append : Append) (staking : Staking) (resTags : Tags)
    (claims : List (Claim ℤ)) (store : BudgetStore) (program : Program) :
    reportProgram append staking (resTags, claims, store) program =
      (report append resTags (weighing staking store program),
        weighProgram staking (claims, store) program) := by
  unfold reportProgram weighing weighProgram
  by_cases queued : isQueued store program
  · rw [if_pos queued]
    have has : store.candQueueHas (program.getVotingEndBlock store.params) program.programID =
        true := queued
    simp only [has, if_true]
    rfl
  · rw [if_neg queued]
    have hasNot : ¬store.candQueueHas (program.getVotingEndBlock store.params)
        program.programID = true := queued
    simp only [hasNot, tally_fst]
    by_cases survives : Survives staking store program.programID
    · have clears : ClearsThreshold (votePower staking store program.programID)
          staking.bondedTokens store.params.legacyThreshold := survives
      simp only [clears, survives, if_true]
      rfl
    · have fails : ¬ClearsThreshold (votePower staking store program.programID)
          staking.bondedTokens store.params.legacyThreshold := survives
      simp only [fails, survives, if_false]
      rfl

theorem foldl_reportProgram_eq (append : Append) (staking : Staking) (programs : List Program)
    (resTags : Tags) (claims : List (Claim ℤ)) (store : BudgetStore) :
    programs.foldl (reportProgram append staking) (resTags, claims, store) =
      (report append resTags (weighings staking store programs),
        programs.foldl (weighProgram staking) (claims, store)) := by
  induction programs generalizing resTags claims store with
  | nil => rfl
  | cons program rest ih =>
      rw [List.foldl_cons, reportProgram_eq, weighProgram_eq, ih, weighings, report_append,
        List.foldl_cons, weighProgram_eq]

/-- Collecting tags changes nothing but the tags. -/
theorem reportingEndBlocker_eq (append : Append) (ctx : Context L) :
    reportingEndBlocker append ctx =
      (endBlocker ctx).map fun done => (report append [] (entries ctx), done.2) := by
  have collected : ∀ (outcome : Outcome (Context L)) (resTags : Tags),
      (outcome >>= fun after => pure (resTags, after)) =
        (outcome >>= fun after => pure (([] : Tags), after)).map
          fun done => (resTags, done.2) := by
    intro outcome resTags
    cases outcome <;> rfl
  have sameLast : ∀ budget : BudgetStore,
      ({ ctx with budget } : Context L).LastBlock ctx.budget.params.votePeriod ↔
        ctx.LastBlock ctx.budget.params.votePeriod := fun _ => Iff.rfl
  unfold reportingEndBlocker endBlocker
  rw [weighPhase_decidePhase]
  simp only [foldl_reportCandidate_eq, foldl_reportProgram_eq, Context.isPeriodLastBlock]
  by_cases zero : ctx.budget.params.votePeriod = 0
  · simp [zero, bind, Except.bind, Except.map]
  · rw [if_neg zero, if_neg zero]
    by_cases last : ctx.LastBlock ctx.budget.params.votePeriod
    · simp only [sameLast, last, decide_true, if_true, entries, report_append, reweighed,
        bind, Except.bind]
      exact collected _ _
    · simp only [sameLast, last, decide_false, if_false, entries, List.append_nil, reweighed,
        Bool.false_eq_true, bind, Except.bind]
      exact collected _ _

/-- The end blocker is the one that discards the tags. -/
theorem reportingEndBlocker_discarded (ctx : Context L) :
    reportingEndBlocker discarded ctx = endBlocker ctx := by
  rw [reportingEndBlocker_eq, report_discarded]
  cases ended : endBlocker ctx with
  | error failure => rfl
  | ok done =>
      rcases Outcome.bind_eq_ok.mp ended with ⟨weighedCtx, -, rest⟩
      rcases Outcome.bind_eq_ok.mp rest with ⟨paid, -, finished⟩
      cases finished
      rfl

theorem reportingEndBlocker_eq_ok {append : Append} {ctx after : Context L} {resTags : Tags}
    (done : reportingEndBlocker append ctx = .ok (resTags, after)) :
    resTags = report append [] (entries ctx) := by
  rw [reportingEndBlocker_eq] at done
  cases ended : endBlocker ctx with
  | error failure =>
      rw [ended] at done
      cases done
  | ok result =>
      rw [ended] at done
      cases done
      rfl

/-- The tags are those of the entries, each of them once, in some order. -/
def Reported (ctx : Context L) (resTags : Tags) : Prop :=
  ∃ listed : List Entry, listed.Perm (entries ctx) ∧ resTags = listed.flatMap Entry.tags

/-- Tags that are kept report everything. -/
theorem reported_appended {ctx after : Context L} {resTags : Tags}
    (done : reportingEndBlocker appended ctx = .ok (resTags, after)) : Reported ctx resTags := by
  refine ⟨entries ctx, List.Perm.refl _, ?_⟩
  rw [reportingEndBlocker_eq_ok done, report_appended, List.nil_append]

theorem decisions_eq_nil_iff (staking : Staking) (store : BudgetStore) (programIDs : List ℕ) :
    decisions staking store programIDs = [] ↔
      ∀ programID ∈ programIDs, store.programs[programID]? = none := by
  induction programIDs with
  | nil => simp [decisions]
  | cons programID rest ih =>
      rw [decisions, List.append_eq_nil_iff, List.forall_mem_cons]
      cases stored : store.programs[programID]? with
      | none =>
          rw [decideCandidate_of_missing staking stored, ih]
          simp [decision, stored]
      | some program => simp [decision, stored]

theorem decideCandidates_of_missing (staking : Staking) {store : BudgetStore} {height : ℕ}
    (missing : ∀ programID ∈ store.expiredCandidates height,
      store.programs[programID]? = none) : decideCandidates staking height store = store := by
  unfold decideCandidates
  revert missing
  generalize store.expiredCandidates height = programIDs
  intro missing
  induction programIDs with
  | nil => rfl
  | cons programID rest ih =>
      rw [List.foldl_cons, decideCandidate_of_missing staking (missing _ List.mem_cons_self)]
      exact ih fun other later => missing other (List.mem_cons_of_mem _ later)

theorem weighings_eq_nil_iff (staking : Staking) (store : BudgetStore) (programs : List Program) :
    weighings staking store programs = [] ↔
      ∀ program ∈ programs, isQueued store program = true := by
  induction programs with
  | nil => simp [weighings]
  | cons program rest ih =>
      rw [weighings, List.append_eq_nil_iff, List.forall_mem_cons]
      by_cases queued : isQueued store program
      · rw [weighed, if_pos queued, ih]
        simp [weighing, queued]
      · simp [weighing, queued]

omit [Sdk L] in
/-- There is nothing to report when the block decides no candidate and weighs no program. -/
theorem entries_eq_nil_iff (ctx : Context L) :
    entries ctx = [] ↔
      (∀ programID ∈ ctx.budget.expiredCandidates ctx.height,
        ctx.budget.programs[programID]? = none) ∧
      (ctx.LastBlock ctx.budget.params.votePeriod →
        ∀ program ∈ programsOf ctx.budget, isQueued ctx.budget program = true) := by
  unfold entries
  rw [List.append_eq_nil_iff, decisions_eq_nil_iff]
  refine and_congr_right fun missing => ?_
  rw [decideCandidates_of_missing ctx.staking missing]
  by_cases last : ctx.LastBlock ctx.budget.params.votePeriod
  · simp [last, weighings_eq_nil_iff]
  · simp [last]

/-- The end blocker reports everything exactly when there is nothing to report:
no candidate whose vote has ended is stored, and at the end of a vote period no
program is active. -/
theorem events_reported_iff {ctx after : Context L} {resTags : Tags}
    (done : reportingEndBlocker discarded ctx = .ok (resTags, after)) :
    Reported ctx resTags ↔
      (∀ programID ∈ ctx.budget.expiredCandidates ctx.height,
        ctx.budget.programs[programID]? = none) ∧
      (ctx.LastBlock ctx.budget.params.votePeriod →
        ∀ program ∈ programsOf ctx.budget, isQueued ctx.budget program = true) := by
  rw [← entries_eq_nil_iff, reportingEndBlocker_eq_ok done, report_discarded]
  constructor
  · rintro ⟨listed, sameEntries, noTags⟩
    cases listed with
    | nil => exact List.perm_nil.mp sameEntries.symm
    | cons entry listed => cases noTags
  · intro nothing
    rw [Reported, nothing]
    exact ⟨[], List.Perm.refl _, rfl⟩

/-- The block in which the vote on the only program ends. Nobody has voted. -/
def deciding : Context Book :=
  { sampleStart with
    height := 50400
    budget := addCandidate sampleStart.budget sampleProgram 0 }

/-- The block before it, which ends a vote period while the program is waiting. -/
def waiting : Context Book := { deciding with height := 50399 }

theorem events_reported_iff_quiet :
    waiting.LastBlock waiting.budget.params.votePeriod ∧
      (programsOf waiting.budget).length = 1 ∧
      ∃ (resTags : Tags) (after : Context Book),
        reportingEndBlocker discarded waiting = .ok (resTags, after) ∧
          Reported waiting resTags := by
  have finishes : (reportingEndBlocker discarded waiting).isOk = true := by decide +kernel
  have noneExpired : waiting.budget.expiredCandidates waiting.height = [] := by decide +kernel
  have queued : ∀ program ∈ programsOf waiting.budget, isQueued waiting.budget program = true := by
    decide +kernel
  refine ⟨by decide, by decide +kernel, ?_⟩
  cases done : reportingEndBlocker discarded waiting with
  | error failure =>
      rw [done] at finishes
      cases finishes
  | ok result =>
      refine ⟨result.1, result.2, rfl, (events_reported_iff done).mpr ⟨?_, fun _ => queued⟩⟩
      intro programID expired
      rw [noneExpired] at expired
      cases expired

/-- The program is rejected and deleted without a tag. -/
theorem rejection_not_reported :
    entries deciding = [⟨.programRejected, 1, 0⟩] ∧
      ∃ (resTags : Tags) (after : Context Book),
        reportingEndBlocker discarded deciding = .ok (resTags, after) ∧ resTags = [] ∧
          after.budget.programs[1]? = none ∧ ¬Reported deciding resTags := by
  have decided : entries deciding = [⟨.programRejected, 1, 0⟩] := by decide +kernel
  have returned : (reportingEndBlocker discarded deciding).toOption.map (fun done =>
      (done.1, done.2.budget.programs[1]?)) = some ([], none) := by decide +kernel
  refine ⟨decided, ?_⟩
  cases done : reportingEndBlocker discarded deciding with
  | error failure =>
      rw [done] at returned
      cases returned
  | ok result =>
      rw [done] at returned
      rcases Prod.mk.inj (Option.some.inj returned) with ⟨noTags, deleted⟩
      refine ⟨result.1, result.2, rfl, noTags, deleted, ?_⟩
      rintro ⟨listed, sameEntries, tagsEq⟩
      rw [decided, List.perm_singleton] at sameEntries
      rw [noTags, sameEntries] at tagsEq
      cases tagsEq

end TerraCore.Budget
