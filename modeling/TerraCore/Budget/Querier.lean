import TerraCore.Budget.KeyedRun

/-!
# Budget queries

The querier answers from the flat store, in the order of the keys. Along every
run its answers are those that the records of the model call for: votes are
selected by program and voter, and every stored program is either in the list of
candidates or in the list of active programs.

An answer is modelled by the value that it encodes.
-/

namespace TerraCore.Budget

open Transition

/-- The filter of a query for votes. An address that is decoded from the request
is empty or has `addrLen` bytes. -/
structure QueryVotesParams where
  voter : Address
  programID : ℕ
  voter_length : voter = [] ∨ voter.length = addrLen

inductive QueryError where
  | unknownEndpoint
  | incorrectlyFormatted
  | invalidProgramID
  | programNotFound (programID : ℕ)
deriving DecidableEq

inductive QueryResponse where
  | program (program : Program)
  | votes (votes : List MsgVoteProgram)
  | actives (programs : List Program)
  | candidates (programs : List Program)
  | params (params : Params)
deriving DecidableEq

/-- `strconv.Atoi`: a signed number of 64 bits. -/
def atoi (text : Bytes) : Option ℤ :=
  let negative := text.head? = some (Decimal.byte '-')
  let unsigned :=
    if negative ∨ text.head? = some (Decimal.byte '+') then text.tail else text
  match Decimal.parseUint unsigned with
  | none => none
  | some number =>
      if negative then if number ≤ 2 ^ 63 then some (-number) else none
      else if number < 2 ^ 63 then some number else none

/-- The conversion to `uint64`. -/
def toUint64 (number : ℤ) : ℕ := (number % 2 ^ 64).toNat

namespace Flat

variable (codec : AddressCodec) (flat : Flat)

def queryProgram (programIDStr : Bytes) : Option (Except QueryError QueryResponse) :=
  match atoi programIDStr with
  | none => some (.error .invalidProgramID)
  | some programIDInt => do
      let programID := toUint64 programIDInt
      match ← flat.getProgram programID with
      | none => some (.error (.programNotFound programID))
      | some program => some (.ok (.program program))

def queryVotes (params : QueryVotesParams) : Option (List MsgVoteProgram) :=
  let append (filteredVotes : List MsgVoteProgram) (vote : ℕ × Address × Bool) :=
    filteredVotes ++ [⟨vote.1, vote.2.2, vote.2.1⟩]
  let appendEqual (filteredVotes : List MsgVoteProgram) (vote : ℕ × Address × Bool) :=
    if params.voter = vote.2.1 then append filteredVotes vote else filteredVotes
  let iterate (start : Bytes)
      (handler : List MsgVoteProgram → ℕ × Address × Bool → List MsgVoteProgram) :=
    (flat.iterateVotesWithPrefix codec start).map fun votes => votes.foldl handler []
  if params.programID ≠ 0 ∧ params.voter ≠ [] then
    iterate (Keyed.keyVote codec params.programID params.voter) append
  else if params.programID ≠ 0 then iterate (Keyed.keyVote codec params.programID []) append
  else if params.voter ≠ [] then iterate Keyed.prefixVote appendEqual
  else iterate Keyed.prefixVote append

/-- `IteratePrograms` without the programs in the candidate queue. -/
def queryActiveList : Option (List Program) :=
  flat.programs.map fun programs => programs.filter fun program =>
    !flat.candQueueHas (program.getVotingEndBlock flat.params) program.programID

/-- Queued programs that are not stored are left out. -/
def queryCandidateList : Option (List Program) := do
  let programIDs ← flat.candQueueIterate
  let programs ← programIDs.mapM flat.getProgram
  some programs.reduceOption

/-- `NewQuerier` on a request whose data was decoded, if it could be. A path
that is too short panics. -/
def querier (path : List Bytes) (data : Option QueryVotesParams) :
    Option (Except QueryError QueryResponse) :=
  match path with
  | [] => none
  | endpoint :: path =>
      if endpoint = ascii "program" then path.head?.bind flat.queryProgram
      else if endpoint = ascii "votes" then
        match data with
        | none => some (.error .incorrectlyFormatted)
        | some params => (flat.queryVotes codec params).map fun votes => .ok (.votes votes)
      else if endpoint = ascii "active-list" then
        flat.queryActiveList.map fun programs => .ok (.actives programs)
      else if endpoint = ascii "candidate-list" then
        flat.queryCandidateList.map fun programs => .ok (.candidates programs)
      else if endpoint = ascii "params" then some (.ok (.params flat.params))
      else some (.error .unknownEndpoint)

end Flat

theorem atoi_print {number : ℕ} (bound : number < 2 ^ 63) :
    atoi (Decimal.print number) = some (number : ℤ) := by
  have unsigned : ∀ sign : UInt8, ¬Decimal.IsDigit sign →
      (Decimal.print number).head? ≠ some sign := by
    intro sign notDigit isHead
    exact notDigit (Decimal.isDigit_of_mem_print (List.mem_of_head? isHead))
  have noMinus := unsigned (Decimal.byte '-') (by decide)
  have noPlus := unsigned (Decimal.byte '+') (by decide)
  have parsed : Decimal.parseUint (Decimal.print number) = some number :=
    Decimal.parseUint_print (by omega)
  simp only [atoi, noMinus, noPlus, parsed, or_self, if_false, if_pos bound]

theorem toUint64_natCast {number : ℕ} (bound : number < 2 ^ 64) :
    toUint64 (number : ℤ) = number := by
  simp only [toUint64]
  omega

section Answers

variable {codec : AddressCodec} {flat : Flat} {store : BudgetStore}

theorem Keeps.queryProgram (keeps : Keeps codec flat store) {programIDStr : Bytes}
    {programIDInt : ℤ} (parsed : atoi programIDStr = some programIDInt) :
    flat.queryProgram programIDStr = some
      (match store.programs[toUint64 programIDInt]? with
      | none => .error (.programNotFound (toUint64 programIDInt))
      | some program => .ok (.program program)) := by
  simp only [Flat.queryProgram, parsed, keeps.getProgram, Option.bind_eq_bind, Option.bind_some]
  cases store.programs[toUint64 programIDInt]? <;> rfl

/-- The votes that a query asks for. -/
def QueryVotesParams.Selects (params : QueryVotesParams) (vote : MsgVoteProgram) : Prop :=
  (params.programID = 0 ∨ vote.programID = params.programID) ∧
    (params.voter = [] ∨ vote.voter = params.voter)

/-- A vote as the querier lists it. -/
def listedVote (vote : ℕ × Address × Bool) : MsgVoteProgram := ⟨vote.1, vote.2.2, vote.2.1⟩

theorem listedVote_injective : Function.Injective listedVote := by
  rintro ⟨programID, voter, option⟩ ⟨programID', voter', option'⟩ same
  simp only [listedVote, MsgVoteProgram.mk.injEq] at same
  rcases same with ⟨rfl, rfl, rfl⟩
  rfl

theorem foldl_handler {handler : List MsgVoteProgram → ℕ × Address × Bool → List MsgVoteProgram}
    {selected : ℕ × Address × Bool → Bool}
    (handles : ∀ filtered vote, handler filtered vote =
      if selected vote then filtered ++ [listedVote vote] else filtered)
    (votes : List (ℕ × Address × Bool)) (filtered : List MsgVoteProgram) :
    votes.foldl handler filtered = filtered ++ (votes.filter selected).map listedVote := by
  induction votes generalizing filtered with
  | nil => simp
  | cons vote votes ih =>
      rw [List.foldl_cons, ih, handles]
      by_cases isSelected : selected vote <;> simp [isSelected]

/-- A handler that appends some of the votes under a prefix. -/
theorem Keeps.collects (keeps : Keeps codec flat store) {params : QueryVotesParams}
    {start : Bytes} (isVote : Keyed.prefixVote <+: start)
    {handler : List MsgVoteProgram → ℕ × Address × Bool → List MsgVoteProgram}
    {selected : ℕ × Address × Bool → Bool}
    (handles : ∀ filtered vote, handler filtered vote =
      if selected vote then filtered ++ [listedVote vote] else filtered)
    (selects : ∀ vote, vote.2.1.length = addrLen →
      ((start <+: Keyed.keyVote codec vote.1 vote.2.1 ∧ selected vote = true) ↔
        params.Selects (listedVote vote))) :
    ∃ votes : List MsgVoteProgram,
      (flat.iterateVotesWithPrefix codec start).map (fun votes => votes.foldl handler []) =
        some votes ∧ votes.Nodup ∧
      ∀ vote, vote ∈ votes ↔
        store.votes[(vote.programID, vote.voter)]? = some vote.option ∧ params.Selects vote := by
  rcases keeps.visitsVotes isVote with ⟨visited, distinct, entries, visits⟩
  refine ⟨(visited.filter selected).map listedVote, ?_, ?_, ?_⟩
  · rw [visits, Option.map_some, foldl_handler handles, List.nil_append]
  · exact (distinct.filter _).map listedVote_injective
  · rintro ⟨programID, option, voter⟩
    have isListed : (⟨programID, option, voter⟩ : MsgVoteProgram) ∈
        (visited.filter selected).map listedVote ↔
          (programID, voter, option) ∈ visited ∧ selected (programID, voter, option) = true := by
      rw [← List.mem_filter]
      change listedVote (programID, voter, option) ∈ _ ↔ _
      exact List.mem_map_of_injective listedVote_injective
    rw [isListed, entries]
    constructor
    · rintro ⟨⟨stored, starts⟩, isSelected⟩
      have addressed := (keeps.records.within (.vote programID voter) (.option option)
        (by simp [contents, stored])).2
      exact ⟨stored, (selects _ addressed).mp ⟨starts, isSelected⟩⟩
    · rintro ⟨stored, isSelected⟩
      have addressed := (keeps.records.within (.vote programID voter) (.option option)
        (by simp [contents, stored])).2
      rcases (selects (programID, voter, option) addressed).mpr isSelected with
        ⟨starts, passes⟩
      exact ⟨⟨stored, starts⟩, passes⟩

/-- The key of a vote starts with the key of another one only if they are the same. -/
theorem keyVote_prefix_keyVote_iff {programID other : ℕ} {voter voter' : Address}
    (addressed : voter.length = addrLen) (addressed' : voter'.length = addrLen) :
    Keyed.keyVote codec programID voter <+: Keyed.keyVote codec other voter' ↔
      programID = other ∧ voter = voter' := by
  have split (programID : ℕ) (voter : Address) : Keyed.keyVote codec programID voter =
      Keyed.keyVote codec programID [] ++ codec.print voter := by
    simp [Keyed.keyVote, codec.printed.nil]
  constructor
  · intro starts
    have sameProgram : programID = other := by
      apply (keyVote_prefix_iff codec programID other (codec.printed.noColon addressed')).mp
      rw [split programID voter] at starts
      exact (List.prefix_append _ _).trans starts
    subst sameProgram
    rw [split programID voter, split programID voter', List.prefix_append_right_inj] at starts
    exact ⟨rfl, (codec.printed.prefix_iff addressed addressed').mp starts⟩
  · rintro ⟨rfl, rfl⟩
    exact List.prefix_rfl

/-- A query for votes lists the stored votes that it asks for, each once. -/
theorem Keeps.queryVotes (keeps : Keeps codec flat store) (params : QueryVotesParams) :
    ∃ votes, flat.queryVotes codec params = some votes ∧ votes.Nodup ∧
      ∀ vote, vote ∈ votes ↔
        store.votes[(vote.programID, vote.voter)]? = some vote.option ∧ params.Selects vote := by
  have all : ∀ (filtered : List MsgVoteProgram) (vote : ℕ × Address × Bool),
      filtered ++ [⟨vote.1, vote.2.2, vote.2.1⟩] =
        if (fun _ : ℕ × Address × Bool => true) vote then filtered ++ [listedVote vote]
        else filtered := fun _ _ => rfl
  by_cases ofProgram : params.programID = 0
  · by_cases ofVoter : params.voter = []
    · simp only [Flat.queryVotes, ofProgram, ofVoter, ne_eq, not_true_eq_false, and_self, if_false]
      apply keeps.collects List.prefix_rfl all
      intro vote _
      simp [QueryVotesParams.Selects, ofProgram, ofVoter, Keyed.keyVote]
    · simp only [Flat.queryVotes, ofProgram, ofVoter, ne_eq, not_true_eq_false, false_and,
        if_false, not_false_eq_true, if_true]
      have equal : ∀ (filtered : List MsgVoteProgram) (vote : ℕ × Address × Bool),
          (if params.voter = vote.2.1 then filtered ++ [⟨vote.1, vote.2.2, vote.2.1⟩]
            else filtered) =
          if (fun vote : ℕ × Address × Bool => decide (params.voter = vote.2.1)) vote then
            filtered ++ [listedVote vote] else filtered := by
        intro filtered vote
        simp [listedVote]
      apply keeps.collects List.prefix_rfl equal
      intro vote _
      simp [QueryVotesParams.Selects, ofProgram, ofVoter, Keyed.keyVote, listedVote, eq_comm]
  · by_cases ofVoter : params.voter = []
    · simp only [Flat.queryVotes, ofProgram, ofVoter, ne_eq, not_true_eq_false, and_false,
        if_false, not_false_eq_true, if_true]
      apply keeps.collects (prefixVote_starts codec _ _) all
      intro vote addressed
      rw [keyVote_prefix_iff codec _ _ (codec.printed.noColon addressed)]
      simp [QueryVotesParams.Selects, ofProgram, ofVoter, listedVote, eq_comm]
    · simp only [Flat.queryVotes, ofProgram, ofVoter, ne_eq, not_false_eq_true, and_self, if_true]
      apply keeps.collects (prefixVote_starts codec _ _) all
      intro vote addressed
      rw [keyVote_prefix_keyVote_iff (params.voter_length.resolve_left ofVoter) addressed]
      simp [QueryVotesParams.Selects, ofProgram, ofVoter, listedVote, eq_comm]

/-- A queue entry belongs to a stored program, whose vote ends at its block. -/
theorem WellFormed.queued_program (wellFormed : WellFormed store) {candidate : ℤ × ℕ}
    {program : Program} (present : store.candQueue[candidate]? = some candidate.2)
    (stored : store.programs[candidate.2]? = some program) :
    program.programID = candidate.2 ∧
      program.getVotingEndBlock store.params = candidate.1 := by
  rcases wellFormed.queued _ _ present with ⟨found, foundStored, endBlock⟩
  cases Option.some.inj (stored.symm.trans foundStored)
  exact ⟨store.programs_keyed _ _ stored, endBlock⟩

/-- The candidate list has the programs in the queue, in the order in which their votes end. -/
theorem Keeps.queryCandidateList (keeps : Keeps codec flat store)
    (wellFormed : WellFormed store) :
    ∃ candidates, flat.queryCandidateList = some candidates ∧ candidates.Nodup ∧
      (∀ program, program ∈ candidates ↔
        program ∈ programsOf store ∧ isQueued store program = true) ∧
      candidates.Pairwise fun first second =>
        first.getVotingEndBlock store.params ≤ second.getVotingEndBlock store.params := by
  rcases keeps.visitsQueue with ⟨queue, distinct, entries, ordered, visits⟩
  have ofQueue : ∀ candidate ∈ queue, ∀ program,
      store.programs[candidate.2]? = some program → program.programID = candidate.2 ∧
        program.getVotingEndBlock store.params = candidate.1 :=
    fun candidate listed program => wellFormed.queued_program ((entries candidate).mp listed)
  refine ⟨queue.filterMap fun candidate => store.programs[candidate.2]?, ?_, ?_, ?_, ?_⟩
  · have programs : (queue.map Prod.snd).mapM flat.getProgram =
        some (queue.map fun candidate => store.programs[candidate.2]?) := by
      apply Store.mapM_map_eq_some
      intro candidate _
      exact keeps.getProgram candidate.2
    simp [Flat.queryCandidateList, visits, programs, List.reduceOption, List.filterMap_map]
  · rw [List.Nodup, List.pairwise_filterMap]
    apply distinct.imp_of_mem
    rintro first second firstMem secondMem different program stored _ stored' rfl
    rcases ofQueue first firstMem program stored with ⟨firstID, firstEnd⟩
    rcases ofQueue second secondMem program stored' with ⟨secondID, secondEnd⟩
    exact different (Prod.ext (firstEnd.symm.trans secondEnd) (firstID.symm.trans secondID))
  · intro program
    rw [List.mem_filterMap, mem_programsOf_iff]
    constructor
    · rintro ⟨candidate, listed, stored⟩
      rcases ofQueue candidate listed program stored with ⟨sameID, sameEnd⟩
      refine ⟨by rwa [sameID], ?_⟩
      have present := (entries candidate).mp listed
      simp [isQueued, BudgetStore.candQueueHas, sameID, sameEnd, present]
    · rintro ⟨stored, queued⟩
      rcases Option.isSome_iff_exists.mp queued with ⟨programID, present⟩
      have keyed := store.candQueue_keyed _ _ present
      subst keyed
      exact ⟨_, (entries _).mpr present, stored⟩
  · rw [List.pairwise_filterMap]
    apply ordered.imp_of_mem
    rintro first second firstMem secondMem earlier program stored other stored'
    rw [(ofQueue first firstMem program stored).2, (ofQueue second secondMem other stored').2]
    exact earlier

/-- The active list has the programs that are not in the queue. -/
theorem Keeps.queryActiveList (keeps : Keeps codec flat store) (timely : Timely store) :
    ∃ actives, flat.queryActiveList = some actives ∧ actives.Nodup ∧
      ∀ program, program ∈ actives ↔
        program ∈ programsOf store ∧ isQueued store program = false := by
  rcases keeps.visitsPrograms with ⟨visited, perm, visits⟩
  have distinct : visited.Nodup := perm.nodup_iff.mpr ((programsOf_distinct store).of_map _)
  refine ⟨_, by rw [Flat.queryActiveList, visits]; rfl, distinct.filter _, ?_⟩
  intro program
  rw [List.mem_filter, perm.mem_iff]
  apply and_congr_right
  intro listed
  have queueable := timely _ _ ((mem_programsOf_iff store program).mp listed)
  rw [keeps.params, keeps.candQueueHas queueable]
  simp [isQueued]

/-- Every stored program is in exactly one of the two lists. -/
theorem Keeps.lists_partition (keeps : Keeps codec flat store) (wellFormed : WellFormed store)
    (timely : Timely store) :
    ∃ actives candidates, flat.queryActiveList = some actives ∧
      flat.queryCandidateList = some candidates ∧
      (actives ++ candidates).Perm (programsOf store) ∧
      (∀ program ∈ candidates, isQueued store program = true) ∧
      (∀ program ∈ actives, isQueued store program = false) ∧
      candidates.Pairwise fun first second =>
        first.getVotingEndBlock store.params ≤ second.getVotingEndBlock store.params := by
  rcases keeps.queryActiveList timely with ⟨actives, activesEq, activesDistinct, active⟩
  rcases keeps.queryCandidateList wellFormed with
    ⟨candidates, candidatesEq, candidatesDistinct, candidate, ordered⟩
  refine ⟨actives, candidates, activesEq, candidatesEq, ?_,
    fun program listed => ((candidate program).mp listed).2,
    fun program listed => ((active program).mp listed).2, ordered⟩
  apply (List.perm_ext_iff_of_nodup _ ((programsOf_distinct store).of_map _)).mpr
  · intro program
    rw [List.mem_append, active, candidate]
    cases isQueued store program <;> simp
  · apply List.Nodup.append activesDistinct candidatesDistinct
    intro program isActive isCandidate
    have notQueued := ((active program).mp isActive).2
    rw [((candidate program).mp isCandidate).2] at notQueued
    cases notQueued

end Answers

section Run

variable {L : Type} [Sdk L]

/-- Every stored program waits in the queue until its vote ends. -/
def AllTracked (ctx : Context L) : Prop :=
  ∀ (programID : ℕ) (program : Program), ctx.budget.programs[programID]? = some program →
    Tracked program (program.getVotingEndBlock ctx.budget.params) ctx

theorem step_allTracked {ctx next : Context L} {action : Action L} (consistent : Consistent ctx)
    (all : AllTracked ctx) (inTime : InTime ctx action) (taken : step ctx action = some next) :
    AllTracked next := by
  intro programID program present
  have keyed := next.budget.programs_keyed _ _ present
  subst keyed
  have sameEnd : program.getVotingEndBlock next.budget.params =
      program.getVotingEndBlock ctx.budget.params := by
    simp only [Program.getVotingEndBlock, step_votePeriod taken]
  rcases step_stored taken present with stored | ⟨msg, result, rfl, handled, rfl⟩
  · rw [sameEnd]
    apply step_tracked taken (all _ _ stored)
    rintro msg rfl sameID ⟨result, after⟩ handled
    rw [step_withdrawProgram handled] at taken
    cases taken
    rcases handleMsgWithdrawProgram_eq_ok handled with ⟨withdrawnProgram, -, -, budget, -⟩
    rw [budget, withdrawn_programs, if_pos sameID] at present
    cases present
  · have fits := inTime.fits handled
    rw [sameEnd, submission_ends consistent fits msg]
    exact tracked_of_submitted consistent fits handled

/-- In every run from an empty store, candidates are the programs whose vote is open. -/
theorem reaches_isQueued_iff {start ctx : Context L} {actions : List (Action L)}
    (consistent : Consistent start) (all : AllTracked start)
    (reached : Reaches step start actions ctx) (inTime : Along step InTime start actions)
    {program : Program}
    (listed : program ∈ programsOf ctx.budget) :
    isQueued ctx.budget program = true ↔
      (ctx.height : ℤ) ≤ program.getVotingEndBlock ctx.budget.params := by
  have all := (reached.invariant_of_along (fun state => Consistent state ∧ AllTracked state)
    (fun _ _ _ holds inTimeNow taken =>
      ⟨step_consistent taken holds.1, step_allTracked holds.1 holds.2 inTimeNow taken⟩)
    inTime ⟨consistent, all⟩).2
  have stored := (mem_programsOf_iff ctx.budget program).mp listed
  exact (all _ _ stored).candQueueHas_iff

/-- Along every run from an empty store, the querier answers what the records of
the budget are: the votes that a request selects, the programs by their printed
ids, and the programs in two lists, those whose vote is open in the order in
which it ends, and all others. -/
theorem queries_exact {codec : AddressCodec} {prefixEndBytes : Bytes → Option Bytes}
    {params : Params} {start finish : Context L} {actions : List (Action L)}
    (prefixEnds : PrefixEnds prefixEndBytes) (votePeriod : 0 < params.votePeriod)
    (initial : start.budget = BudgetStore.initial params)
    (reached : Reaches step start actions finish)
    (submits : ∀ action ∈ actions, SubmitsOnly (fun executor => executor.length = addrLen) action)
    (bounded : Bounded finish) :
    ∃ flat, Reaches (keyedStep codec prefixEndBytes) (start, ⟨params, ∅⟩) actions (finish, flat) ∧
      (∀ request, ∃ votes,
        flat.querier codec [ascii "votes"] (some request) = some (.ok (.votes votes)) ∧
        votes.Nodup ∧ ∀ vote, vote ∈ votes ↔
          finish.budget.votes[(vote.programID, vote.voter)]? = some vote.option ∧
            request.Selects vote) ∧
      (∃ actives candidates,
        flat.querier codec [ascii "active-list"] none = some (.ok (.actives actives)) ∧
        flat.querier codec [ascii "candidate-list"] none = some (.ok (.candidates candidates)) ∧
        (actives ++ candidates).Perm (programsOf finish.budget) ∧
        (∀ program ∈ candidates,
          (finish.height : ℤ) ≤ program.getVotingEndBlock finish.budget.params) ∧
        (∀ program ∈ actives,
          program.getVotingEndBlock finish.budget.params < finish.height) ∧
        candidates.Pairwise fun first second =>
          first.getVotingEndBlock finish.budget.params ≤
            second.getVotingEndBlock finish.budget.params) ∧
      (∀ programID < 2 ^ 63,
        flat.querier codec [ascii "program", Decimal.print programID] none = some
          (match finish.budget.programs[programID]? with
          | none => .error (.programNotFound programID)
          | some program => .ok (.program program))) ∧
      flat.querier codec [ascii "params"] none = some (.ok (.params finish.budget.params)) := by
  have empty : Keeps codec ⟨params, ∅⟩ start.budget := initial ▸ keeps_initial codec params
  rcases empty.reaches prefixEnds (initial_regular votePeriod initial) reached submits bounded with
    ⟨flat, flatReached, keeps, regular⟩
  have allTracked : AllTracked start := by
    intro programID program present
    simp [initial, BudgetStore.initial] at present
  have queuedIff : ∀ program ∈ programsOf finish.budget,
      (isQueued finish.budget program = true ↔
        (finish.height : ℤ) ≤ program.getVotingEndBlock finish.budget.params) :=
    fun _ => reaches_isQueued_iff (initial_consistent votePeriod initial) allTracked reached
      (along_inTime reached bounded.height)
  refine ⟨flat, flatReached, ?_, ?_, ?_, ?_⟩
  · intro request
    rcases keeps.queryVotes request with ⟨votes, answered, distinct, entries⟩
    refine ⟨votes, ?_, distinct, entries⟩
    have notProgram : ascii "votes" ≠ ascii "program" := by decide
    simp [Flat.querier, notProgram, answered]
  · rcases keeps.lists_partition regular.consistent.wellFormed (regular.timely bounded) with
      ⟨actives, candidates, activesEq, candidatesEq, perm, candidate, active, ordered⟩
    refine ⟨actives, candidates, ?_, ?_, perm, ?_, ?_, ordered⟩
    · simp [Flat.querier, activesEq, show ascii "active-list" ≠ ascii "program" by decide,
        show ascii "active-list" ≠ ascii "votes" by decide]
    · simp [Flat.querier, candidatesEq, show ascii "candidate-list" ≠ ascii "program" by decide,
        show ascii "candidate-list" ≠ ascii "votes" by decide,
        show ascii "candidate-list" ≠ ascii "active-list" by decide]
    · intro program listed
      apply (queuedIff program ?_).mp (candidate program listed)
      exact perm.mem_iff.mp (List.mem_append_right _ listed)
    · intro program listed
      have stored := perm.mem_iff.mp (List.mem_append_left candidates listed)
      by_contra isOpen
      have queued := (queuedIff program stored).mpr (not_lt.mp isOpen)
      rw [active program listed] at queued
      cases queued
  · intro programID bound
    have answered := keeps.queryProgram (atoi_print bound)
    rw [toUint64_natCast (by omega)] at answered
    simp [Flat.querier, answered]
  · simp [Flat.querier, keeps.params, show ascii "params" ≠ ascii "program" by decide,
      show ascii "params" ≠ ascii "votes" by decide,
      show ascii "params" ≠ ascii "active-list" by decide,
      show ascii "params" ≠ ascii "candidate-list" by decide]

theorem queries_exact_sample :
    ∃ (flat : Flat) (votes : List MsgVoteProgram),
      flat.querier AddressCodec.account [ascii "votes"] (some ⟨[], 1, Or.inl rfl⟩) =
        some (.ok (.votes votes)) ∧
      (⟨1, true, List.replicate 20 1⟩ : MsgVoteProgram) ∈ votes ∧
      flat.querier AddressCodec.account [ascii "program", Decimal.print 2] none =
        some (.error (.programNotFound 2)) := by
  rcases queries_exact prefixEnds_prefixEnd
    sampleParams_valid.votePeriod rfl reaches_sampleActions sampleActions_submit
    sampleActions_bounded with ⟨flat, -, ofVotes, -, ofPrograms, -⟩
  rcases ofVotes ⟨[], 1, Or.inl rfl⟩ with ⟨votes, answered, -, entries⟩
  refine ⟨flat, votes, answered, ?_, ?_⟩
  · apply (entries _).mpr
    refine ⟨by decide +kernel, Or.inr rfl, Or.inl rfl⟩
  · rw [ofPrograms 2 (by decide)]
    have missing :
        (performed sampleStart sampleActions).budget.programs[(2 : ℕ)]? = none := by
      decide +kernel
    rw [missing]

end Run

end TerraCore.Budget
