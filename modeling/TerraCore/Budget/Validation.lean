import TerraCore.Budget.Genesis

/-!
# Budget genesis validation

The programs of a genesis state are checked one by one against the ids that
were seen before. The ids are kept in a map that is declared but never made, so
that the first program which passes its own check panics when its id is
recorded.
-/

namespace TerraCore.Budget

/-- Why a genesis state is refused, with the values that the message prints. -/
inductive GenesisError where
  | activeThreshold (threshold : Dec)
  | legacyThreshold (threshold : Dec)
  | votePeriod (votePeriod : ℤ)
  | deposit (deposit : Coin)
  | invalidSubmitBlockHeight (submitBlock : ℤ)
  | duplicateProgramID (programID : ℕ)
  | programNotFound (programID : ℕ)
deriving DecidableEq

/-- How a validation ends when it does not accept. -/
inductive ValidationFailure where
  | error (error : GenesisError)
  | assignmentToNilMap
deriving DecidableEq

/-- A map from program ids, `nil` until it is made. -/
abbrev ProgramMap := Option (Store ℕ Bool)

/-- Reading a `nil` map finds nothing. -/
def ProgramMap.lookup (programMap : ProgramMap) (programID : ℕ) : Option Bool :=
  programMap.bind fun entries => entries[programID]?

/-- Writing to a `nil` map panics. -/
def ProgramMap.assign (programMap : ProgramMap) (programID : ℕ) (seen : Bool) :
    Except ValidationFailure ProgramMap :=
  match programMap with
  | some entries => .ok (some (entries.insert programID seen))
  | none => .error .assignmentToNilMap

def validateParams (params : Params) : Except ValidationFailure Unit :=
  if params.activeThreshold ≤ Dec.zero then
    .error (.error (.activeThreshold params.activeThreshold))
  else if params.legacyThreshold < Dec.zero then
    .error (.error (.legacyThreshold params.legacyThreshold))
  else if params.votePeriod ≤ 0 then .error (.error (.votePeriod params.votePeriod))
  else if params.deposit.amount ≤ 0 then .error (.error (.deposit params.deposit))
  else .ok ()

/-- The body of both loops over programs. -/
def checkProgram (programMap : ProgramMap) (program : Program) :
    Except ValidationFailure ProgramMap :=
  if program.submitBlock ≠ 0 then
    .error (.error (.invalidSubmitBlockHeight program.submitBlock))
  else
    match programMap.lookup program.programID with
    | some _ => .error (.error (.duplicateProgramID program.programID))
    | none => programMap.assign program.programID true

def checkVote (programMap : ProgramMap) (vote : Vote) : Except ValidationFailure Unit :=
  match programMap.lookup vote.programID with
  | some _ => .ok ()
  | none => .error (.error (.programNotFound vote.programID))

def validateGenesis (data : GenesisState) : Except ValidationFailure Unit := do
  validateParams data.params
  let programMap ← data.activePrograms.foldlM checkProgram none
  let programMap ← data.candidatePrograms.foldlM checkProgram programMap
  data.votes.forM (checkVote programMap)

theorem validateParams_eq_ok {params : Params} :
    validateParams params = .ok () ↔ params.Valid := by
  simp only [validateParams, refusal_eq_ok, Dec.not_le, Dec.not_lt, not_le, and_true]
  constructor
  · rintro ⟨activeThreshold, legacyThreshold, votePeriod, deposit⟩
    exact ⟨activeThreshold, legacyThreshold, votePeriod, deposit⟩
  · intro valid
    exact ⟨valid.activeThreshold, valid.legacyThreshold, valid.votePeriod, valid.deposit⟩

/-- All programs of a genesis state, in the order in which they are checked. -/
def GenesisState.programs (data : GenesisState) : List Program :=
  data.activePrograms ++ data.candidatePrograms

theorem validateGenesis_of_accepted {data : GenesisState}
    (accepted : validateParams data.params = .ok ()) :
    validateGenesis data =
      data.programs.foldlM checkProgram none >>= fun programMap =>
        data.votes.forM (checkVote programMap) := by
  unfold validateGenesis
  rw [accepted, GenesisState.programs, List.foldlM_append]
  cases data.activePrograms.foldlM checkProgram none <;> rfl

/-- A vote is on none of no programs. -/
theorem validateGenesis_of_empty {data : GenesisState}
    (accepted : validateParams data.params = .ok ()) (empty : data.programs = []) :
    validateGenesis data =
      match data.votes with
      | [] => .ok ()
      | first :: _ => .error (.error (.programNotFound first.programID)) := by
  rw [validateGenesis_of_accepted accepted, empty]
  cases data.votes <;> rfl

theorem validateGenesis_of_first {data : GenesisState}
    (accepted : validateParams data.params = .ok ()) {first : Program} {rest : List Program}
    (listed : data.programs = first :: rest) :
    validateGenesis data =
      if first.submitBlock ≠ 0 then
        .error (.error (.invalidSubmitBlockHeight first.submitBlock))
      else .error .assignmentToNilMap := by
  rw [validateGenesis_of_accepted accepted, listed, List.foldlM_cons]
  simp only [checkProgram, ProgramMap.lookup, ProgramMap.assign]
  by_cases fresh : first.submitBlock = 0
  · simp only [fresh, ne_eq, not_true_eq_false, if_false]
    rfl
  · simp only [fresh, ne_eq, not_false_eq_true, if_true]
    rfl

theorem validateGenesis_of_refused {data : GenesisState}
    (refused : validateParams data.params ≠ .ok ()) :
    ∃ error, validateGenesis data = .error (.error error) := by
  have found : ∃ error, validateParams data.params = .error (.error error) := by
    unfold validateParams at refused ⊢
    split
    · exact ⟨_, rfl⟩
    · split
      · exact ⟨_, rfl⟩
      · split
        · exact ⟨_, rfl⟩
        · split
          · exact ⟨_, rfl⟩
          · simp_all
  rcases found with ⟨error, found⟩
  refine ⟨error, ?_⟩
  unfold validateGenesis
  rw [found]
  rfl

/-- What a genesis state has to satisfy: parameters in bounds, programs that are
submitted at genesis under distinct ids, and votes on these programs. -/
structure GenesisState.Acceptable (data : GenesisState) : Prop where
  params : validateParams data.params = .ok ()
  submitBlock : ∀ program ∈ data.programs, program.submitBlock = 0
  distinct : (data.programs.map Program.programID).Nodup
  voted : ∀ vote ∈ data.votes, vote.programID ∈ data.programs.map Program.programID

/-- Validation does not panic, and accepts the acceptable states only. -/
def ValidatesExactly (data : GenesisState) : Prop :=
  validateGenesis data ≠ .error .assignmentToNilMap ∧
    (validateGenesis data = .ok () ↔ data.Acceptable)

/-- Validation is exact unless the parameters are in bounds and the first
program that is checked was submitted at genesis. -/
theorem validateGenesis_exact_iff (data : GenesisState) :
    ValidatesExactly data ↔
      (validateParams data.params = .ok () →
        ∀ first ∈ data.programs.head?, first.submitBlock ≠ 0) := by
  unfold ValidatesExactly
  by_cases accepted : validateParams data.params = .ok ()
  · simp only [accepted, true_imp_iff]
    cases listed : data.programs with
    | nil =>
        -- Without programs the votes decide alone.
        have acceptable : data.Acceptable ↔ data.votes = [] := by
          constructor
          · intro acceptable
            rw [List.eq_nil_iff_forall_not_mem]
            intro vote voteMem
            have onProgram := acceptable.voted vote voteMem
            rw [listed] at onProgram
            cases onProgram
          · intro noVotes
            refine ⟨accepted, ?_, ?_, ?_⟩
            · simp [listed]
            · simp [listed]
            · simp [noVotes]
        rw [validateGenesis_of_empty accepted listed, acceptable]
        cases data.votes <;> simp
    | cons first rest =>
        rw [validateGenesis_of_first accepted listed]
        by_cases fresh : first.submitBlock = 0
        · simp [fresh]
        · have refused : ¬data.Acceptable := by
            intro acceptable
            exact fresh (acceptable.submitBlock first (by simp [listed]))
          simp [fresh, refused]
  · rcases validateGenesis_of_refused accepted with ⟨error, refused⟩
    have notAcceptable : ¬data.Acceptable := fun acceptable => accepted acceptable.params
    simp [refused, notAcceptable, accepted]

/-- The state with one active program that was submitted at genesis is
acceptable, and its validation panics. -/
theorem validateGenesis_panics :
    restoredGenesis.Acceptable ∧ validateGenesis restoredGenesis = .error .assignmentToNilMap ∧
      ¬ValidatesExactly restoredGenesis := by
  have panics : validateGenesis restoredGenesis = .error .assignmentToNilMap := by
    decide
  refine ⟨⟨?_, ?_, ?_, ?_⟩, panics, fun exactly => exactly.1 panics⟩
  · decide
  · decide
  · decide
  · decide

end TerraCore.Budget
