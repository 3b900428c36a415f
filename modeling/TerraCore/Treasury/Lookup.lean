import TerraCore.Treasury.Rates

/-!
# Lookups of rates

Both getters look for the latest stored value, one by recursion and one by a
loop, and both write what they found. The loop tests the epoch that was asked
for where the recursion tests the epoch it has come down to: when no weight is
stored, it leaves the weight unset instead of taking the default.
-/

namespace TerraCore.Treasury

open Inheritance Transition

variable {L : Type}

/-- The loop of `GetRewardWeight` comes down to a stored weight, or to the first epoch. -/
def Covered (ctx : Context L) (period : ℕ) : Prop :=
  period = 0 ∨ ∃ stored ≤ period, ∃ weight, ctx.treasury.rewardWeights[(stored : ℤ)]? = some weight

theorem getRewardWeight_of_covered {ctx : Context L} {period : ℕ} (covered : Covered ctx period) :
    (getRewardWeight ctx period).1 =
      some (valueOr genesisRewardWeight ctx.treasury.rewardWeights period) := by
  rw [getRewardWeight_fst]
  split
  · next first => rw [first]
  · next later =>
      rcases valueAt_isSome_iff.mpr (covered.resolve_left later) with ⟨weight, found⟩
      rw [valueOr, found, Option.getD_some]

/-- A weight that is found is filled in. -/
theorem getRewardWeight_agree {ctx : Context L} {period : ℕ} (covered : Covered ctx period) :
    Agree genesisRewardWeight period ctx.treasury.rewardWeights
      (getRewardWeight ctx period).2.treasury.rewardWeights := by
  have read := getRewardWeight_of_covered covered
  simp only [getRewardWeight] at read ⊢
  cases found : ctx.treasury.rewardWeights[(period : ℤ)]? with
  | some weight => exact Agree.refl _
  | none =>
      simp only [found] at read ⊢
      rw [read, Option.getD_some]
      exact (Agree.refl _).fill rfl

/-- Reads of any epoch, writes for the current one, and the blocks between them. -/
inductive RateCall where
  | readTaxRate (period : ℕ)
  | readRewardWeight (period : ℕ)
  | writeTaxRate (rate : Dec)
  | writeRewardWeight (weight : Dec)
  | advance (blocks : ℕ)
deriving DecidableEq

def RateCall.isRead : RateCall → Bool
  | .readTaxRate _ => true
  | .readRewardWeight _ => true
  | _ => false

/-- A call of the keeper. An epoch that has not come is never read. -/
def rateCall (ctx : Context L) : RateCall → Option (Context L)
  | .readTaxRate period =>
      if period ≤ epoch ctx then some (getTaxRate ctx period).2 else none
  | .readRewardWeight period =>
      if period ≤ epoch ctx then some (getRewardWeight ctx period).2 else none
  | .writeTaxRate rate => some (setTaxRate ctx rate)
  | .writeRewardWeight weight => some (setRewardWeight ctx weight)
  | .advance blocks => some { ctx with height := ctx.height + blocks }

/-- A read of a weight finds one. -/
def ReadsCovered (ctx : Context L) : RateCall → Prop
  | .readRewardWeight period => Covered ctx period
  | _ => True

/-- Two states with the same height, of which one of the two stores of rates has
the same values in effect. -/
structure Alike (rates : TreasuryStore → Store ℤ Dec) (default : Dec) (first second : Context L) :
    Prop where
  height : first.height = second.height
  agree : Agree default (epoch first) (rates first.treasury) (rates second.treasury)

namespace Alike

variable {rates : TreasuryStore → Store ℤ Dec} {default : Dec} {first second third : Context L}

theorem refl (ctx : Context L) : Alike rates default ctx ctx := ⟨rfl, Agree.refl _⟩

theorem epoch_eq (alike : Alike rates default first second) : epoch first = epoch second := by
  rw [epoch, epoch, alike.height]

theorem symm (alike : Alike rates default first second) : Alike rates default second first :=
  ⟨alike.height.symm, alike.epoch_eq ▸ alike.agree.symm⟩

theorem trans (left : Alike rates default first second) (right : Alike rates default second third) :
    Alike rates default first third :=
  ⟨left.height.trans right.height, left.agree.trans (left.epoch_eq ▸ right.agree)⟩

/-- Both sides write the value of the current epoch. -/
theorem write (alike : Alike rates default first second) (value : Dec) :
    Agree default (epoch first) ((rates first.treasury).insert first.getEpoch value)
      ((rates second.treasury).insert second.getEpoch value) := by
  rw [getEpoch_eq, getEpoch_eq, ← alike.epoch_eq]
  exact alike.agree.insert value

/-- Blocks pass on both sides. -/
theorem advance (alike : Alike rates default first second) (blocks : ℕ) :
    Alike rates default { first with height := first.height + blocks }
      { second with height := second.height + blocks } := by
  refine ⟨congrArg (· + blocks) alike.height, alike.agree.advance ?_⟩
  exact Nat.div_le_div_right (Nat.le_add_right _ _)

end Alike

/-- A read of a tax rate leaves every tax rate in effect. -/
theorem alike_getTaxRate {ctx : Context L} {period : ℕ} (past : period ≤ epoch ctx) :
    Alike TreasuryStore.taxRates genesisTaxRate ctx (getTaxRate ctx period).2 :=
  ⟨rfl, (readTaxRate_spec ctx.treasury.taxRates period).2.1.advance past⟩

theorem alike_getRewardWeight {ctx : Context L} {period : ℕ} (past : period ≤ epoch ctx)
    (covered : Covered ctx period) :
    Alike TreasuryStore.rewardWeights genesisRewardWeight ctx (getRewardWeight ctx period).2 := by
  refine ⟨?_, (getRewardWeight_agree covered).advance past⟩
  unfold getRewardWeight
  split <;> rfl

/-- The calls that are not reads. -/
def writes (calls : List RateCall) : List RateCall := calls.filter fun call => !call.isRead

/-- A run looks like the run of its writes. The condition is what a read needs
to leave the values in effect. -/
theorem alike_writes {rates : TreasuryStore → Store ℤ Dec} {default : Dec}
    {condition : Context L → RateCall → Prop}
    (reads : ∀ (before : Context L) call after, call.isRead = true → condition before call →
      rateCall before call = some after → Alike rates default before after)
    (taxWritten : ∀ (first second : Context L) rate, Alike rates default first second →
      Alike rates default (setTaxRate first rate) (setTaxRate second rate))
    (weightWritten : ∀ (first second : Context L) weight, Alike rates default first second →
      Alike rates default (setRewardWeight first weight) (setRewardWeight second weight))
    {start state : Context L} {calls : List RateCall}
    (reached : Reaches rateCall start calls state) (along : Along rateCall condition start calls) :
    ∃ bare, Reaches rateCall start (writes calls) bare ∧ Alike rates default state bare := by
  refine reached.without_silent (Alike rates default) ?_ ?_ along (Alike.refl start)
  · intro before call after other isRead holds taken alike
    exact (reads before call after isRead holds taken).symm.trans alike
  · intro before call after other notRead taken alike
    cases call with
    | readTaxRate period => cases notRead
    | readRewardWeight period => cases notRead
    | writeTaxRate rate =>
        cases taken
        exact ⟨_, rfl, taxWritten before other rate alike⟩
    | writeRewardWeight weight =>
        cases taken
        exact ⟨_, rfl, weightWritten before other weight alike⟩
    | advance blocks =>
        cases taken
        exact ⟨_, rfl, alike.advance blocks⟩

theorem taxRates_writes {start state : Context L} {calls : List RateCall}
    (reached : Reaches rateCall start calls state) :
    ∃ bare, Reaches rateCall start (writes calls) bare ∧
      Alike TreasuryStore.taxRates genesisTaxRate state bare := by
  have along : Along rateCall (fun _ _ => True) start calls :=
    along_of_forall (fun _ _ _ => trivial) start
  refine alike_writes ?_ ?_ ?_ reached along
  · intro before call after isRead _ taken
    cases call with
    | readTaxRate period =>
        simp only [rateCall] at taken
        split at taken
        · next past =>
            cases taken
            exact alike_getTaxRate past
        · cases taken
    | readRewardWeight period =>
        simp only [rateCall] at taken
        split at taken
        · cases taken
          unfold getRewardWeight
          split <;> exact ⟨rfl, Agree.refl _⟩
        · cases taken
    | _ => cases isRead
  · intro first second rate alike
    exact ⟨alike.height, alike.write rate⟩
  · intro first second weight alike
    exact ⟨alike.height, alike.agree⟩

theorem rewardWeights_writes {start state : Context L} {calls : List RateCall}
    (reached : Reaches rateCall start calls state)
    (along : Along rateCall ReadsCovered start calls) :
    ∃ bare, Reaches rateCall start (writes calls) bare ∧
      Alike TreasuryStore.rewardWeights genesisRewardWeight state bare := by
  refine alike_writes ?_ ?_ ?_ reached along
  · intro before call after isRead covered taken
    cases call with
    | readTaxRate period =>
        simp only [rateCall] at taken
        split at taken
        · cases taken
          exact ⟨rfl, Agree.refl _⟩
        · cases taken
    | readRewardWeight period =>
        simp only [rateCall] at taken
        split at taken
        · next past =>
            cases taken
            exact alike_getRewardWeight past covered
        · cases taken
    | _ => cases isRead
  · intro first second rate alike
    exact ⟨alike.height, alike.agree⟩
  · intro first second weight alike
    exact ⟨alike.height, alike.write weight⟩

/-- Runs with the same writes have the same values in effect. -/
theorem alike_of_writes {rates : TreasuryStore → Store ℤ Dec} {default : Dec}
    {start left right leftBare rightBare : Context L} {first second : List RateCall}
    (sameWrites : writes first = writes second)
    (leftReached : Reaches rateCall start (writes first) leftBare)
    (leftAlike : Alike rates default left leftBare)
    (rightReached : Reaches rateCall start (writes second) rightBare)
    (rightAlike : Alike rates default right rightBare) : Alike rates default left right := by
  rw [sameWrites] at leftReached
  cases leftReached.unique rightReached
  exact leftAlike.trans rightAlike.symm

/-- Both getters look up the latest stored value. For tax rates this holds in
every store, and reads never show in later reads. For weights it holds exactly
where the epoch is the first one or some weight is stored up to it, and reads do
not show as long as all of them are such. -/
theorem lookups_latest (ctx : Context L) :
    (∀ period : ℕ,
        IsLatest genesisTaxRate ctx.treasury.taxRates period (getTaxRate ctx period).1) ∧
      (∀ period : ℕ,
        (∃ weight, (getRewardWeight ctx period).1 = some weight ∧
            IsLatest genesisRewardWeight ctx.treasury.rewardWeights period weight) ↔
          Covered ctx period) ∧
      ∀ (first second : List RateCall) (left right : Context L),
        Reaches rateCall ctx first left → Reaches rateCall ctx second right →
        writes first = writes second →
        (∀ period ≤ epoch left, (getTaxRate left period).1 = (getTaxRate right period).1) ∧
          (Along rateCall ReadsCovered ctx first → Along rateCall ReadsCovered ctx second →
            ∀ period ≤ epoch left, Covered left period → Covered right period →
              (getRewardWeight left period).1 = (getRewardWeight right period).1) := by
  refine ⟨?_, ?_, ?_⟩
  · intro period
    have read : (getTaxRate ctx period).1 = valueOr genesisTaxRate ctx.treasury.taxRates period :=
      (readTaxRate_spec ctx.treasury.taxRates period).1
    rw [read]
    exact isLatest_valueOr _ _ _
  · intro period
    constructor
    · rintro ⟨weight, read, -⟩
      rw [getRewardWeight_fst] at read
      split at read
      · next first => exact Or.inl first
      · exact Or.inr (valueAt_isSome_iff.mp ⟨weight, read⟩)
    · intro covered
      exact ⟨_, getRewardWeight_of_covered covered, isLatest_valueOr _ _ _⟩
  · intro first second left right leftReached rightReached sameWrites
    constructor
    · rcases taxRates_writes leftReached with ⟨leftBare, leftWrites, leftAlike⟩
      rcases taxRates_writes rightReached with ⟨rightBare, rightWrites, rightAlike⟩
      have alike := alike_of_writes sameWrites leftWrites leftAlike rightWrites rightAlike
      intro period past
      have leftRead := (readTaxRate_spec left.treasury.taxRates period).1
      have rightRead := (readTaxRate_spec right.treasury.taxRates period).1
      exact leftRead.trans ((alike.agree.inEffect period past).trans rightRead.symm)
    · intro leftAlong rightAlong period past leftCovered rightCovered
      rcases rewardWeights_writes leftReached leftAlong with ⟨leftBare, leftWrites, leftAlike⟩
      rcases rewardWeights_writes rightReached rightAlong with
        ⟨rightBare, rightWrites, rightAlike⟩
      have alike := alike_of_writes sameWrites leftWrites leftAlike rightWrites rightAlike
      rw [getRewardWeight_of_covered leftCovered, getRewardWeight_of_covered rightCovered,
        alike.agree.inEffect period past]

/-- The second epoch of a treasury in which no weight was ever stored. -/
def unweighted : Context Book :=
  let start := Context.genesis Book.empty (Staking.single (List.replicate 20 1) 10 single_length)
  { start with
    height := blocksPerEpoch
    treasury := { start.treasury with rewardWeights := ∅ } }

/-- Without a stored weight the second epoch reads an unset decimal. Reading the
first epoch before changes that. -/
theorem unset_weight :
    (getRewardWeight unweighted (1 : ℕ)).1 = none ∧
      (¬∃ weight, (getRewardWeight unweighted (1 : ℕ)).1 = some weight ∧
        IsLatest genesisRewardWeight unweighted.treasury.rewardWeights 1 weight) ∧
      ∃ after, Reaches rateCall unweighted [.readRewardWeight 0] after ∧
        writes [.readRewardWeight 0] = writes [] ∧
        (getRewardWeight after (1 : ℕ)).1 = some genesisRewardWeight := by
  have unset : (getRewardWeight unweighted (1 : ℕ)).1 = none := by decide +kernel
  refine ⟨unset, ?_, (getRewardWeight unweighted (0 : ℕ)).2, Reaches.single ?_, rfl,
    by decide +kernel⟩
  · rintro ⟨weight, read, -⟩
    rw [unset] at read
    cases read
  · simp only [rateCall, Nat.zero_le, if_true]

/-- In a chain started from genesis the first epoch has its weight. -/
theorem lookups_latest_genesis :
    ∃ weight, (getRewardWeight (Context.genesis Book.empty
        (Staking.single (List.replicate 20 1) 10 rfl)) (3 : ℕ)).1 = some weight ∧
      IsLatest genesisRewardWeight (Context.genesis Book.empty
        (Staking.single (List.replicate 20 1) 10 rfl)).treasury.rewardWeights 3 weight :=
  ((lookups_latest _).2.1 3).mpr
    (Or.inr ⟨0, Nat.zero_le 3, genesisRewardWeight, by decide +kernel⟩)

end TerraCore.Treasury
