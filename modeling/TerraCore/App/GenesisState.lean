import TerraCore.App.GenesisAccount
import TerraCore.Budget.Validation
import TerraCore.Market.Spread
import TerraCore.Oracle.Prices
import TerraCore.Sdk.Text
import TerraCore.Treasury.Genesis

/-!
# Validation of the genesis state

The validation of the application checks the accounts, and, unless there are
genesis transactions, the data of the modules of the SDK and of the market. The
oracle, the treasury and the budget have a validation of their own, which is
never asked.

The validations of the modules of the SDK are parameters.
-/

namespace TerraCore

namespace Oracle

structure GenesisState where
  params : Params
deriving DecidableEq

/-- Why a genesis state is refused, with the value that the message prints. -/
inductive GenesisError where
  | votePeriod (votePeriod : ℤ)
  | voteThreshold
  | oracleRewardBand
deriving DecidableEq

def validateParams (params : Params) : Except GenesisError Unit :=
  if params.votePeriod ≤ 0 then .error (.votePeriod params.votePeriod)
  else if params.voteThreshold ≤ Dec.withPrec 33 2 then .error .voteThreshold
  else if params.oracleRewardBand < Dec.zero then .error .oracleRewardBand
  else .ok ()

def validateGenesis (data : GenesisState) : Except GenesisError Unit := validateParams data.params

theorem validateGenesis_eq_ok {data : GenesisState} :
    validateGenesis data = .ok () ↔ data.params.Valid := by
  simp only [validateGenesis, validateParams, refusal_eq_ok, not_le, Dec.not_le, Dec.not_lt,
    and_true]
  constructor
  · rintro ⟨votePeriod, voteThreshold, oracleRewardBand⟩
    exact ⟨votePeriod, voteThreshold, oracleRewardBand⟩
  · intro valid
    exact ⟨valid.votePeriod, valid.voteThreshold, valid.oracleRewardBand⟩

end Oracle

namespace Market

structure GenesisState where
  params : Params
deriving DecidableEq

/-- Why a genesis state is refused, with the value that the message prints. -/
inductive GenesisError where
  | dailyLunaDeltaCap (cap : Dec)
  | minSwapSpread (spread : Dec)
  | maxSwapSpread (spread : Dec)
deriving DecidableEq

def validateParams (params : Params) : Except GenesisError Unit :=
  if params.dailyLunaDeltaCap < Dec.zero then
    .error (.dailyLunaDeltaCap params.dailyLunaDeltaCap)
  else if params.minSwapSpread < Dec.zero then .error (.minSwapSpread params.minSwapSpread)
  else if params.maxSwapSpread < params.minSwapSpread then
    .error (.maxSwapSpread params.maxSwapSpread)
  else .ok ()

def validateGenesis (data : GenesisState) : Except GenesisError Unit := validateParams data.params

theorem validateGenesis_eq_ok {data : GenesisState} :
    validateGenesis data = .ok () ↔ data.params.Valid := by
  simp only [validateGenesis, validateParams, refusal_eq_ok, Dec.not_lt, and_true]
  constructor
  · rintro ⟨dailyLunaDeltaCap, minSwapSpread, maxSwapSpread⟩
    exact ⟨dailyLunaDeltaCap, minSwapSpread, maxSwapSpread⟩
  · intro valid
    exact ⟨valid.dailyLunaDeltaCap, valid.minSwapSpread, valid.maxSwapSpread⟩

end Market

namespace Budget

/-- Accepted are parameters in bounds without any program or vote. -/
theorem validateGenesis_eq_ok {data : GenesisState} :
    validateGenesis data = .ok () ↔
      data.params.Valid ∧ data.programs = [] ∧ data.votes = [] := by
  rw [← validateParams_eq_ok]
  by_cases accepted : validateParams data.params = .ok ()
  · cases listed : data.programs with
    | nil =>
        rw [validateGenesis_of_empty accepted listed]
        cases data.votes <;> simp [accepted]
    | cons first rest =>
        rw [validateGenesis_of_first accepted listed]
        by_cases fresh : first.submitBlock = 0 <;> simp [fresh]
  · rcases validateGenesis_of_refused accepted with ⟨error, refused⟩
    simp [refused, accepted]

end Budget

namespace App

open Vesting

/-- The modules of the SDK that have data in the genesis state. -/
inductive SdkModule where
  | auth | bank | staking | distr | slashing | crisis
deriving DecidableEq

/-- The data of the modules of the SDK, and their validations. -/
structure SdkModules where
  Data : SdkModule → Type
  Error : Type
  validateGenesis : (sdkModule : SdkModule) → Data sdkModule → Except Error Unit

variable (sdk : SdkModules)

structure GenesisState where
  accounts : List GenesisAccount
  sdkData : (sdkModule : SdkModule) → sdk.Data sdkModule
  treasuryData : Treasury.GenesisState
  budgetData : Budget.GenesisState
  oracleData : Oracle.GenesisState
  marketData : Market.GenesisState
  genTxs : List Bytes

/-- Why a genesis state is refused, with the values that the message prints. -/
inductive GenesisError where
  | duplicateAccount (addrStr : Bytes)
  | invalidSchedule (addrStr : Bytes) (denom : Denom)
  | invalidLazySchedule (addrStr : Bytes) (denom : Denom)
  | missingEndTime (addrStr : Bytes)
  | startNotBeforeEnd (addrStr : Bytes) (startTime endTime : Int64)
  | sdk (sdkModule : SdkModule) (error : sdk.Error)
  | market (error : Market.GenesisError)

/-- `AccAddress.String` -/
def addressString : Address → Bytes := printBech32 (ascii "terra")

namespace GenesisAccount

/-- The graded schedules; no list and an empty one are treated alike. -/
def graded (acc : GenesisAccount) : List VestingSchedule := acc.vestingSchedules.getD []

def lazyGraded (acc : GenesisAccount) : List LazyVestingSchedule :=
  acc.lazyVestingSchedules.getD []

end GenesisAccount

def validateVesting (acc : GenesisAccount) : Except (GenesisError sdk) Unit :=
  if isZero acc.originalVesting then .ok ()
  else if acc.graded ≠ [] then
    acc.graded.forM fun vestingSchedule =>
      if vestingSchedule.isValid = false then
        .error (.invalidSchedule (addressString acc.address) vestingSchedule.denom)
      else .ok ()
  else if acc.lazyGraded ≠ [] then
    acc.lazyGraded.forM fun lazyVestingSchedule =>
      if lazyVestingSchedule.isValid = false then
        .error (.invalidLazySchedule (addressString acc.address) lazyVestingSchedule.denom)
      else .ok ()
  else if acc.endTime = 0 then .error (.missingEndTime (addressString acc.address))
  else if acc.endTime ≤ acc.startTime then
    .error (.startNotBeforeEnd (addressString acc.address) acc.startTime acc.endTime)
  else .ok ()

def validateAccount (addrMap : Store Bytes Bool) (acc : GenesisAccount) :
    Except (GenesisError sdk) (Store Bytes Bool) :=
  match addrMap[addressString acc.address]? with
  | some _ => .error (.duplicateAccount (addressString acc.address))
  | none => do
      validateVesting sdk acc
      .ok (addrMap.insert (addressString acc.address) true)

def validateGenesisStateAccounts (accs : List GenesisAccount) :
    Except (GenesisError sdk) Unit := do
  let _ ← accs.foldlM (validateAccount sdk) ∅
  .ok ()

variable {sdk}

def validateSdk (genesisState : GenesisState sdk) (sdkModule : SdkModule) :
    Except (GenesisError sdk) Unit :=
  (sdk.validateGenesis sdkModule (genesisState.sdkData sdkModule)).mapError (.sdk sdkModule)

def terraValidateGenesisState (genesisState : GenesisState sdk) :
    Except (GenesisError sdk) Unit := do
  validateGenesisStateAccounts sdk genesisState.accounts
  -- The genesis transactions create the validators.
  if genesisState.genTxs ≠ [] then .ok ()
  else do
    validateSdk genesisState .auth
    validateSdk genesisState .bank
    validateSdk genesisState .staking
    validateSdk genesisState .distr
    validateSdk genesisState .slashing
    validateSdk genesisState .crisis
    (Market.validateGenesis genesisState.marketData).mapError .market

/-- The vesting fields of an account make sense. -/
def VestingAccepted (acc : GenesisAccount) : Prop :=
  isZero acc.originalVesting = true ∨
    if acc.graded ≠ [] then ∀ vestingSchedule ∈ acc.graded, vestingSchedule.isValid = true
    else if acc.lazyGraded ≠ [] then
      ∀ lazyVestingSchedule ∈ acc.lazyGraded, lazyVestingSchedule.isValid = true
    else acc.endTime ≠ 0 ∧ acc.startTime < acc.endTime

/-- No two accounts have the same address, and all vesting fields make sense. -/
structure AccountsAccepted (accs : List GenesisAccount) : Prop where
  distinct : (accs.map GenesisAccount.address).Nodup
  vesting : ∀ acc ∈ accs, VestingAccepted acc

/-- The checks of the application that are made on a state. -/
structure Admitted (genesisState : GenesisState sdk) : Prop where
  accounts : AccountsAccepted genesisState.accounts
  modules : genesisState.genTxs = [] →
    (∀ sdkModule, sdk.validateGenesis sdkModule (genesisState.sdkData sdkModule) = .ok ()) ∧
      genesisState.marketData.params.Valid

theorem forM_eq_ok {α ε : Type} {check : α → Except ε Unit} {items : List α} :
    forM items check = .ok () ↔ ∀ item ∈ items, check item = .ok () := by
  induction items with
  | nil => simp [pure, Except.pure]
  | cons item items ih =>
      rw [List.forM_cons, List.forall_mem_cons, ← ih]
      cases check item <;> simp [bind, Except.bind]

theorem validateVesting_eq_ok {acc : GenesisAccount} :
    validateVesting sdk acc = .ok () ↔ VestingAccepted acc := by
  unfold validateVesting VestingAccepted
  by_cases free : isZero acc.originalVesting = true
  · simp [free]
  · rw [if_neg free]
    split
    · simp [free, forM_eq_ok]
    · split
      · simp [free, forM_eq_ok]
      · simp [free, refusal_eq_ok]

theorem validateAccount_eq_ok {addrMap after : Store Bytes Bool} {acc : GenesisAccount} :
    validateAccount sdk addrMap acc = .ok after ↔
      addrMap[addressString acc.address]? = none ∧ VestingAccepted acc ∧
        after = addrMap.insert (addressString acc.address) true := by
  unfold validateAccount
  rw [← @validateVesting_eq_ok sdk]
  cases addrMap[addressString acc.address]? with
  | some seen => simp
  | none => cases validateVesting sdk acc <;> simp [bind, Except.bind, eq_comm]

theorem addressString_eq_iff {first second : Address} :
    addressString first = addressString second ↔ first = second :=
  (printBech32_injective (ascii "terra")).eq_iff

/-- The loop over the accounts, from the addresses that were seen before. -/
theorem validateAccount_foldlM {accs : List GenesisAccount} {addrMap : Store Bytes Bool} :
    (∃ after, accs.foldlM (validateAccount sdk) addrMap = .ok after) ↔
      AccountsAccepted accs ∧
        ∀ acc ∈ accs, addrMap[addressString acc.address]? = none := by
  induction accs generalizing addrMap with
  | nil =>
      constructor
      · intro _
        exact ⟨⟨List.nodup_nil, by simp⟩, by simp⟩
      · exact fun _ => ⟨addrMap, rfl⟩
  | cons acc accs ih =>
      have unseen : (∀ other ∈ accs,
          (addrMap.insert (addressString acc.address) true)[addressString other.address]? = none) ↔
            (∀ other ∈ accs, addrMap[addressString other.address]? = none) ∧
              acc.address ∉ accs.map GenesisAccount.address := by
        simp only [Store.get_insert, addressString_eq_iff, List.mem_map, not_exists, not_and]
        constructor
        · intro fresh
          refine ⟨?_, ?_⟩
          · intro other otherMem
            have absent := fresh other otherMem
            split at absent
            · cases absent
            · exact absent
          · intro other otherMem same
            have absent := fresh other otherMem
            rw [if_pos same.symm] at absent
            cases absent
        · rintro ⟨fresh, different⟩ other otherMem
          rw [if_neg fun same => different other otherMem same.symm]
          exact fresh other otherMem
      have split : (∃ after, (acc :: accs).foldlM (validateAccount sdk) addrMap = .ok after) ↔
          addrMap[addressString acc.address]? = none ∧ VestingAccepted acc ∧
            ∃ after, accs.foldlM (validateAccount sdk)
              (addrMap.insert (addressString acc.address) true) = .ok after := by
        rw [List.foldlM_cons]
        constructor
        · rintro ⟨after, folded⟩
          cases checked : validateAccount sdk addrMap acc with
          | error error =>
              rw [checked] at folded
              cases folded
          | ok next =>
              rw [checked] at folded
              rcases validateAccount_eq_ok.mp checked with ⟨fresh, vesting, rfl⟩
              exact ⟨fresh, vesting, after, folded⟩
        · rintro ⟨fresh, vesting, after, folded⟩
          refine ⟨after, ?_⟩
          rw [validateAccount_eq_ok.mpr ⟨fresh, vesting, rfl⟩]
          exact folded
      rw [split, ih, unseen]
      constructor
      · rintro ⟨fresh, vesting, accepted, others, different⟩
        refine ⟨⟨?_, ?_⟩, ?_⟩
        · exact List.nodup_cons.mpr ⟨different, accepted.distinct⟩
        · exact List.forall_mem_cons.mpr ⟨vesting, accepted.vesting⟩
        · exact List.forall_mem_cons.mpr ⟨fresh, others⟩
      · rintro ⟨accepted, fresh⟩
        rcases List.nodup_cons.mp accepted.distinct with ⟨different, distinct⟩
        rcases List.forall_mem_cons.mp accepted.vesting with ⟨vesting, vestings⟩
        rcases List.forall_mem_cons.mp fresh with ⟨here, others⟩
        exact ⟨here, vesting, ⟨distinct, vestings⟩, others, different⟩

theorem validateGenesisStateAccounts_eq_ok {accs : List GenesisAccount} :
    validateGenesisStateAccounts sdk accs = .ok () ↔ AccountsAccepted accs := by
  have folded := @validateAccount_foldlM sdk accs ∅
  simp only [Store.get_empty, implies_true, and_true] at folded
  rw [← folded, validateGenesisStateAccounts]
  cases accs.foldlM (validateAccount sdk) ∅ <;> simp [bind, Except.bind]

theorem mapError_eq_ok {α ε ε' : Type} {wrap : ε → ε'} {checked : Except ε α} {value : α} :
    checked.mapError wrap = .ok value ↔ checked = .ok value := by
  cases checked <;> simp [Except.mapError]

theorem seq_eq_ok {ε : Type} {first rest : Except ε Unit} :
    (do first; rest) = .ok () ↔ first = .ok () ∧ rest = .ok () := by
  cases first <;> simp [bind, Except.bind]

/-- The states that the application accepts. -/
theorem terraValidateGenesisState_eq_ok {genesisState : GenesisState sdk} :
    terraValidateGenesisState genesisState = .ok () ↔ Admitted genesisState := by
  simp only [terraValidateGenesisState, seq_eq_ok, validateGenesisStateAccounts_eq_ok]
  by_cases fromTxs : genesisState.genTxs = []
  · simp only [fromTxs, ne_eq, not_true_eq_false, if_false, seq_eq_ok, validateSdk,
      mapError_eq_ok, Market.validateGenesis_eq_ok]
    constructor
    · rintro ⟨accounts, auth, bank, staking, distr, slashing, crisis, market⟩
      refine ⟨accounts, fun _ => ⟨?_, market⟩⟩
      intro sdkModule
      cases sdkModule <;> assumption
    · intro admitted
      rcases admitted.modules fromTxs with ⟨modules, market⟩
      exact ⟨admitted.accounts, modules .auth, modules .bank, modules .staking, modules .distr,
        modules .slashing, modules .crisis, market⟩
  · simp only [fromTxs, ne_eq, not_false_eq_true, if_true, and_true]
    constructor
    · exact fun accounts => ⟨accounts, fun noTxs => absurd noTxs fromTxs⟩
    · exact fun admitted => admitted.accounts

/-- The modules accept their own data, both vote periods are positive and both
rates start in the range of their policies. -/
structure SafeToRun (genesisState : GenesisState sdk) : Prop where
  oracle : Oracle.validateGenesis genesisState.oracleData = .ok ()
  treasury : Treasury.validateGenesis genesisState.treasuryData = .ok ()
  budget : Budget.validateGenesis genesisState.budgetData = .ok ()
  oracleVotePeriod : 0 < genesisState.oracleData.params.votePeriod
  budgetVotePeriod : 0 < genesisState.budgetData.params.votePeriod
  rates : ∀ lever : Treasury.Lever, (lever.policy genesisState.treasuryData.params).InRange
    (lever.genesis genesisState.treasuryData)

/-- The data of the modules that are not asked is in bounds. -/
structure InBounds (genesisState : GenesisState sdk) : Prop where
  oracle : genesisState.oracleData.params.Valid
  treasury : ∀ lever : Treasury.Lever,
    (lever.policy genesisState.treasuryData.params).InRange
      (lever.genesis genesisState.treasuryData) ∧
        Dec.zero ≤ (lever.policy genesisState.treasuryData.params).rateMin
  budget : genesisState.budgetData.params.Valid ∧ genesisState.budgetData.programs = [] ∧
    genesisState.budgetData.votes = []

theorem safeToRun_iff {genesisState : GenesisState sdk} :
    SafeToRun genesisState ↔ InBounds genesisState := by
  constructor
  · intro safe
    exact ⟨Oracle.validateGenesis_eq_ok.mp safe.oracle,
      Treasury.validateGenesis_eq_ok.mp safe.treasury, Budget.validateGenesis_eq_ok.mp safe.budget⟩
  · intro inBounds
    exact ⟨Oracle.validateGenesis_eq_ok.mpr inBounds.oracle,
      Treasury.validateGenesis_eq_ok.mpr inBounds.treasury,
      Budget.validateGenesis_eq_ok.mpr inBounds.budget, inBounds.oracle.votePeriod,
      inBounds.budget.1.votePeriod, fun lever => (inBounds.treasury lever).1⟩

/-- An accepted state is safe to run exactly when the data of the modules that
are not asked happens to be in bounds. -/
theorem accepted_safeToRun_iff (genesisState : GenesisState sdk) :
    (terraValidateGenesisState genesisState = .ok () → SafeToRun genesisState) ↔
      ¬Admitted genesisState ∨ InBounds genesisState := by
  rw [terraValidateGenesisState_eq_ok, safeToRun_iff, imp_iff_not_or]

/-- Modules of the SDK that have no data. -/
def emptyModules : SdkModules := ⟨fun _ => Unit, Unit, fun _ _ => .ok ()⟩

/-- The default genesis state with a vote period of zero blocks in the oracle. -/
def periodlessGenesis : GenesisState emptyModules where
  accounts := []
  sdkData _ := ()
  treasuryData := Treasury.defaultGenesisState
  budgetData := Budget.defaultGenesisState
  oracleData := ⟨{ Oracle.defaultParams with votePeriod := 0 }⟩
  marketData := ⟨Market.defaultParams⟩
  genTxs := []

/-- A vote period of zero blocks is accepted. -/
theorem periodlessGenesis_accepted :
    terraValidateGenesisState periodlessGenesis = .ok () ∧
      Oracle.validateGenesis periodlessGenesis.oracleData = .error (.votePeriod 0) ∧
      ¬(terraValidateGenesisState periodlessGenesis = .ok () →
        SafeToRun periodlessGenesis) := by
  have accepted : terraValidateGenesisState periodlessGenesis = .ok () := rfl
  refine ⟨accepted, rfl, ?_⟩
  intro safe
  exact absurd (safe accepted).oracleVotePeriod (by decide)

end App

end TerraCore
