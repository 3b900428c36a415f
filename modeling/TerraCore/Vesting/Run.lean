import TerraCore.Library.Transition
import TerraCore.Vesting.Account

/-!
# Life of a vesting account

A vesting account receives coins, spends what is spendable, delegates and takes
delegations back, at block times that never go back. `TrackUndelegation` is a
method of the embedded SDK account, and is assumed to undo a delegation as
`Lockup.Balances.undelegate` does.

An account that starts with its original vesting stays covered: what it holds
and has delegated as vesting is at least what is still vesting. Hence the
spendable coins can always be computed and every delegation of held coins goes
through.
-/

namespace TerraCore

namespace Vesting

open Lockup Transition

/-- The vesting accounts of this repository. -/
inductive VestingAccount where
  | graded (account : BaseGradedVestingAccount)
  | lazyGraded (account : BaseLazyGradedVestingAccount)
deriving DecidableEq

namespace VestingAccount

def base : VestingAccount → BaseVestingAccount
  | graded account => account.toBaseVestingAccount
  | lazyGraded account => account.toBaseVestingAccount

/-- Replace everything but the schedules. -/
def withBase (account : VestingAccount) (base : BaseVestingAccount) : VestingAccount :=
  match account with
  | graded account => graded { account with toBaseVestingAccount := base }
  | lazyGraded account => lazyGraded { account with toBaseVestingAccount := base }

/-- `SetCoins` -/
def setCoins (account : VestingAccount) (coins : Coins) : VestingAccount :=
  account.withBase { account.base with coins := coins }

def getVestingCoins (account : VestingAccount) (blockTime : Int64) : Outcome (List Coin) :=
  match account with
  | graded account => account.getVestingCoins blockTime
  | lazyGraded account => account.getVestingCoins blockTime

def spendableCoins (account : VestingAccount) (blockTime : Int64) : Outcome Coins :=
  match account with
  | graded account => account.spendableCoins blockTime
  | lazyGraded account => account.spendableCoins blockTime

def trackDelegation (account : VestingAccount) (blockTime : Int64) (amount : Coins) :
    Outcome VestingAccount :=
  match account with
  | graded account => do .ok (graded (← account.trackDelegation blockTime amount))
  | lazyGraded account => do .ok (lazyGraded (← account.trackDelegation blockTime amount))

def SchedulesValid : VestingAccount → Prop
  | graded account => account.SchedulesValid
  | lazyGraded account => account.SchedulesValid

/-- An account as it is created: it holds its original vesting and has delegated nothing. -/
structure IsNew (account : VestingAccount) : Prop where
  coins : account.base.coins = account.base.originalVesting
  delegatedFree : account.base.delegatedFree = .empty
  delegatedVesting : account.base.delegatedVesting = .empty

def tranches : VestingAccount → Denom → Option (List Ramp.Tranche)
  | graded account => account.tranches
  | lazyGraded account => account.tranches

/-- What is still vesting of one denomination. -/
def locked (account : VestingAccount) (blockTime : Int64) (denom : Denom) : ℤ :=
  account.base.originalVesting.amountOf denom -
    Rounding.roundHalfEven (account.base.originalVesting.amountOf denom *
      releasedUnits (account.tranches denom) blockTime) Dec.precision

/-- In every denomination the account is covered for what is still vesting. -/
def Covered (account : VestingAccount) (blockTime : Int64) : Prop :=
  ∀ denom, (account.base.balances denom).Covered (account.locked blockTime denom)

variable {account : VestingAccount} {blockTime : Int64}

theorem SchedulesValid.whole (valid : account.SchedulesValid) (denom : Denom) :
    ∀ found, account.tranches denom = some found → Whole found := by
  cases account with
  | graded account => exact BaseGradedVestingAccount.SchedulesValid.whole valid denom
  | lazyGraded account => exact BaseLazyGradedVestingAccount.SchedulesValid.whole valid denom

theorem SchedulesValid.isPart (valid : account.SchedulesValid) (blockTime : Int64)
    (denom : Denom) : IsPart (releasedUnits (account.tranches denom) blockTime) :=
  releasedUnits_isPart (valid.whole denom) blockTime

/-- With valid schedules the vesting coins are the locked amounts. -/
theorem SchedulesValid.getVestingCoins_spec (valid : account.SchedulesValid)
    (blockTime : Int64) :
    ∃ vesting, account.getVestingCoins blockTime = .ok vesting ∧
      ∀ denom, amountOf vesting denom = account.locked blockTime denom := by
  have isPart := valid.isPart blockTime
  cases account with
  | graded account =>
      have units := fun denom => @BaseGradedVestingAccount.vestedUnits_vestedRatio account blockTime denom
      rcases @vestingCoins_spec (account.vestedRatio blockTime) account.originalVesting
        (fun denom => by rw [units]; exact isPart denom) with ⟨vesting, computed, amounts⟩
      refine ⟨vesting, computed, ?_⟩
      intro denom
      rw [amounts]
      simp only [lockedAmount, vestedAmount, units]
      rfl
  | lazyGraded account =>
      have units := fun denom => valid.vestedUnits_vestedRatio blockTime denom
      rcases @vestingCoins_spec (account.vestedRatio blockTime) account.originalVesting
        (fun denom => by rw [units]; exact isPart denom) with ⟨vesting, computed, amounts⟩
      refine ⟨vesting, computed, ?_⟩
      intro denom
      rw [amounts]
      simp only [lockedAmount, vestedAmount, units]
      rfl

/-- What is locked never grows. -/
theorem SchedulesValid.locked_antitone (valid : account.SchedulesValid) {earlier later : Int64}
    (ordered : earlier ≤ later) (denom : Denom) :
    account.locked later denom ≤ account.locked earlier denom := by
  have released := releasedUnits_mono (valid.whole denom) ordered
  have rounded := Rounding.roundHalfEven_mono Dec.precision_pos (mul_le_mul_of_nonneg_left released
    (account.base.originalVesting.amountOf_nonneg denom))
  simp only [locked]
  omega

theorem SchedulesValid.locked_le (valid : account.SchedulesValid) (denom : Denom) :
    account.locked blockTime denom ≤ account.base.originalVesting.amountOf denom := by
  have nonneg := Rounding.roundHalfEven_nonneg Dec.precision_pos (mul_nonneg
    (account.base.originalVesting.amountOf_nonneg denom) (valid.isPart blockTime denom).1)
  simp only [locked]
  omega

theorem Covered.later (covered : account.Covered blockTime) (valid : account.SchedulesValid)
    {time : Int64} (ordered : blockTime ≤ time) : account.Covered time :=
  fun denom => (covered denom).mono (valid.locked_antitone ordered denom)

theorem IsNew.covered (isNew : account.IsNew) (valid : account.SchedulesValid) :
    account.Covered blockTime := by
  intro denom
  have bounded := @SchedulesValid.locked_le account blockTime valid denom
  simp only [Balances.Covered, BaseVestingAccount.balances, isNew.coins, isNew.delegatedVesting,
    Coins.amountOf_empty]
  omega

theorem spendableCoins_eq (account : VestingAccount) (blockTime : Int64) :
    account.spendableCoins blockTime = (do
      let vesting ← account.getVestingCoins blockTime
      account.base.spendableCoins vesting) := by
  cases account <;> rfl

theorem trackDelegation_eq (account : VestingAccount) (blockTime : Int64) (amount : Coins) :
    account.trackDelegation blockTime amount = (do
      let vesting ← account.getVestingCoins blockTime
      let base ← account.base.trackDelegation vesting amount
      .ok (account.withBase base)) := by
  cases account with
  | graded account =>
      simp only [trackDelegation, BaseGradedVestingAccount.trackDelegation, getVestingCoins, base]
      cases account.getVestingCoins blockTime with
      | error failure => rfl
      | ok vesting =>
          simp only [bind, Except.bind]
          cases account.toBaseVestingAccount.trackDelegation vesting amount <;> rfl
  | lazyGraded account =>
      simp only [trackDelegation, BaseLazyGradedVestingAccount.trackDelegation, getVestingCoins,
        base]
      cases account.getVestingCoins blockTime with
      | error failure => rfl
      | ok vesting =>
          simp only [bind, Except.bind]
          cases account.toBaseVestingAccount.trackDelegation vesting amount <;> rfl

@[simp]
theorem base_withBase (account : VestingAccount) (base : BaseVestingAccount) :
    (account.withBase base).base = base := by
  cases account <;> rfl

@[simp]
theorem tranches_withBase (account : VestingAccount) (base : BaseVestingAccount) :
    (account.withBase base).tranches = account.tranches := by
  cases account <;> rfl

theorem SchedulesValid.withBase (valid : account.SchedulesValid) (base : BaseVestingAccount) :
    (account.withBase base).SchedulesValid := by
  cases account <;> exact valid

theorem locked_withBase {base : BaseVestingAccount}
    (sameTerms : base.originalVesting = account.base.originalVesting) (denom : Denom) :
    (account.withBase base).locked blockTime denom = account.locked blockTime denom := by
  simp only [locked, base_withBase, tranches_withBase, sameTerms]

/-- An account with new balances is covered when these balances are. -/
theorem covered_withBase {base : BaseVestingAccount}
    (sameTerms : base.originalVesting = account.base.originalVesting)
    (covered : ∀ denom, (base.balances denom).Covered (account.locked blockTime denom)) :
    (account.withBase base).Covered blockTime := by
  intro denom
  rw [base_withBase, locked_withBase sameTerms]
  exact covered denom

theorem Covered.spendableCoins_spec (covered : account.Covered blockTime)
    (valid : account.SchedulesValid) :
    ∃ spendable, account.spendableCoins blockTime = .ok spendable ∧
      ∀ denom, spendable.amountOf denom ≤
        (account.base.balances denom).spendable (account.locked blockTime denom) := by
  rcases valid.getVestingCoins_spec blockTime with ⟨vesting, vestingOk, amounts⟩
  have lockedEq : ∀ denom, (account.base.balances denom).Covered (amountOf vesting denom) := by
    intro denom
    rw [amounts]
    exact covered denom
  rcases @BaseVestingAccount.spendableCoins_spec account.base vesting
    (fun coin _ => lockedEq coin.denom) with ⟨spendable, spendableOk, held, notHeld⟩
  refine ⟨spendable, ?_, ?_⟩
  · rw [spendableCoins_eq, vestingOk]
    exact spendableOk
  · intro denom
    by_cases absent : account.base.coins.amountOf denom = 0
    · rw [notHeld denom absent]
      exact (covered denom).spendable_nonneg (account.base.coins.amountOf_nonneg denom)
    · rcases Coins.mem_of_amountOf_ne_zero absent with ⟨coin, coinMem, rfl⟩
      rw [held coin coinMem, amounts]

/-- The spendable coins can be computed exactly when the account is covered in
every denomination that it holds. -/
theorem SchedulesValid.spendableCoins_isOk_iff (valid : account.SchedulesValid) :
    (∃ spendable, account.spendableCoins blockTime = .ok spendable) ↔
      ∀ coin ∈ account.base.coins.toList,
        (account.base.balances coin.denom).Covered (account.locked blockTime coin.denom) := by
  rcases valid.getVestingCoins_spec blockTime with ⟨vesting, vestingOk, amounts⟩
  have spendableEq : account.spendableCoins blockTime = account.base.spendableCoins vesting := by
    rw [spendableCoins_eq, vestingOk]
    rfl
  rw [spendableEq]
  constructor
  · rintro ⟨spendable, computed⟩ coin coinMem
    rw [← amounts]
    exact BaseVestingAccount.covered_of_spendableCoins computed coin coinMem
  · intro covered
    rcases @BaseVestingAccount.spendableCoins_spec account.base vesting
      (fun coin coinMem => by rw [amounts]; exact covered coin coinMem) with
      ⟨spendable, computed, _⟩
    exact ⟨spendable, computed⟩

theorem SchedulesValid.trackDelegation_spec (valid : account.SchedulesValid) {amount : Coins}
    (enough : ∀ denom, amount.amountOf denom ≤ account.base.coins.amountOf denom) :
    ∃ after, account.trackDelegation blockTime amount = .ok (account.withBase after) ∧
      after.originalVesting = account.base.originalVesting ∧
      ∀ denom, after.balances denom = (account.base.balances denom).delegate
        (account.locked blockTime denom) (amount.amountOf denom) := by
  rcases valid.getVestingCoins_spec blockTime with ⟨vesting, vestingOk, amounts⟩
  rcases @BaseVestingAccount.trackDelegation_spec account.base vesting amount
    enough with ⟨after, afterOk, sameTerms, balances⟩
  refine ⟨after, ?_, sameTerms, ?_⟩
  · rw [trackDelegation_eq, vestingOk]
    simp only [bind, Except.bind, afterOk]
  · intro denom
    rw [balances, amounts]

end VestingAccount

/-- What `TrackUndelegation` of the SDK does to an account. -/
structure TracksUndelegation
    (trackUndelegation : BaseVestingAccount → Coins → BaseVestingAccount) : Prop where
  sameTerms : ∀ account amount,
    (trackUndelegation account amount).originalVesting = account.originalVesting
  balances : ∀ account amount denom, (trackUndelegation account amount).balances denom =
    (account.balances denom).undelegate (amount.amountOf denom)

inductive Operation where
  | receive (amount : Coins)
  | spend (amount : Coins)
  | delegate (amount : Coins)
  | undelegate (amount : Coins)
deriving DecidableEq

/-- An account at the block time of its last operation. -/
structure State where
  clock : Int64
  account : VestingAccount
deriving DecidableEq

section Runs

variable (trackUndelegation : BaseVestingAccount → Coins → BaseVestingAccount)

/-- One operation at a block time. Spending is limited to the spendable coins. -/
def operate (account : VestingAccount) (blockTime : Int64) : Operation → Outcome VestingAccount
  | .receive amount => .ok (account.setCoins (account.base.coins.add amount))
  | .spend amount => do
      let spendable ← account.spendableCoins blockTime
      if ∀ coin ∈ amount.toList, coin.amount ≤ spendable.amountOf coin.denom then do
        .ok (account.setCoins (← account.base.coins.sub amount))
      else .error (.error .insufficientCoins)
  | .delegate amount => account.trackDelegation blockTime amount
  | .undelegate amount => .ok (account.withBase (trackUndelegation account.base amount))

/-- One operation, at a block time that is not before the last one. -/
def step (state : State) (event : Int64 × Operation) : Option State :=
  if state.clock ≤ event.1 then
    match operate trackUndelegation state.account event.1 event.2 with
    | .ok account => some ⟨event.1, account⟩
    | .error _ => none
  else none

/-- The operations that an account can be asked to perform. -/
def Allowed (account : VestingAccount) (blockTime : Int64) : Operation → Prop
  | .receive _ => True
  | .spend amount => ∀ spendable, account.spendableCoins blockTime = .ok spendable →
      ∀ denom, amount.amountOf denom ≤ spendable.amountOf denom
  | .delegate amount => ∀ denom, amount.amountOf denom ≤ account.base.coins.amountOf denom
  | .undelegate _ => True

variable {trackUndelegation}

theorem step_eq_some {state next : State} {event : Int64 × Operation}
    (taken : step trackUndelegation state event = some next) :
    state.clock ≤ event.1 ∧ next.clock = event.1 ∧
      operate trackUndelegation state.account event.1 event.2 = .ok next.account := by
  simp only [step] at taken
  split at taken
  · next ordered =>
      split at taken
      · next account operated =>
          cases taken
          exact ⟨ordered, rfl, operated⟩
      · cases taken
  · cases taken

/-- An operation that goes through is an allowed one. -/
theorem allowed_of_operate {account after : VestingAccount} {blockTime : Int64}
    {operation : Operation}
    (operated : operate trackUndelegation account blockTime operation = .ok after) :
    Allowed account blockTime operation := by
  cases operation with
  | receive amount => trivial
  | spend amount =>
      intro spendable spendableOk denom
      simp only [operate, spendableOk, bind, Except.bind] at operated
      split at operated
      · next checked =>
          exact amount.amountOf_le_of_forall (spendable.amountOf_nonneg denom) checked
      · cases operated
  | delegate amount =>
      intro denom
      simp only [operate, VestingAccount.trackDelegation_eq] at operated
      rcases Outcome.bind_eq_ok.mp operated with ⟨vesting, _, rest⟩
      rcases Outcome.bind_eq_ok.mp rest with ⟨base, delegated, _⟩
      exact BaseVestingAccount.enough_of_trackDelegation delegated denom
  | undelegate amount => trivial

variable (tracks : TracksUndelegation trackUndelegation)
include tracks

/-- Every allowed operation of a covered account goes through, and leaves it covered. -/
theorem operate_spec {account : VestingAccount} {blockTime : Int64} {operation : Operation}
    (valid : account.SchedulesValid) (covered : account.Covered blockTime)
    (allowed : Allowed account blockTime operation) :
    ∃ after, operate trackUndelegation account blockTime operation = .ok after ∧
      after.SchedulesValid ∧ after.Covered blockTime := by
  cases operation with
  | receive amount =>
      refine ⟨_, rfl, valid.withBase _, VestingAccount.covered_withBase rfl ?_⟩
      intro denom
      have received := (covered denom).receive (amount.amountOf_nonneg denom)
      simpa [BaseVestingAccount.balances, Balances.receive] using received
  | spend amount =>
      rcases covered.spendableCoins_spec valid with ⟨spendable, spendableOk, bounded⟩
      have withinSpendable := allowed spendable spendableOk
      have withinCoins : ∀ denom, amount.amountOf denom ≤ account.base.coins.amountOf denom :=
        fun denom => ((withinSpendable denom).trans (bounded denom)).trans (min_le_right _ _)
      rcases Coins.sub_isOk withinCoins with ⟨coins, coinsOk⟩
      have checked : ∀ coin ∈ amount.toList, coin.amount ≤ spendable.amountOf coin.denom := by
        intro coin coinMem
        rw [← Coins.amountOf_of_mem amount.proper coinMem]
        exact withinSpendable coin.denom
      refine ⟨account.setCoins coins, ?_, valid.withBase _,
        VestingAccount.covered_withBase rfl ?_⟩
      · simp only [operate, spendableOk, bind, Except.bind]
        rw [if_pos checked, coinsOk]
      · intro denom
        have spent := Balances.Covered.spend ((withinSpendable denom).trans (bounded denom))
        simpa [BaseVestingAccount.balances, Balances.spend, Coins.amountOf_of_sub coinsOk]
          using spent
  | delegate amount =>
      rcases @VestingAccount.SchedulesValid.trackDelegation_spec account blockTime valid amount
        allowed with ⟨after, delegated, sameTerms, balances⟩
      refine ⟨_, delegated, valid.withBase after, VestingAccount.covered_withBase sameTerms ?_⟩
      intro denom
      rw [balances]
      exact (covered denom).delegate (allowed denom)
  | undelegate amount =>
      refine ⟨_, rfl, valid.withBase _, VestingAccount.covered_withBase (tracks.sameTerms _ _) ?_⟩
      intro denom
      rw [tracks.balances]
      exact (covered denom).undelegate (amount.amountOf_nonneg denom)
        (account.base.delegatedFree.amountOf_nonneg denom)

theorem step_covered {state next : State} {event : Int64 × Operation}
    (invariant : state.account.SchedulesValid ∧ state.account.Covered state.clock)
    (taken : step trackUndelegation state event = some next) :
    next.account.SchedulesValid ∧ next.account.Covered next.clock := by
  rcases step_eq_some taken with ⟨ordered, clockEq, operated⟩
  rcases operate_spec tracks invariant.1 (invariant.2.later invariant.1 ordered)
    (allowed_of_operate operated) with ⟨after, afterOk, afterValid, afterCovered⟩
  have afterEq : after = next.account := Except.ok.inj (afterOk.symm.trans operated)
  rw [← afterEq, clockEq]
  exact ⟨afterValid, afterCovered⟩

theorem reaches_covered {start : Int64} {created : VestingAccount} (isNew : created.IsNew)
    (valid : created.SchedulesValid) {events : List (Int64 × Operation)} {state : State}
    (reached : Reaches (step trackUndelegation) ⟨start, created⟩ events state) :
    state.account.SchedulesValid ∧ state.account.Covered state.clock :=
  reached.invariant
    (fun current => current.account.SchedulesValid ∧ current.account.Covered current.clock)
    (fun _ _ _ invariant taken => step_covered tracks invariant taken)
    ⟨valid, isNew.covered valid⟩

/-- After any run, and at any time from then on, what an account holds and has
delegated as vesting covers what is still vesting. It can compute its spendable
coins, every allowed operation goes through, and a delegation moves exactly its
amount out of the coins and into the delegations. -/
theorem stays_covered {start : Int64} {created : VestingAccount} (isNew : created.IsNew)
    (valid : created.SchedulesValid) {events : List (Int64 × Operation)} {state : State}
    (reached : Reaches (step trackUndelegation) ⟨start, created⟩ events state)
    {blockTime : Int64} (notBefore : state.clock ≤ blockTime) :
    (∃ vesting, state.account.getVestingCoins blockTime = .ok vesting ∧
      ∀ denom, amountOf vesting denom ≤ state.account.base.coins.amountOf denom +
        state.account.base.delegatedVesting.amountOf denom) ∧
    (∃ spendable, state.account.spendableCoins blockTime = .ok spendable) ∧
    (∀ operation, Allowed state.account blockTime operation →
      ∃ next, step trackUndelegation state (blockTime, operation) = some next) ∧
    ∀ amount, (∀ denom, amount.amountOf denom ≤ state.account.base.coins.amountOf denom) →
      ∃ after, state.account.trackDelegation blockTime amount = .ok after ∧
        ∀ denom, after.base.coins.amountOf denom =
            state.account.base.coins.amountOf denom - amount.amountOf denom ∧
          after.base.delegatedVesting.amountOf denom + after.base.delegatedFree.amountOf denom =
            state.account.base.delegatedVesting.amountOf denom +
              state.account.base.delegatedFree.amountOf denom + amount.amountOf denom := by
  rcases reaches_covered tracks isNew valid reached with ⟨stateValid, stateCovered⟩
  have covered := stateCovered.later stateValid notBefore
  refine ⟨?_, ?_, ?_, ?_⟩
  · rcases stateValid.getVestingCoins_spec blockTime with ⟨vesting, vestingOk, amounts⟩
    refine ⟨vesting, vestingOk, ?_⟩
    intro denom
    rw [amounts]
    exact covered denom
  · rcases covered.spendableCoins_spec stateValid with ⟨spendable, spendableOk, _⟩
    exact ⟨spendable, spendableOk⟩
  · intro operation allowed
    rcases operate_spec tracks stateValid covered allowed with ⟨after, operated, _⟩
    refine ⟨⟨blockTime, after⟩, ?_⟩
    simp only [step, operated]
    exact if_pos notBefore
  · intro amount enough
    rcases @VestingAccount.SchedulesValid.trackDelegation_spec state.account blockTime stateValid
      amount enough with ⟨after, delegated, _, balances⟩
    refine ⟨_, delegated, ?_⟩
    intro denom
    have moves := Balances.delegate_moves (state.account.base.balances denom)
      (state.account.locked blockTime denom) (amount.amountOf denom)
    rw [← balances] at moves
    rw [VestingAccount.base_withBase]
    exact moves

end Runs

/-- What `coins` exceed `others` by, denomination by denomination. -/
def excess (coins others : Coins) : Coins where
  toList := (coins.toList.map fun coin =>
    (⟨coin.denom, coin.amount - others.amountOf coin.denom⟩ : Coin)).filter
      fun coin => 0 < coin.amount
  valid := by
    rw [isValid_iff]
    have positive : ∀ coin ∈ (coins.toList.map fun coin =>
        (⟨coin.denom, coin.amount - others.amountOf coin.denom⟩ : Coin)).filter
          fun coin => 0 < coin.amount, 0 < coin.amount := by
      intro coin coinMem
      simpa using (List.mem_filter.mp coinMem).2
    refine ⟨⟨?_, ?_, fun coin coinMem => (positive coin coinMem).ne'⟩, positive⟩
    · exact (List.pairwise_map.mpr coins.proper.sorted).filter _
    · intro coin coinMem
      rcases List.mem_map.mp (List.mem_filter.mp coinMem).1 with ⟨original, originalMem, rfl⟩
      exact coins.proper.denoms original originalMem

theorem amountOf_excess (coins others : Coins) (denom : Denom) :
    (excess coins others).amountOf denom =
      max (coins.amountOf denom - others.amountOf denom) 0 := by
  have general : ∀ items : List Coin, Proper items → (∀ coin ∈ items, 0 < coin.amount) →
      amountOf ((items.map fun coin =>
        (⟨coin.denom, coin.amount - others.amountOf coin.denom⟩ : Coin)).filter
          fun coin => 0 < coin.amount) denom =
        max (amountOf items denom - others.amountOf denom) 0 := by
    intro items proper positive
    have othersNonneg := others.amountOf_nonneg denom
    induction items with
    | nil =>
        simp only [List.map_nil, List.filter_nil, amountOf_nil]
        omega
    | cons head tail ih =>
        have tailEq := ih proper.tail fun coin coinMem => positive coin
          (List.mem_cons_of_mem _ coinMem)
        rw [List.map_cons, List.filter_cons, amountOf_cons head]
        by_cases here : head.denom = denom
        · subst here
          rw [proper.amountOf_tail] at tailEq ⊢
          split
          · next kept =>
              simp only [decide_eq_true_eq] at kept
              simp only [amountOf_cons, if_true, tailEq]
              omega
          · next dropped =>
              simp only [decide_eq_true_eq] at dropped
              simp only [tailEq, if_true]
              omega
        · rw [if_neg here, zero_add]
          split
          · rw [amountOf_cons, if_neg here, zero_add, tailEq]
          · exact tailEq
  exact general coins.toList coins.proper fun coin coinMem => coins.amount_pos coinMem

/-- `TrackUndelegation`: what returns is taken off the free delegations first. -/
def trackUndelegation (account : BaseVestingAccount) (amount : Coins) : BaseVestingAccount :=
  { account with
    coins := account.coins.add amount
    delegatedFree := excess account.delegatedFree amount
    delegatedVesting := excess account.delegatedVesting (excess amount account.delegatedFree) }

theorem trackUndelegation_tracks : TracksUndelegation trackUndelegation := by
  refine ⟨fun _ _ => rfl, ?_⟩
  intro account amount denom
  simp only [BaseVestingAccount.balances, trackUndelegation, Balances.undelegate,
    Coins.amountOf_add, amountOf_excess, Balances.mk.injEq, true_and]
  omega

/-- An account of a hundred million `uluna` that vest in two halves. -/
def sampleAccount : VestingAccount :=
  .graded (newBaseGradedVestingAccount
    ⟨List.replicate 20 1, none, ⟨[⟨microLunaDenom, 100000000⟩], hundredLuna_isValid⟩, 0, 0⟩
    [⟨microLunaDenom, [⟨10, ⟨500000000000000000⟩⟩, ⟨20, ⟨500000000000000000⟩⟩]⟩])

theorem sampleAccount_schedulesValid : sampleAccount.SchedulesValid := by
  simp only [sampleAccount, VestingAccount.SchedulesValid,
    BaseGradedVestingAccount.SchedulesValid, newBaseGradedVestingAccount]
  decide +kernel

def sampleEvents : List (Int64 × Operation) :=
  [(5, .delegate ⟨[⟨microLunaDenom, 70000000⟩], by decide⟩),
    (12, .spend ⟨[⟨microLunaDenom, 30000000⟩], by decide⟩),
    (12, .undelegate ⟨[⟨microLunaDenom, 60000000⟩], by decide⟩),
    (15, .spend ⟨[⟨microLunaDenom, 20000000⟩], by decide⟩)]

theorem stays_covered_sample :
    ∃ state, Reaches (step trackUndelegation) ⟨0, sampleAccount⟩ sampleEvents state ∧
      state.account.base.coins.amountOf microLunaDenom = 40000000 ∧
      (∃ vesting, state.account.getVestingCoins 15 = .ok vesting ∧
        ∀ denom, amountOf vesting denom ≤ state.account.base.coins.amountOf denom +
          state.account.base.delegatedVesting.amountOf denom) ∧
      ∃ spendable, state.account.spendableCoins 15 = .ok spendable := by
  have performed : (perform (step trackUndelegation) ⟨0, sampleAccount⟩ sampleEvents).map
      (fun state => (state.clock, state.account.base.coins.amountOf microLunaDenom)) =
        some (15, 40000000) := by
    decide +kernel
  rcases Option.map_eq_some_iff.mp performed with ⟨state, ran, observed⟩
  rcases Prod.mk.inj observed with ⟨clockEq, held⟩
  have reached := reaches_of_perform ran
  have isNew : sampleAccount.IsNew := ⟨rfl, rfl, rfl⟩
  have notBefore : state.clock ≤ 15 := by
    rw [clockEq]
    decide
  rcases stays_covered trackUndelegation_tracks isNew sampleAccount_schedulesValid reached
    notBefore with
    ⟨vesting, spendable, _⟩
  exact ⟨state, reached, held, vesting, spendable⟩

end Vesting

end TerraCore
