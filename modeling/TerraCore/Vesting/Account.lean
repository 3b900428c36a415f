import TerraCore.Library.Lockup
import TerraCore.Vesting.Schedule

/-!
# Vesting accounts

A vesting account keeps what it was created with, its original vesting, beside
its coins and its delegations. The graded and the lazy account differ only in
the schedule they look up: the coins that are still vesting, the spendable
coins and the bookkeeping of a delegation are computed in the same way.

Per denomination, an account behaves as `Lockup.Balances` whose locked amount
is the part of the original vesting that has not vested yet.
-/

namespace TerraCore

namespace Vesting

open Lockup

/-- `auth.BaseAccount`; the public key is absent until the account signs. -/
structure BaseAccount where
  address : Address
  pubKey : Option Bytes
  coins : Coins
  accountNumber : UInt64
  sequence : UInt64
deriving DecidableEq

/-- `auth.BaseVestingAccount` -/
structure BaseVestingAccount extends BaseAccount where
  originalVesting : Coins
  delegatedFree : Coins
  delegatedVesting : Coins
  endTime : Int64
deriving DecidableEq

structure BaseGradedVestingAccount extends BaseVestingAccount where
  vestingSchedules : List VestingSchedule
deriving DecidableEq

structure BaseLazyGradedVestingAccount extends BaseVestingAccount where
  lazyVestingSchedules : List LazyVestingSchedule
deriving DecidableEq

/-- The vesting part of a new account: everything it holds is vesting. -/
def newBaseVestingAccount (baseAcc : BaseAccount) : BaseVestingAccount where
  toBaseAccount := baseAcc
  originalVesting := baseAcc.coins
  delegatedFree := .empty
  delegatedVesting := .empty
  endTime := 0

def newBaseGradedVestingAccount (baseAcc : BaseAccount)
    (vestingSchedules : List VestingSchedule) : BaseGradedVestingAccount :=
  ⟨newBaseVestingAccount baseAcc, vestingSchedules⟩

/-- The vested part of one coin of the original vesting. A coin without a
schedule has vested, and one of which nothing has vested is left out. -/
def vestedCoin (vestedRatio : Denom → Option Dec) (ovc : Coin) : Outcome (Option Coin) :=
  match vestedRatio ovc.denom with
  | some ratio =>
      let vestedAmt := ((Dec.ofInt ovc.amount).mul ratio).roundInt
      if vestedAmt = 0 then .ok none else do .ok (some (← newCoin ovc.denom vestedAmt))
  | none => do .ok (some (← newCoin ovc.denom ovc.amount))

def vestedCoins (vestedRatio : Denom → Option Dec) : List Coin → Outcome (List Coin)
  | [] => .ok []
  | ovc :: rest => do
      let vested ← vestedCoin vestedRatio ovc
      let others ← vestedCoins vestedRatio rest
      .ok (vested.toList ++ others)

/-- `Coins.Sub` of the coins in a list. -/
def subtract (coins : Coins) (others : List Coin) : Outcome (List Coin) :=
  let difference :=
    Coins.addList coins.toList (others.map fun coin => ⟨coin.denom, -coin.amount⟩)
  if ∀ coin ∈ difference, 0 ≤ coin.amount then .ok difference
  else .error (.panic .negativeCoinAmount)

def vestingCoins (vestedRatio : Denom → Option Dec) (originalVesting : Coins) :
    Outcome (List Coin) := do
  let vested ← vestedCoins vestedRatio originalVesting.toList
  subtract originalVesting vested

namespace BaseVestingAccount

/-- What may be spent of one coin: `min((BC + DV) - V, BC)`. -/
def spendableAmt (account : BaseVestingAccount) (vesting : List Coin) (coin : Coin) : ℤ :=
  min (coin.amount + account.delegatedVesting.amountOf coin.denom - amountOf vesting coin.denom)
    coin.amount

def addSpendable (account : BaseVestingAccount) (vesting : List Coin) (spendable : Coins)
    (coin : Coin) : Outcome Coins := do
  let spendableCoin ← newCoin coin.denom (account.spendableAmt vesting coin)
  if spendableCoin.amount = 0 then .ok spendable
  else do .ok (spendable.add (← Coins.ofCoin spendableCoin))

def spendableCoins (account : BaseVestingAccount) (vesting : List Coin) : Outcome Coins :=
  account.coins.toList.foldlM (account.addSpendable vesting) .empty

/-- Add an amount of one denomination unless it is zero. -/
def addNonzero (coins : Coins) (denom : Denom) (amount : ℤ) : Outcome Coins :=
  if amount = 0 then .ok coins
  else do
    let coin ← newCoin denom amount
    .ok (coins.add (← Coins.ofCoin coin))

/-- One coin of a delegation; `bc` are the coins before the first one was delegated. -/
def delegateCoin (bc : Coins) (vesting : List Coin) (account : BaseVestingAccount)
    (coin : Coin) : Outcome BaseVestingAccount :=
  if coin.amount = 0 ∨ bc.amountOf coin.denom < coin.amount then
    .error (.panic .delegationAttempt)
  else do
    let delVestingAmt := account.delegatedVesting.amountOf coin.denom
    let x := min (max (amountOf vesting coin.denom - delVestingAmt) 0) coin.amount
    let y := coin.amount - x
    let delegatedVesting ← addNonzero account.delegatedVesting coin.denom x
    let delegatedFree ← addNonzero account.delegatedFree coin.denom y
    let coins ← account.coins.sub (← Coins.ofCoin coin)
    .ok { account with
      coins := coins, delegatedVesting := delegatedVesting, delegatedFree := delegatedFree }

def trackDelegation (account : BaseVestingAccount) (vesting : List Coin) (amount : Coins) :
    Outcome BaseVestingAccount :=
  amount.toList.foldlM (delegateCoin account.coins vesting) account

end BaseVestingAccount

namespace BaseGradedVestingAccount

def getVestingSchedule (account : BaseGradedVestingAccount) (denom : Denom) :
    Option VestingSchedule :=
  account.vestingSchedules.find? fun schedule => schedule.denom = denom

/-- The vested ratio of a denomination that has a schedule. -/
def vestedRatio (account : BaseGradedVestingAccount) (blockTime : Int64) (denom : Denom) :
    Option Dec :=
  (account.getVestingSchedule denom).map fun schedule => schedule.getVestedRatio blockTime

def getVestedCoins (account : BaseGradedVestingAccount) (blockTime : Int64) :
    Outcome (List Coin) :=
  vestedCoins (account.vestedRatio blockTime) account.originalVesting.toList

def getVestingCoins (account : BaseGradedVestingAccount) (blockTime : Int64) :
    Outcome (List Coin) :=
  vestingCoins (account.vestedRatio blockTime) account.originalVesting

def spendableCoins (account : BaseGradedVestingAccount) (blockTime : Int64) : Outcome Coins := do
  let vesting ← account.getVestingCoins blockTime
  account.toBaseVestingAccount.spendableCoins vesting

def trackDelegation (account : BaseGradedVestingAccount) (blockTime : Int64) (amount : Coins) :
    Outcome BaseGradedVestingAccount := do
  let vesting ← account.getVestingCoins blockTime
  let base ← account.toBaseVestingAccount.trackDelegation vesting amount
  .ok { account with toBaseVestingAccount := base }

end BaseGradedVestingAccount

namespace BaseLazyGradedVestingAccount

def getLazyVestingSchedule (account : BaseLazyGradedVestingAccount) (denom : Denom) :
    Option LazyVestingSchedule :=
  account.lazyVestingSchedules.find? fun schedule => schedule.denom = denom

/-- The vested ratio of a denomination that has a schedule. -/
def vestedRatio (account : BaseLazyGradedVestingAccount) (blockTime : Int64) (denom : Denom) :
    Option Dec :=
  (account.getLazyVestingSchedule denom).map fun schedule => schedule.getVestedRatio blockTime

def getVestedCoins (account : BaseLazyGradedVestingAccount) (blockTime : Int64) :
    Outcome (List Coin) :=
  vestedCoins (account.vestedRatio blockTime) account.originalVesting.toList

def getVestingCoins (account : BaseLazyGradedVestingAccount) (blockTime : Int64) :
    Outcome (List Coin) :=
  vestingCoins (account.vestedRatio blockTime) account.originalVesting

def spendableCoins (account : BaseLazyGradedVestingAccount) (blockTime : Int64) :
    Outcome Coins := do
  let vesting ← account.getVestingCoins blockTime
  account.toBaseVestingAccount.spendableCoins vesting

def trackDelegation (account : BaseLazyGradedVestingAccount) (blockTime : Int64)
    (amount : Coins) : Outcome BaseLazyGradedVestingAccount := do
  let vesting ← account.getVestingCoins blockTime
  let base ← account.toBaseVestingAccount.trackDelegation vesting amount
  .ok { account with toBaseVestingAccount := base }

end BaseLazyGradedVestingAccount

/-- The vested ratio in units of `Dec`; without a schedule everything has vested. -/
def vestedUnits : Option Dec → ℤ
  | some ratio => ratio.raw
  | none => Dec.precision

/-- The vested part of an amount. -/
def vestedAmount (ratio : Option Dec) (amount : ℤ) : ℤ :=
  Rounding.roundHalfEven (amount * vestedUnits ratio) Dec.precision

/-- The part of an amount that is still vesting. -/
def lockedAmount (ratio : Option Dec) (amount : ℤ) : ℤ :=
  amount - vestedAmount ratio amount

/-- A part of the whole, in units of `Dec`. -/
def IsPart (units : ℤ) : Prop := 0 ≤ units ∧ units ≤ Dec.precision

theorem vestedAmount_some (ratio : Dec) (amount : ℤ) :
    ((Dec.ofInt amount).mul ratio).roundInt = vestedAmount (some ratio) amount := by
  have exact : Rounding.roundHalfEven (amount * Dec.precision * ratio.raw) Dec.precision =
      amount * ratio.raw := by
    rw [mul_right_comm]
    exact Rounding.roundHalfEven_mul_self Dec.precision_pos _
  simp only [Dec.mul, Dec.ofInt, Dec.roundInt, Dec.chopPrecisionAndRound, vestedAmount, vestedUnits]
  rw [exact]

theorem vestedAmount_none (amount : ℤ) : vestedAmount none amount = amount :=
  Rounding.roundHalfEven_mul_self Dec.precision_pos amount

theorem vestedAmount_zero (ratio : Option Dec) : vestedAmount ratio 0 = 0 := by
  simp only [vestedAmount, zero_mul]
  decide

theorem vestedAmount_mono {fewer more : Option Dec} {amount : ℤ} (nonneg : 0 ≤ amount)
    (ordered : vestedUnits fewer ≤ vestedUnits more) :
    vestedAmount fewer amount ≤ vestedAmount more amount :=
  Rounding.roundHalfEven_mono Dec.precision_pos (mul_le_mul_of_nonneg_left ordered nonneg)

theorem vestedAmount_nonneg {ratio : Option Dec} {amount : ℤ} (nonneg : 0 ≤ amount)
    (isPart : IsPart (vestedUnits ratio)) : 0 ≤ vestedAmount ratio amount :=
  Rounding.roundHalfEven_nonneg Dec.precision_pos (mul_nonneg nonneg isPart.1)

theorem vestedAmount_le {ratio : Option Dec} {amount : ℤ} (nonneg : 0 ≤ amount)
    (isPart : IsPart (vestedUnits ratio)) : vestedAmount ratio amount ≤ amount := by
  have bounded := @vestedAmount_mono ratio none amount nonneg isPart.2
  rwa [vestedAmount_none] at bounded

/-- The vested part of one coin, as a list of coins. -/
theorem vestedCoin_spec {vestedRatio : Denom → Option Dec} {ovc : Coin}
    (valid : validateDenom ovc.denom = true)
    (nonneg : 0 ≤ vestedAmount (vestedRatio ovc.denom) ovc.amount) :
    ∃ vested, vestedCoin vestedRatio ovc = .ok vested ∧
      (∀ coin ∈ vested.toList, validateDenom coin.denom = true) ∧
      ∀ denom, amountOf vested.toList denom =
        if ovc.denom = denom then vestedAmount (vestedRatio ovc.denom) ovc.amount else 0 := by
  have made := newCoin_eq_ok.mpr ⟨valid, nonneg, rfl⟩
  simp only [vestedCoin]
  cases found : vestedRatio ovc.denom with
  | some ratio =>
      rw [found] at made
      simp only [vestedAmount_some]
      split
      · next isZero =>
          refine ⟨none, rfl, by simp, ?_⟩
          intro denom
          simp [isZero]
      · rw [made]
        refine ⟨_, rfl, by simp [valid], ?_⟩
        intro denom
        simp [amountOf_cons]
  | none =>
      rw [found, vestedAmount_none] at made
      simp only [made, vestedAmount_none]
      refine ⟨_, rfl, by simp [valid], ?_⟩
      intro denom
      simp [amountOf_cons]

theorem vestedCoins_spec {vestedRatio : Denom → Option Dec} {coins : List Coin}
    (proper : Proper coins)
    (nonneg : ∀ coin ∈ coins, 0 ≤ vestedAmount (vestedRatio coin.denom) coin.amount) :
    ∃ vested, vestedCoins vestedRatio coins = .ok vested ∧
      (∀ coin ∈ vested, validateDenom coin.denom = true) ∧
      ∀ denom, amountOf vested denom =
        vestedAmount (vestedRatio denom) (amountOf coins denom) := by
  induction coins with
  | nil => exact ⟨[], rfl, by simp, fun denom => by simp [vestedAmount_zero]⟩
  | cons ovc coins ih =>
      rcases vestedCoin_spec (proper.denoms ovc List.mem_cons_self)
        (nonneg ovc List.mem_cons_self) with ⟨vested, vestedOk, vestedDenoms, vestedAmounts⟩
      rcases ih proper.tail fun coin coinMem => nonneg coin (List.mem_cons_of_mem _ coinMem) with
        ⟨others, othersOk, othersDenoms, othersAmounts⟩
      refine ⟨vested.toList ++ others, by simp [vestedCoins, vestedOk, othersOk, bind, Except.bind],
        ?_, ?_⟩
      · intro coin coinMem
        rcases List.mem_append.mp coinMem with first | later
        · exact vestedDenoms coin first
        · exact othersDenoms coin later
      · intro denom
        rw [amountOf_append, vestedAmounts, othersAmounts, amountOf_cons]
        by_cases here : ovc.denom = denom
        · -- The denomination does not occur again, and nothing of it vests later.
          subst here
          rw [proper.amountOf_tail]
          simp [vestedAmount_zero]
        · simp [here]

theorem subtract_spec {coins : Coins} {others : List Coin}
    (valid : ∀ coin ∈ others, validateDenom coin.denom = true)
    (covers : ∀ denom, amountOf others denom ≤ coins.amountOf denom) :
    ∃ difference, subtract coins others = .ok difference ∧
      ∀ denom, amountOf difference denom = coins.amountOf denom - amountOf others denom := by
  have amounts : ∀ denom, amountOf (Coins.addList coins.toList
      (others.map fun coin => ⟨coin.denom, -coin.amount⟩)) denom =
        coins.amountOf denom - amountOf others denom := by
    intro denom
    rw [Coins.amountOf_addList, Coins.amountOf_negated]
    rfl
  have proper : Proper (Coins.addList coins.toList
      (others.map fun coin => ⟨coin.denom, -coin.amount⟩)) := by
    apply Coins.proper_addList coins.proper
    intro coin coinMem
    rcases List.mem_map.mp coinMem with ⟨original, originalMem, rfl⟩
    exact valid original originalMem
  refine ⟨_, ?_, amounts⟩
  simp only [subtract]
  apply if_pos
  intro coin coinMem
  rw [← Coins.amountOf_of_mem proper coinMem, amounts]
  exact sub_nonneg.mpr (covers coin.denom)

/-- When every ratio is a part of the whole, the vesting coins are what has not vested. -/
theorem vestingCoins_spec {vestedRatio : Denom → Option Dec} (originalVesting : Coins)
    (isPart : ∀ denom, IsPart (vestedUnits (vestedRatio denom))) :
    ∃ vesting, vestingCoins vestedRatio originalVesting = .ok vesting ∧
      ∀ denom, amountOf vesting denom =
        lockedAmount (vestedRatio denom) (originalVesting.amountOf denom) := by
  rcases @vestedCoins_spec vestedRatio originalVesting.toList originalVesting.proper
    (fun coin coinMem => vestedAmount_nonneg (originalVesting.amount_pos coinMem).le
      (isPart coin.denom)) with ⟨vested, vestedOk, vestedDenoms, vestedAmounts⟩
  have covers : ∀ denom, amountOf vested denom ≤ originalVesting.amountOf denom := by
    intro denom
    rw [vestedAmounts]
    exact vestedAmount_le (originalVesting.amountOf_nonneg denom) (isPart denom)
  rcases subtract_spec vestedDenoms covers with ⟨vesting, vestingOk, vestingAmounts⟩
  refine ⟨vesting, by simp [vestingCoins, vestedOk, vestingOk, bind, Except.bind], ?_⟩
  intro denom
  rw [vestingAmounts, vestedAmounts]
  rfl

namespace BaseVestingAccount

def balances (account : BaseVestingAccount) (denom : Denom) : Balances :=
  ⟨account.coins.amountOf denom, account.delegatedVesting.amountOf denom,
    account.delegatedFree.amountOf denom⟩

variable {account : BaseVestingAccount} {vesting : List Coin}

theorem spendableAmt_eq {coin : Coin} (held : coin ∈ account.coins.toList) :
    account.spendableAmt vesting coin =
      (account.balances coin.denom).spendable (amountOf vesting coin.denom) := by
  have amount : account.coins.amountOf coin.denom = coin.amount :=
    Coins.amountOf_of_mem account.coins.proper held
  simp only [spendableAmt, Balances.spendable, balances, amount]

theorem addSpendable_spec {spendable : Coins} {coin : Coin}
    (valid : validateDenom coin.denom = true) (nonneg : 0 ≤ account.spendableAmt vesting coin) :
    ∃ after, account.addSpendable vesting spendable coin = .ok after ∧
      ∀ denom, after.amountOf denom = spendable.amountOf denom +
        if coin.denom = denom then account.spendableAmt vesting coin else 0 := by
  have made := newCoin_eq_ok.mpr ⟨valid, nonneg, rfl⟩
  simp only [addSpendable, made, bind, Except.bind]
  split
  · next isZero => exact ⟨spendable, rfl, fun denom => by simp [isZero]⟩
  · next nonzero =>
      rcases Coins.ofCoin_isOk valid nonneg with ⟨single, singleOk⟩
      rw [singleOk]
      refine ⟨_, rfl, ?_⟩
      intro denom
      rw [Coins.amountOf_add, Coins.amountOf_ofCoin singleOk]

/-- The loop of `spendableCoins` over a part of the coins. -/
theorem addSpendable_foldlM {coins : List Coin} (proper : Proper coins)
    (nonneg : ∀ coin ∈ coins, 0 ≤ account.spendableAmt vesting coin) (spendable : Coins) :
    ∃ after, coins.foldlM (account.addSpendable vesting) spendable = .ok after ∧
      ∀ denom, after.amountOf denom = spendable.amountOf denom +
        amountOf (coins.map fun coin => ⟨coin.denom, account.spendableAmt vesting coin⟩) denom := by
  induction coins generalizing spendable with
  | nil => exact ⟨spendable, rfl, fun denom => by simp⟩
  | cons coin coins ih =>
      rcases @addSpendable_spec account vesting spendable coin
        (proper.denoms coin List.mem_cons_self) (nonneg coin List.mem_cons_self) with
        ⟨next, nextOk, nextAmounts⟩
      rcases ih proper.tail (fun other otherMem => nonneg other (List.mem_cons_of_mem _ otherMem))
        next with ⟨after, afterOk, afterAmounts⟩
      refine ⟨after, by simp [List.foldlM_cons, nextOk, afterOk, bind, Except.bind], ?_⟩
      intro denom
      rw [afterAmounts, nextAmounts, List.map_cons, amountOf_cons, add_assoc]

theorem amountOf_map_of_mem {coins : List Coin} (proper : Proper coins) (amount : Coin → ℤ)
    {coin : Coin} (coinMem : coin ∈ coins) :
    amountOf (coins.map fun other => ⟨other.denom, amount other⟩) coin.denom = amount coin := by
  induction coins with
  | nil => cases coinMem
  | cons head tail ih =>
      rw [List.map_cons, amountOf_cons]
      rcases List.mem_cons.mp coinMem with rfl | inTail
      · have absent : ∀ other ∈ tail.map fun other => (⟨other.denom, amount other⟩ : Coin),
            other.denom ≠ coin.denom := by
          intro other otherMem
          rcases List.mem_map.mp otherMem with ⟨original, originalMem, rfl⟩
          exact @Proper.denom_ne coin tail proper original originalMem
        simp [amountOf_eq_zero_of_absent absent]
      · rw [if_neg (proper.denom_ne inTail).symm, zero_add]
        exact ih proper.tail inTail

/-- A covered account can compute its spendable coins. -/
theorem spendableCoins_spec
    (covered : ∀ coin ∈ account.coins.toList,
      (account.balances coin.denom).Covered (amountOf vesting coin.denom)) :
    ∃ spendable, account.spendableCoins vesting = .ok spendable ∧
      (∀ coin ∈ account.coins.toList, spendable.amountOf coin.denom =
        (account.balances coin.denom).spendable (amountOf vesting coin.denom)) ∧
      ∀ denom, account.coins.amountOf denom = 0 → spendable.amountOf denom = 0 := by
  have nonneg : ∀ coin ∈ account.coins.toList, 0 ≤ account.spendableAmt vesting coin := by
    intro coin coinMem
    rw [spendableAmt_eq coinMem]
    exact (covered coin coinMem).spendable_nonneg (account.coins.amountOf_nonneg coin.denom)
  rcases addSpendable_foldlM account.coins.proper nonneg .empty with
    ⟨spendable, spendableOk, amounts⟩
  refine ⟨spendable, spendableOk, ?_, ?_⟩
  · intro coin coinMem
    rw [amounts, amountOf_map_of_mem account.coins.proper _ coinMem, spendableAmt_eq coinMem]
    simp
  · intro denom notHeld
    rw [amounts, Coins.amountOf_empty, zero_add]
    apply amountOf_eq_zero_of_absent
    intro coin coinMem sameDenom
    rcases List.mem_map.mp coinMem with ⟨original, originalMem, rfl⟩
    have amount := Coins.amountOf_of_mem account.coins.proper originalMem
    have positive := account.coins.amount_pos originalMem
    simp only at sameDenom
    rw [sameDenom] at amount
    simp only [Coins.amountOf] at notHeld
    omega

/-- An account that can compute its spendable coins is covered in every
denomination that it holds. -/
theorem covered_of_spendableCoins {spendable : Coins}
    (computed : account.spendableCoins vesting = .ok spendable) :
    ∀ coin ∈ account.coins.toList,
      (account.balances coin.denom).Covered (amountOf vesting coin.denom) := by
  have general : ∀ (coins : List Coin) (start : Coins),
      coins.foldlM (account.addSpendable vesting) start = .ok spendable →
        ∀ coin ∈ coins, 0 ≤ account.spendableAmt vesting coin := by
    intro coins
    induction coins with
    | nil => simp
    | cons head tail ih =>
        intro start folded
        rw [List.foldlM_cons] at folded
        rcases Outcome.bind_eq_ok.mp folded with ⟨next, nextOk, rest⟩
        rcases Outcome.bind_eq_ok.mp nextOk with ⟨made, madeOk, _⟩
        intro coin coinMem
        rcases List.mem_cons.mp coinMem with rfl | inTail
        · exact (newCoin_eq_ok.mp madeOk).2.1
        · exact ih next rest coin inTail
  intro coin coinMem
  apply Balances.Covered.of_spendable_nonneg
  rw [← spendableAmt_eq coinMem]
  exact general account.coins.toList .empty computed coin coinMem

theorem addNonzero_spec {coins : Coins} {denom : Denom} {amount : ℤ}
    (valid : validateDenom denom = true) (nonneg : 0 ≤ amount) :
    ∃ after, addNonzero coins denom amount = .ok after ∧
      ∀ other, after.amountOf other =
        coins.amountOf other + if denom = other then amount else 0 := by
  simp only [addNonzero]
  split
  · next isZero => exact ⟨coins, rfl, fun other => by simp [isZero]⟩
  · rcases Coins.ofCoin_isOk valid nonneg with ⟨single, singleOk⟩
    simp only [newCoin_eq_ok.mpr ⟨valid, nonneg, rfl⟩, singleOk, bind, Except.bind]
    refine ⟨_, rfl, ?_⟩
    intro other
    rw [Coins.amountOf_add, Coins.amountOf_ofCoin singleOk]

theorem delegateCoin_spec {bc : Coins} {coin : Coin} (valid : validateDenom coin.denom = true)
    (positive : 0 < coin.amount) (enough : coin.amount ≤ bc.amountOf coin.denom)
    (unchanged : account.coins.amountOf coin.denom = bc.amountOf coin.denom) :
    ∃ after, delegateCoin bc vesting account coin = .ok after ∧
      after.originalVesting = account.originalVesting ∧
      ∀ denom, after.balances denom =
        (account.balances denom).delegate (amountOf vesting denom) (amountOf [coin] denom) := by
  have firstNonneg : 0 ≤ (account.balances coin.denom).delegatedFirst
      (amountOf vesting coin.denom) coin.amount := by
    simp only [Balances.delegatedFirst]
    omega
  have restNonneg : 0 ≤ coin.amount - (account.balances coin.denom).delegatedFirst
      (amountOf vesting coin.denom) coin.amount := by
    simp only [Balances.delegatedFirst]
    omega
  rcases @addNonzero_spec account.delegatedVesting _ _ valid firstNonneg with
    ⟨delegatedVesting, vestingOk, vestingAmounts⟩
  rcases @addNonzero_spec account.delegatedFree _ _ valid restNonneg with
    ⟨delegatedFree, freeOk, freeAmounts⟩
  rcases Coins.ofCoin_isOk valid positive.le with ⟨single, singleOk⟩
  have singleAmounts := Coins.amountOf_ofCoin singleOk
  have covers : ∀ denom, single.amountOf denom ≤ account.coins.amountOf denom := by
    intro denom
    rw [singleAmounts]
    split
    · next here =>
        rw [← here, unchanged]
        exact enough
    · exact account.coins.amountOf_nonneg denom
  rcases Coins.sub_isOk covers with ⟨coins, coinsOk⟩
  simp only [Balances.delegatedFirst, balances] at vestingOk freeOk
  simp only [delegateCoin]
  rw [if_neg (by omega)]
  simp only [vestingOk, freeOk, singleOk, coinsOk, bind, Except.bind]
  refine ⟨_, rfl, rfl, ?_⟩
  intro denom
  simp only [balances]
  rw [Coins.amountOf_of_sub coinsOk, vestingAmounts, freeAmounts, singleAmounts]
  by_cases here : coin.denom = denom
  · subst here
    simp [Balances.delegate, balances, amountOf_cons]
  · simp [here, amountOf_cons, Balances.delegate_zero]

/-- The loop of `trackDelegation` over a part of the coins. The denominations it
has not reached are as they were before the first one. -/
theorem delegateCoin_foldlM {bc : Coins} {items : List Coin} (proper : Proper items)
    (bounded : ∀ coin ∈ items, 0 < coin.amount ∧ coin.amount ≤ bc.amountOf coin.denom)
    (unchanged : ∀ coin ∈ items, account.coins.amountOf coin.denom = bc.amountOf coin.denom) :
    ∃ after, items.foldlM (delegateCoin bc vesting) account = .ok after ∧
      after.originalVesting = account.originalVesting ∧
      ∀ denom, after.balances denom =
        (account.balances denom).delegate (amountOf vesting denom) (amountOf items denom) := by
  induction items generalizing account with
  | nil =>
      refine ⟨account, rfl, rfl, ?_⟩
      intro denom
      rw [amountOf_nil, Balances.delegate_zero]
  | cons coin items ih =>
      rcases @delegateCoin_spec account vesting bc coin (proper.denoms coin List.mem_cons_self)
        (bounded coin List.mem_cons_self).1 (bounded coin List.mem_cons_self).2
        (unchanged coin List.mem_cons_self) with ⟨next, nextOk, nextTerms, nextBalances⟩
      have elsewhere : ∀ denom, denom ≠ coin.denom →
          next.balances denom = account.balances denom := by
        intro denom different
        rw [nextBalances, amountOf_cons, if_neg different.symm]
        exact Balances.delegate_zero _ _
      have nextUnchanged : ∀ other ∈ items,
          next.coins.amountOf other.denom = bc.amountOf other.denom := by
        intro other otherMem
        have same := congrArg Balances.held (elsewhere _ (proper.denom_ne otherMem))
        exact same.trans (unchanged other (List.mem_cons_of_mem _ otherMem))
      rcases ih proper.tail (fun other otherMem => bounded other (List.mem_cons_of_mem _ otherMem))
        nextUnchanged with ⟨after, afterOk, afterTerms, afterBalances⟩
      refine ⟨after, ?_, afterTerms.trans nextTerms, ?_⟩
      · simp only [List.foldlM_cons, nextOk, bind, Except.bind]
        exact afterOk
      · intro denom
        rw [afterBalances, amountOf_cons]
        by_cases here : coin.denom = denom
        · subst here
          rw [proper.amountOf_tail, Balances.delegate_zero, nextBalances]
          simp [amountOf_cons]
        · rw [if_neg here, zero_add, elsewhere denom (Ne.symm here)]

/-- A delegation of what the account holds never fails. In each denomination it
is a delegation out of the amount that is still vesting. -/
theorem trackDelegation_spec {amount : Coins}
    (enough : ∀ denom, amount.amountOf denom ≤ account.coins.amountOf denom) :
    ∃ after, account.trackDelegation vesting amount = .ok after ∧
      after.originalVesting = account.originalVesting ∧
      ∀ denom, after.balances denom =
        (account.balances denom).delegate (amountOf vesting denom) (amount.amountOf denom) := by
  apply delegateCoin_foldlM amount.proper
  · intro coin coinMem
    have held := enough coin.denom
    rw [Coins.amountOf, Coins.amountOf_of_mem amount.proper coinMem] at held
    exact ⟨amount.amount_pos coinMem, held⟩
  · exact fun _ _ => rfl

/-- A delegation that goes through is covered by the coins of the account. -/
theorem enough_of_trackDelegation {amount : Coins} {after : BaseVestingAccount}
    (delegated : account.trackDelegation vesting amount = .ok after) (denom : Denom) :
    amount.amountOf denom ≤ account.coins.amountOf denom := by
  have general : ∀ (bc : Coins) (items : List Coin) (current : BaseVestingAccount),
      items.foldlM (delegateCoin bc vesting) current = .ok after →
        ∀ coin ∈ items, coin.amount ≤ bc.amountOf coin.denom := by
    intro bc items
    induction items with
    | nil => simp
    | cons head tail ih =>
        intro current folded
        rw [List.foldlM_cons] at folded
        rcases Outcome.bind_eq_ok.mp folded with ⟨next, nextOk, rest⟩
        intro coin coinMem
        rcases List.mem_cons.mp coinMem with rfl | inTail
        · simp only [delegateCoin] at nextOk
          split at nextOk
          · cases nextOk
          · omega
        · exact ih next rest coin inTail
  exact amount.amountOf_le_of_forall (account.coins.amountOf_nonneg denom)
    (fun coin coinMem => general account.coins amount.toList account delegated coin coinMem)

end BaseVestingAccount

/-- The vested units at a time of tranches that may be missing. -/
def releasedUnits (tranches : Option (List Ramp.Tranche)) (blockTime : Int64) : ℤ :=
  match tranches with
  | some tranches => Ramp.released tranches blockTime.toInt
  | none => Dec.precision

theorem releasedUnits_isPart {tranches : Option (List Ramp.Tranche)}
    (whole : ∀ found, tranches = some found → Whole found) (blockTime : Int64) :
    IsPart (releasedUnits tranches blockTime) := by
  cases tranches with
  | none => exact ⟨Dec.precision_pos.le, le_rfl⟩
  | some found =>
      have foundWhole := whole found rfl
      refine ⟨Ramp.released_nonneg foundWhole.sound _, ?_⟩
      rw [← foundWhole.total]
      exact Ramp.released_le_total foundWhole.sound _

theorem releasedUnits_mono {tranches : Option (List Ramp.Tranche)}
    (whole : ∀ found, tranches = some found → Whole found) {earlier later : Int64}
    (ordered : earlier ≤ later) :
    releasedUnits tranches earlier ≤ releasedUnits tranches later := by
  cases tranches with
  | none => exact le_rfl
  | some found =>
      exact Ramp.released_mono (whole found rfl).sound (Int64.le_iff_toInt_le.mp ordered)

namespace BaseGradedVestingAccount

variable {account : BaseGradedVestingAccount}

def SchedulesValid (account : BaseGradedVestingAccount) : Prop :=
  ∀ schedule ∈ account.vestingSchedules, schedule.isValid = true

/-- The tranches of the schedule of a denomination. -/
def tranches (account : BaseGradedVestingAccount) (denom : Denom) : Option (List Ramp.Tranche) :=
  (account.getVestingSchedule denom).map fun schedule => schedule.schedules.map Schedule.tranche

theorem SchedulesValid.whole (valid : account.SchedulesValid) (denom : Denom) :
    ∀ found, account.tranches denom = some found → Whole found := by
  intro found isFound
  rcases Option.map_eq_some_iff.mp isFound with ⟨schedule, lookup, rfl⟩
  exact VestingSchedule.whole_of_isValid (valid schedule (List.mem_of_find?_eq_some lookup))

theorem vestedUnits_vestedRatio (blockTime : Int64) (denom : Denom) :
    vestedUnits (account.vestedRatio blockTime denom) =
      releasedUnits (account.tranches denom) blockTime := by
  simp only [vestedRatio, tranches]
  cases account.getVestingSchedule denom with
  | none => rfl
  | some schedule => exact schedule.getVestedRatio_raw blockTime

/-- With valid schedules the vested coins can be computed. -/
theorem SchedulesValid.getVestedCoins_spec (valid : account.SchedulesValid)
    (blockTime : Int64) :
    ∃ vested, account.getVestedCoins blockTime = .ok vested ∧
      ∀ denom, amountOf vested denom =
        vestedAmount (account.vestedRatio blockTime denom)
          (account.originalVesting.amountOf denom) := by
  have isPart : ∀ denom, IsPart (vestedUnits (account.vestedRatio blockTime denom)) := by
    intro denom
    rw [vestedUnits_vestedRatio]
    exact releasedUnits_isPart (valid.whole denom) blockTime
  rcases @vestedCoins_spec (account.vestedRatio blockTime) account.originalVesting.toList
    account.originalVesting.proper (fun coin coinMem => vestedAmount_nonneg
      (account.originalVesting.amount_pos coinMem).le (isPart coin.denom)) with
    ⟨vested, computed, _, amounts⟩
  exact ⟨vested, computed, amounts⟩

end BaseGradedVestingAccount

namespace BaseLazyGradedVestingAccount

variable {account : BaseLazyGradedVestingAccount}

def SchedulesValid (account : BaseLazyGradedVestingAccount) : Prop :=
  ∀ schedule ∈ account.lazyVestingSchedules, schedule.isValid = true

/-- The tranches of the schedule of a denomination. -/
def tranches (account : BaseLazyGradedVestingAccount) (denom : Denom) :
    Option (List Ramp.Tranche) :=
  (account.getLazyVestingSchedule denom).map fun schedule =>
    schedule.lazySchedules.map LazySchedule.tranche

theorem SchedulesValid.whole (valid : account.SchedulesValid) (denom : Denom) :
    ∀ found, account.tranches denom = some found → Whole found := by
  intro found isFound
  rcases Option.map_eq_some_iff.mp isFound with ⟨schedule, lookup, rfl⟩
  exact LazyVestingSchedule.whole_of_isValid (valid schedule (List.mem_of_find?_eq_some lookup))

theorem SchedulesValid.vestedUnits_vestedRatio (valid : account.SchedulesValid)
    (blockTime : Int64) (denom : Denom) :
    vestedUnits (account.vestedRatio blockTime denom) =
      releasedUnits (account.tranches denom) blockTime := by
  simp only [vestedRatio, tranches]
  cases lookup : account.getLazyVestingSchedule denom with
  | none => rfl
  | some schedule =>
      exact LazyVestingSchedule.getVestedRatio_raw
        (valid schedule (List.mem_of_find?_eq_some lookup)) blockTime

/-- With valid schedules the vested coins can be computed. -/
theorem SchedulesValid.getVestedCoins_spec (valid : account.SchedulesValid)
    (blockTime : Int64) :
    ∃ vested, account.getVestedCoins blockTime = .ok vested ∧
      ∀ denom, amountOf vested denom =
        vestedAmount (account.vestedRatio blockTime denom)
          (account.originalVesting.amountOf denom) := by
  have isPart : ∀ denom, IsPart (vestedUnits (account.vestedRatio blockTime denom)) := by
    intro denom
    rw [valid.vestedUnits_vestedRatio]
    exact releasedUnits_isPart (valid.whole denom) blockTime
  rcases @vestedCoins_spec (account.vestedRatio blockTime) account.originalVesting.toList
    account.originalVesting.proper (fun coin coinMem => vestedAmount_nonneg
      (account.originalVesting.amount_pos coinMem).le (isPart coin.denom)) with
    ⟨vested, computed, _, amounts⟩
  exact ⟨vested, computed, amounts⟩

end BaseLazyGradedVestingAccount

/-- The coins of the sample accounts. -/
theorem hundredLuna_isValid : isValid [⟨microLunaDenom, 100000000⟩] = true := by
  decide

end Vesting

end TerraCore
