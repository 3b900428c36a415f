import TerraCore.Genesis
import TerraCore.Market.Keeper

/-!
# Treasury keeper

Tax rates and reward weights are kept by epoch. A missing tax rate is copied
from the epoch before, down to the default of the first epoch. A missing
reward weight is copied from the latest epoch that has one; the default only
stands in for the first epoch itself, so that without any stored weight a later
epoch reads an uninitialised decimal.
-/

namespace TerraCore.Treasury

variable {L : Type}

/-- The loop of `GetRewardWeight`, from an epoch downwards. -/
def searchRewardWeight (weights : Store ℤ Dec) (epoch : ℤ) : ℕ → ℤ → Option Dec
  | 0, _ => none
  | remaining + 1, e =>
      match weights[e]? with
      | some weight => some weight
      | none =>
          if epoch ≤ 0 then some genesisRewardWeight
          else searchRewardWeight weights epoch remaining (e - 1)

/-- `Keeper.GetRewardWeight`. The result is nothing when the decimal that is
returned was never set; it is stored as zero. -/
def getRewardWeight (ctx : Context L) (epoch : ℤ) : Option Dec × Context L :=
  match ctx.treasury.rewardWeights[epoch]? with
  | some weight => (some weight, ctx)
  | none =>
      let weight := searchRewardWeight ctx.treasury.rewardWeights epoch (epoch + 1).toNat epoch
      (weight, { ctx with
        treasury := { ctx.treasury with
          rewardWeights := ctx.treasury.rewardWeights.insert epoch (weight.getD Dec.zero) } })

/-- The recursion of `GetTaxRate`. The first number is the epoch, when it is positive. -/
def readTaxRate : ℕ → ℤ → Store ℤ Dec → Dec × Store ℤ Dec
  | 0, epoch, rates =>
      match rates[epoch]? with
      | some rate => (rate, rates)
      | none => (genesisTaxRate, rates.insert epoch genesisTaxRate)
  | earlier + 1, epoch, rates =>
      match rates[epoch]? with
      | some rate => (rate, rates)
      | none =>
          let (rate, filled) := readTaxRate earlier (epoch - 1) rates
          (rate, filled.insert epoch rate)

def getTaxRate (ctx : Context L) (epoch : ℤ) : Dec × Context L :=
  let (rate, taxRates) := readTaxRate epoch.toNat epoch ctx.treasury.taxRates
  (rate, { ctx with treasury := { ctx.treasury with taxRates } })

def setTaxCap (ctx : Context L) (denom : Denom) (cap : ℤ) : Context L :=
  { ctx with
    treasury := { ctx.treasury with taxCaps := ctx.treasury.taxCaps.insert denom cap } }

def peekTaxProceeds (ctx : Context L) (epoch : ℤ) : Coins :=
  (ctx.treasury.taxProceeds[epoch]?).getD Coins.empty

def recordTaxProceeds (ctx : Context L) (delta : Coins) : Context L :=
  let epoch := ctx.getEpoch
  { ctx with
    treasury := { ctx.treasury with
      taxProceeds := ctx.treasury.taxProceeds.insert epoch
        ((peekTaxProceeds ctx epoch).add delta) } }

section TaxCap

variable [Sdk L]

/-- The cap in the reference denomination at the current rates, or the same
number when it cannot be converted. -/
def requestedCap (ctx : Context L) (denom : Denom) : Outcome (Coin × Context L) :=
  let referenceCap := ctx.treasury.params.taxPolicy.cap
  match Market.getSwapCoin ctx referenceCap denom true with
  | .ok (reqCap, _, after) => .ok (reqCap, after)
  | .error (.error _) => do
      let reqCap ← newCoin denom referenceCap.amount
      pure (reqCap, ctx)
  | .error (.panic panic) => .error (.panic panic)

def getTaxCap (ctx : Context L) (denom : Denom) : Outcome (ℤ × Context L) :=
  match ctx.treasury.taxCaps[denom]? with
  | some taxCap => .ok (taxCap, ctx)
  | none => do
      let (reqCap, ctx) ← requestedCap ctx denom
      pure (reqCap.amount, setTaxCap ctx denom reqCap.amount)

end TaxCap

theorem getRewardWeight_frame (ctx : Context L) (epoch : ℤ) :
    ∃ rewardWeights, (getRewardWeight ctx epoch).2 =
      { ctx with treasury := { ctx.treasury with rewardWeights } } := by
  simp only [getRewardWeight]
  split
  · exact ⟨_, rfl⟩
  · exact ⟨_, rfl⟩

section Accounting

variable [Sdk L]

open Mint

theorem changes_of_treasury (ctx : Context L) (treasury : TreasuryStore) :
    Changes 0 0 0 ctx { ctx with treasury } :=
  Changes.of_same rfl rfl rfl rfl rfl

theorem getRewardWeight_changes (ctx : Context L) (epoch : ℤ) :
    Changes 0 0 0 ctx (getRewardWeight ctx epoch).2 := by
  unfold getRewardWeight
  split
  · exact Changes.refl ctx
  · exact changes_of_treasury ctx _

/-- Computing the cap in the reference denomination changes nothing. -/
theorem requestedCap_eq_ok {before after : Context L} {denom : Denom} {reqCap : Coin}
    (done : requestedCap before denom = .ok (reqCap, after)) : after = before := by
  simp only [requestedCap] at done
  split at done
  · next quoted =>
      cases done
      exact Market.getSwapCoin_internal quoted
  · rcases Outcome.bind_eq_ok.mp done with ⟨_, -, done⟩
    cases done
    rfl
  · cases done

/-- `GetTaxCap` stores a missing cap. -/
theorem getTaxCap_frame {before after : Context L} {denom : Denom} {taxCap : ℤ}
    (done : getTaxCap before denom = .ok (taxCap, after)) :
    ∃ taxCaps, after = { before with treasury := { before.treasury with taxCaps } } := by
  simp only [getTaxCap] at done
  split at done
  · cases done
    exact ⟨_, rfl⟩
  · rcases Outcome.bind_eq_ok.mp done with ⟨⟨reqCap, middle⟩, requested, done⟩
    cases done
    rw [requestedCap_eq_ok requested]
    exact ⟨_, rfl⟩

/-- The weight stored for the first epoch is found from every later one. -/
theorem searchRewardWeight_isSome {weights : Store ℤ Dec} {first : Dec}
    (stored : weights[(0 : ℤ)]? = some first) (epoch : ℤ) {e : ℤ} (nonneg : 0 ≤ e) :
    ∃ weight, searchRewardWeight weights epoch (e + 1).toNat e = some weight := by
  rcases Int.eq_ofNat_of_zero_le nonneg with ⟨steps, rfl⟩
  have count : ((steps : ℤ) + 1).toNat = steps + 1 := by omega
  rw [count]
  induction steps with
  | zero =>
      refine ⟨first, ?_⟩
      simp only [searchRewardWeight, Nat.cast_zero, stored]
  | succ steps ih =>
      rcases ih (by omega) (by omega) with ⟨weight, found⟩
      unfold searchRewardWeight
      split
      · exact ⟨_, rfl⟩
      · split
        · exact ⟨_, rfl⟩
        · have previous : ((steps + 1 : ℕ) : ℤ) - 1 = steps := by omega
          rw [previous]
          exact ⟨weight, found⟩

omit [Sdk L] in
theorem getRewardWeight_isSome {ctx : Context L} {first : Dec}
    (stored : ctx.treasury.rewardWeights[(0 : ℤ)]? = some first) {epoch : ℤ}
    (nonneg : 0 ≤ epoch) : ∃ weight, (getRewardWeight ctx epoch).1 = some weight := by
  unfold getRewardWeight
  split
  · exact ⟨_, rfl⟩
  · exact searchRewardWeight_isSome stored epoch nonneg

end Accounting

end TerraCore.Treasury
