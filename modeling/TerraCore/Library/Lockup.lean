import Mathlib

/-!
# Balances under a lock

An account holds an amount of which a part may be locked. It can delegate what
it holds, and the locked part is delegated first. The account is covered when
what it holds, together with what it has delegated out of the locked part, is
at least the locked amount. Every operation keeps an account covered, as does
any decrease of the locked amount.
-/

namespace Lockup

/-- What an account holds, and what it has delegated out of the locked part and
out of the rest. -/
@[ext]
structure Balances where
  held : ℤ
  delegatedLocked : ℤ
  delegatedFree : ℤ
deriving DecidableEq

namespace Balances

/-- The locked amount is still there, held or delegated. -/
def Covered (balances : Balances) (locked : ℤ) : Prop :=
  locked ≤ balances.held + balances.delegatedLocked

/-- What may be spent. -/
def spendable (balances : Balances) (locked : ℤ) : ℤ :=
  min (balances.held + balances.delegatedLocked - locked) balances.held

def receive (balances : Balances) (amount : ℤ) : Balances :=
  { balances with held := balances.held + amount }

def spend (balances : Balances) (amount : ℤ) : Balances :=
  { balances with held := balances.held - amount }

/-- The part of a delegation that is taken out of the locked amount. -/
def delegatedFirst (balances : Balances) (locked amount : ℤ) : ℤ :=
  min (max (locked - balances.delegatedLocked) 0) amount

def delegate (balances : Balances) (locked amount : ℤ) : Balances where
  held := balances.held - amount
  delegatedLocked := balances.delegatedLocked + balances.delegatedFirst locked amount
  delegatedFree := balances.delegatedFree + (amount - balances.delegatedFirst locked amount)

/-- What returns is first taken off the free delegations. -/
def undelegate (balances : Balances) (amount : ℤ) : Balances where
  held := balances.held + amount
  delegatedLocked := balances.delegatedLocked -
    min (amount - min balances.delegatedFree amount) balances.delegatedLocked
  delegatedFree := balances.delegatedFree - min balances.delegatedFree amount

variable {balances : Balances} {locked amount : ℤ}

theorem Covered.spendable_nonneg (covered : balances.Covered locked) (held : 0 ≤ balances.held) :
    0 ≤ balances.spendable locked := by
  simp only [Covered] at covered
  simp only [spendable]
  omega

theorem Covered.of_spendable_nonneg (nonneg : 0 ≤ balances.spendable locked) :
    balances.Covered locked := by
  simp only [spendable] at nonneg
  simp only [Covered]
  omega

theorem Covered.mono {less : ℤ} (covered : balances.Covered locked) (lower : less ≤ locked) :
    balances.Covered less :=
  le_trans lower covered

theorem Covered.receive (covered : balances.Covered locked) (nonneg : 0 ≤ amount) :
    (balances.receive amount).Covered locked := by
  simp only [Covered, Balances.receive] at covered ⊢
  omega

theorem Covered.spend (allowed : amount ≤ balances.spendable locked) :
    (balances.spend amount).Covered locked := by
  simp only [spendable] at allowed
  simp only [Covered, Balances.spend]
  omega

/-- Either the whole delegation comes out of the locked amount, and the sum
stays, or afterwards the whole locked amount is delegated. -/
theorem Covered.delegate (covered : balances.Covered locked) (enough : amount ≤ balances.held) :
    (balances.delegate locked amount).Covered locked := by
  simp only [Covered, Balances.delegate, delegatedFirst] at covered ⊢
  omega

theorem Covered.undelegate (covered : balances.Covered locked) (nonneg : 0 ≤ amount)
    (free : 0 ≤ balances.delegatedFree) : (balances.undelegate amount).Covered locked := by
  simp only [Covered, Balances.undelegate] at covered ⊢
  have firstNonneg : 0 ≤ min balances.delegatedFree amount := le_min free nonneg
  omega

theorem delegate_zero (balances : Balances) (locked : ℤ) : balances.delegate locked 0 = balances := by
  have nothing : balances.delegatedFirst locked 0 = 0 := by
    simp only [delegatedFirst]
    omega
  simp [Balances.delegate, nothing]

/-- A delegation moves exactly its amount. -/
theorem delegate_moves (balances : Balances) (locked amount : ℤ) :
    (balances.delegate locked amount).held = balances.held - amount ∧
      (balances.delegate locked amount).delegatedLocked +
          (balances.delegate locked amount).delegatedFree =
        balances.delegatedLocked + balances.delegatedFree + amount := by
  refine ⟨rfl, ?_⟩
  simp only [Balances.delegate]
  ring

end Balances

end Lockup
