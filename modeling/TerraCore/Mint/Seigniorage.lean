import TerraCore.Mint.History

/-!
# Seigniorage by epoch

The seigniorage of an epoch is the Luna issued since the end of the epoch
before it. While an epoch is running, its last day is replaced by today before
the end of the previous epoch is derived from it, so that the count starts seven
days before today and reaches into the epoch before.
-/

namespace TerraCore.Mint

open Transition

variable {L : Type} [Sdk L]

/-- The Luna issued between the end of the previous epoch and the end of the
epoch, or today if that comes first; `issuance` is the issuance at the end of
each day. -/
def ownSeigniorage (issuance : ℤ → ℕ) (today epoch : ℤ) : ℤ :=
  max 0 ((issuance (min (7 * epoch + 6) today) : ℤ) - issuance (max (7 * epoch - 1) 0))

/-- The day from which the query counts makes no difference to the result. -/
def CountsOwnEpoch (issuance : ℤ → ℕ) (today epoch : ℤ) : Prop :=
  epoch = 0 ∨ 7 * epoch + 6 ≤ today ∨ issuance (today - 7) = issuance (7 * epoch - 1) ∨
    (issuance today ≤ issuance (today - 7) ∧ issuance today ≤ issuance (7 * epoch - 1))

omit [Sdk L] in
/-- An epoch that has begun has had its first day. -/
theorem firstDay_le_today {ctx : Context L} {epoch : ℕ} (begun : (epoch : ℤ) ≤ ctx.getEpoch) :
    7 * (epoch : ℤ) ≤ ctx.today := by
  have days : blocksPerEpoch = blocksPerDay * 7 := rfl
  simp only [Context.getEpoch, Context.today, days, ← Nat.div_div_eq_div_mul] at *
  omega

theorem peekEpochSeigniorage_of_days (ctx : Context L) (epoch : ℤ) :
    (peekEpochSeigniorage ctx epoch).1 =
      max 0 ((issuanceAt ctx microLunaDenom (min (7 * epoch + 6) ctx.today) : ℤ) -
        issuanceAt ctx microLunaDenom (max (min (7 * epoch + 6) ctx.today - 7) 0)) := by
  have days : ((blocksPerEpoch / blocksPerDay : ℕ) : ℤ) = 7 := rfl
  have lastDay : (epoch + 1) * 7 - 1 = 7 * epoch + 6 := by ring
  simp only [peekEpochSeigniorage_fst, days, lastDay]

/-- Two differences from the same issuance agree once negative ones count as zero. -/
theorem clamped_eq_iff (issued first second : ℕ) :
    max 0 ((issued : ℤ) - first) = max 0 ((issued : ℤ) - second) ↔
      first = second ∨ (issued ≤ first ∧ issued ≤ second) := by
  omega

/-- The seigniorage of an epoch is its own exactly when the epoch is the first
one or is over, when the two days from which it can be counted have the same
issuance, or when Luna was lost since both. -/
theorem seigniorage_own_iff {genesis : ℕ} {start : Context L}
    (begun : Begun microLunaDenom genesis start) {calls : List Call} {journal : Journal L}
    (reached : Reaches (call microLunaDenom) ⟨start, []⟩ calls journal) {epoch : ℕ}
    (current : (epoch : ℤ) ≤ journal.ctx.getEpoch) :
    (peekEpochSeigniorage journal.ctx epoch).1 =
        ownSeigniorage (inEffect genesis journal.entries) journal.ctx.today epoch ↔
      CountsOwnEpoch (inEffect genesis journal.entries) journal.ctx.today epoch := by
  have follows := follows_replay reached begun.follows
  have issuance (day : ℤ) (nonneg : 0 ≤ day) :
      issuanceAt journal.ctx microLunaDenom day = inEffect genesis journal.entries day := by
    rw [follows.entries]
    exact follows.issuance day nonneg
  have firstDay := firstDay_le_today current
  rw [peekEpochSeigniorage_of_days, issuance _ (by omega), issuance _ (by omega)]
  simp only [ownSeigniorage, CountsOwnEpoch]
  by_cases counted : (epoch : ℤ) = 0 ∨ 7 * (epoch : ℤ) + 6 ≤ journal.ctx.today
  · -- The epoch is not cut short, or both counts start on day zero.
    have sameDay : max (min (7 * (epoch : ℤ) + 6) journal.ctx.today - 7) 0 =
        max (7 * (epoch : ℤ) - 1) 0 := by omega
    rw [sameDay]
    exact iff_of_true rfl (counted.imp_right Or.inl)
  · rcases not_or.mp counted with ⟨notFirst, running⟩
    have lastDay : min (7 * (epoch : ℤ) + 6) journal.ctx.today = journal.ctx.today := by omega
    have countedFrom : max (journal.ctx.today - 7) 0 = journal.ctx.today - 7 := by omega
    have ownFrom : max (7 * (epoch : ℤ) - 1) 0 = 7 * (epoch : ℤ) - 1 := by omega
    rw [lastDay, countedFrom, ownFrom, clamped_eq_iff]
    simp only [notFirst, running, false_or]

/-- Twenty Luna at genesis. -/
def lunaAccounts : Context Book :=
  Context.genesis (Book.empty.setAmounts [1] fun denom => if denom = microLunaDenom then 20 else 0)
    (Staking.single (List.replicate 20 1) 10 single_length)

theorem lunaAccounts_begun :
    Begun microLunaDenom 20 (getIssuance lunaAccounts microLunaDenom 0).2 := by
  have noSnapshots : ∀ key : Denom × ℤ, lunaAccounts.mint.issuance[key]? = none :=
    fun key => Store.get_empty key
  have dated : Dated lunaAccounts := by
    intro key issuance present
    rw [noSnapshots key] at present
    cases present
  exact begun_of_first_read dated fun day _ => noSnapshots (microLunaDenom, day)

/-- Five Luna are issued on the third day of the first epoch; the second epoch
is two days old. -/
def earlyIssue : List Call :=
  [.advance (2 * blocksPerDay), .change 5, .advance (6 * blocksPerDay)]

/-- The five Luna belong to the first epoch; the query counts them in the second as well. -/
theorem earlyIssue_performed :
    (perform (call microLunaDenom) ⟨(getIssuance lunaAccounts microLunaDenom 0).2, []⟩
        earlyIssue).map (fun journal =>
          (journal.ctx.getEpoch, (peekEpochSeigniorage journal.ctx 0).1,
            (peekEpochSeigniorage journal.ctx 1).1,
            ownSeigniorage (inEffect 20 journal.entries) journal.ctx.today 1)) =
      some (1, 5, 5, 0) := by
  decide +kernel

theorem earlyIssue_reached :
    ∃ journal : Journal Book,
      Reaches (call microLunaDenom) ⟨(getIssuance lunaAccounts microLunaDenom 0).2, []⟩
          earlyIssue journal ∧
        journal.ctx.getEpoch = 1 ∧ (peekEpochSeigniorage journal.ctx 0).1 = 5 ∧
        (peekEpochSeigniorage journal.ctx 1).1 = 5 ∧
        ownSeigniorage (inEffect 20 journal.entries) journal.ctx.today 1 = 0 := by
  rcases Option.map_eq_some_iff.mp earlyIssue_performed with ⟨journal, performed, values⟩
  simp only [Prod.mk.injEq] at values
  exact ⟨journal, reaches_of_perform performed, values⟩

theorem seigniorage_own_iff_earlyIssue :
    ∃ journal : Journal Book,
      Reaches (call microLunaDenom) ⟨(getIssuance lunaAccounts microLunaDenom 0).2, []⟩
          earlyIssue journal ∧
        (peekEpochSeigniorage journal.ctx (0 : ℕ)).1 =
          ownSeigniorage (inEffect 20 journal.entries) journal.ctx.today (0 : ℕ) := by
  rcases earlyIssue_reached with ⟨journal, reached, epoch, -⟩
  refine ⟨journal, reached, ?_⟩
  exact (seigniorage_own_iff lunaAccounts_begun reached (by simp [epoch])).mpr (Or.inl rfl)

theorem seigniorage_counted_twice :
    Begun microLunaDenom 20 (getIssuance lunaAccounts microLunaDenom 0).2 ∧
      ∃ journal : Journal Book,
        Reaches (call microLunaDenom) ⟨(getIssuance lunaAccounts microLunaDenom 0).2, []⟩
            earlyIssue journal ∧
          ((1 : ℕ) : ℤ) ≤ journal.ctx.getEpoch ∧
          (peekEpochSeigniorage journal.ctx (1 : ℕ)).1 ≠
            ownSeigniorage (inEffect 20 journal.entries) journal.ctx.today (1 : ℕ) := by
  rcases earlyIssue_reached with ⟨journal, reached, epoch, -, peeked, own⟩
  refine ⟨lunaAccounts_begun, journal, reached, by simp [epoch], ?_⟩
  simp only [Nat.cast_one, peeked, own]
  decide

end TerraCore.Mint
