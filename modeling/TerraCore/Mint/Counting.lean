import TerraCore.Mint.Accounting

/-!
# The issuance of one denomination

`Counted` says by how much a call moves the issuance of a single denomination
today, while the issuance of past days stays. It holds in every state, whether
or not snapshots are dated in the future. A denomination that a call touches
needs its day-zero snapshot; one that it does not touch is unchanged even
without a snapshot, because the accounts hold as much of it as before.
-/

namespace TerraCore.Mint

variable {L : Type} [Sdk L]

structure Counted (denom : Denom) (delta : ℤ) (before after : Context L) : Prop where
  height : after.height = before.height
  snapshot : HasSnapshot before denom → HasSnapshot after denom
  today : (issuanceAt after denom before.today : ℤ) = issuanceAt before denom before.today + delta
  past : ∀ day : ℤ, 0 ≤ day → day < before.today →
    issuanceAt after denom day = issuanceAt before denom day

namespace Counted

variable {denom : Denom} {delta more : ℤ} {before middle after : Context L}

theorem sameDay (counted : Counted denom delta before after) : after.today = before.today := by
  simp only [Context.today]
  rw [counted.height]

theorem trans (first : Counted denom delta before middle)
    (second : Counted denom more middle after) : Counted denom (delta + more) before after where
  height := second.height.trans first.height
  snapshot had := second.snapshot (first.snapshot had)
  today := by
    have later := second.today
    rw [first.sameDay, first.today, add_assoc] at later
    exact later
  past day nonneg isPast := by
    rw [second.past day nonneg (first.sameDay.symm ▸ isPast), first.past day nonneg isPast]

/-- The issuance is unchanged on every day up to the current one. -/
theorem of_same (height : after.height = before.height)
    (snapshot : HasSnapshot before denom → HasSnapshot after denom)
    (same : ∀ day : ℤ, 0 ≤ day → issuanceAt after denom day = issuanceAt before denom day) :
    Counted denom 0 before after where
  height := height
  snapshot := snapshot
  today := by rw [same _ (today_nonneg before), add_zero]
  past day nonneg _ := same day nonneg

theorem refl (ctx : Context L) : Counted denom 0 ctx ctx :=
  of_same rfl id fun _ _ => rfl

/-- Coins move, and the accounts hold as much of the denomination as before or
are not asked any more. -/
theorem of_mint_eq (height : after.height = before.height) (sameMint : after.mint = before.mint)
    (unread : HasSnapshot before denom ∨
      supply after.ledger denom = supply before.ledger denom) :
    Counted denom 0 before after := by
  refine of_same height ?_ ?_
  · rintro ⟨genesis, present⟩
    exact ⟨genesis, by rw [sameMint]; exact present⟩
  · intro day nonneg
    rcases unread with snapshot | sameSupply
    · exact issuanceAt_of_mint_eq snapshot sameMint nonneg
    · rw [issuanceAt_eq, issuanceAt_eq, sameMint, sameSupply]

end Counted

theorem getIssuance_counted (ctx : Context L) (denom other : Denom) (day : ℤ) :
    Counted denom 0 ctx (getIssuance ctx other day).2 := by
  refine Counted.of_same rfl ?_ ?_
  · intro snapshot
    exact snapshot.getIssuance other day
  · intro otherDay _
    exact issuanceAt_getIssuance ctx other denom day otherDay

theorem setIssuance_counted (ctx : Context L) (denom other : Denom) (issuance : ℕ) :
    Counted other (only denom (issuance - issuanceAt ctx denom ctx.today) other) ctx
      (setIssuance ctx denom ctx.today issuance) where
  height := rfl
  snapshot := (setIssuance_changes ctx denom issuance).snapshot other
  today := by
    simp only [only]
    by_cases here : denom = other
    · subst here
      rw [issuanceAt_setIssuance_today, if_pos rfl]
      ring
    · rw [if_neg here, add_zero, issuanceAt_setIssuance_of_ne ctx _ _ here]
  past day _ isPast := by
    by_cases here : denom = other
    · subst here
      exact issuanceAt_setIssuance_of_lt ctx denom issuance isPast
    · exact issuanceAt_setIssuance_of_ne ctx _ _ here day

/-- A change is added to the issuance of its denomination, once that has a snapshot. -/
theorem changeIssuance_counted {before after : Context L} {denom : Denom} {delta : ℤ}
    (changed : changeIssuance before denom delta = .ok after) {other : Denom}
    (ready : denom = other → HasSnapshot before other) :
    Counted other (only denom delta other) before after := by
  have read := getIssuance_counted before other denom before.today
  rcases changeIssuance_cases changed with ⟨noSnapshot, rfl⟩ | ⟨-, nonneg, rfl⟩
  · have different : denom ≠ other := fun same => noSnapshot (same ▸ ready same)
    simpa [only, different] using read
  · have written := setIssuance_counted (getIssuance before denom before.today).2 denom other
      ((issuanceAt before denom before.today : ℤ) + delta).toNat
    have sameIssuance : issuanceAt (getIssuance before denom before.today).2 denom
        (getIssuance before denom before.today).2.today =
          issuanceAt before denom before.today :=
      issuanceAt_getIssuance before denom denom before.today before.today
    rw [sameIssuance, Int.toNat_of_nonneg nonneg, add_sub_cancel_left] at written
    have both := read.trans written
    rw [zero_add] at both
    exact both

omit [Sdk L] in
theorem changeNotBonded_frame (ctx : Context L) (denom : Denom) (delta : ℤ) :
    ∃ staking, changeNotBonded ctx denom delta = { ctx with staking } := by
  simp only [changeNotBonded]
  split
  · exact ⟨_, rfl⟩
  · exact ⟨ctx.staking, rfl⟩

/-- Changing the coins of one denomination and counting the change. -/
theorem changed_counted {before after : Context L} {ledger : L} {movement : Movement}
    {denom : Denom} {delta : ℤ} (moves : Moves before.ledger ledger movement)
    (moved : ∀ other, denom ≠ other →
      creditedTotal movement.debits other = 0 ∧ creditedTotal movement.credits other = 0)
    (changed : changeIssuance (changeNotBonded { before with ledger } denom delta) denom delta =
      .ok after) {other : Denom} (ready : denom = other → HasSnapshot before other) :
    Counted other (only denom delta other) before after := by
  rcases changeNotBonded_frame { before with ledger } denom delta with ⟨staking, pooled⟩
  rw [pooled] at changed
  have held : Counted other 0 before { before with ledger, staking } := by
    refine Counted.of_mint_eq rfl rfl ?_
    by_cases here : denom = other
    · exact Or.inl (ready here)
    · right
      rcases moved other here with ⟨noDebit, noCredit⟩
      have sameSupply := moves.supply other
      rw [noDebit, noCredit, sub_zero, add_zero] at sameSupply
      exact_mod_cast sameSupply
  have counted : Counted other (only denom delta other) { before with ledger, staking } after :=
    changeIssuance_counted changed ready
  have both := held.trans counted
  rw [zero_add] at both
  exact both

theorem mint_counted {before after : Context L} {recipient : Address} {coin : Coin}
    (minted : mint before recipient coin = .ok after) {denom : Denom}
    (ready : coin.denom = denom → HasSnapshot before denom) :
    Counted denom (only coin.denom coin.amount denom) before after := by
  rcases Outcome.bind_eq_ok.mp minted with ⟨ledger, added, changed⟩
  refine changed_counted (Sdk.addCoins_moves added) ?_ changed ready
  intro other different
  exact ⟨rfl, by rw [creditedTotal_single, only, if_neg different]⟩

theorem burn_counted {before after : Context L} {payer : Address} {coin : Coin}
    (burned : burn before payer coin = .ok after) {denom : Denom}
    (ready : coin.denom = denom → HasSnapshot before denom) :
    Counted denom (only coin.denom (-coin.amount) denom) before after := by
  rcases Outcome.bind_eq_ok.mp burned with ⟨ledger, subtracted, changed⟩
  refine changed_counted (Sdk.subtractCoins_moves subtracted) ?_ changed ready
  intro other different
  exact ⟨by rw [creditedTotal_single, only, if_neg different], rfl⟩

/-- The pool of unbonded tokens after the Luna issuance changed. -/
def pooled (staking : Staking) (delta : ℤ) : Staking :=
  { staking with notBondedTokens := staking.notBondedTokens + delta }

omit [Sdk L] in
theorem changeNotBonded_eq (ctx : Context L) (denom : Denom) (delta : ℤ) :
    changeNotBonded ctx denom delta =
      { ctx with staking := pooled ctx.staking (only denom delta microLunaDenom) } := by
  simp only [changeNotBonded, only]
  split
  · rfl
  · simp [pooled]

/-- A mint credits the recipient; apart from its accounts only the mint store
and the pool of unbonded tokens change. -/
theorem mint_writes {before after : Context L} {recipient : Address} {coin : Coin}
    (minted : mint before recipient coin = .ok after) :
    ∃ (ledger : L) (mint : MintStore),
      Moves before.ledger ledger { credits := [(recipient, [coin])] } ∧
        after = { before with
          ledger
          mint
          staking := pooled before.staking (only coin.denom coin.amount microLunaDenom) } := by
  rcases Outcome.bind_eq_ok.mp minted with ⟨ledger, added, changed⟩
  rw [changeNotBonded_eq] at changed
  exact ⟨ledger, after.mint, Sdk.addCoins_moves added, changeIssuance_frame changed⟩

theorem changeIssuance_withBudget {ctx after : Context L} {budget : BudgetStore} {denom : Denom}
    {delta : ℤ} (changed : changeIssuance { ctx with budget } denom delta = .ok after) :
    changeIssuance ctx denom delta = .ok { after with budget := ctx.budget } := by
  simp only [changeIssuance] at changed ⊢
  cases snapshot : ctx.mint.issuance[(denom, (0 : ℤ))]? with
  | none =>
      rw [snapshot] at changed
      cases changed
      rfl
  | some genesis =>
      rw [snapshot] at changed
      simp only at changed ⊢
      split at changed
      · cases changed
      · next nonneg =>
          cases changed
          exact if_neg nonneg

/-- A mint does the same whatever the budget store is. -/
theorem mint_withBudget {ctx after : Context L} {budget : BudgetStore} {recipient : Address}
    {coin : Coin} (minted : mint { ctx with budget } recipient coin = .ok after) :
    mint ctx recipient coin = .ok { after with budget := ctx.budget } := by
  rcases Outcome.bind_eq_ok.mp minted with ⟨ledger, added, changed⟩
  refine Outcome.bind_eq_ok.mpr ⟨ledger, added, ?_⟩
  rw [changeNotBonded_eq] at changed ⊢
  exact changeIssuance_withBudget changed

/-- A burn debits the payer; apart from its accounts only the mint store and
the pool of unbonded tokens change. -/
theorem burn_writes {before after : Context L} {payer : Address} {coin : Coin}
    (burned : burn before payer coin = .ok after) :
    ∃ (ledger : L) (mint : MintStore),
      Moves before.ledger ledger { debits := [(payer, [coin])] } ∧
        after = { before with
          ledger
          mint
          staking := pooled before.staking (only coin.denom (-coin.amount) microLunaDenom) } := by
  rcases Outcome.bind_eq_ok.mp burned with ⟨ledger, subtracted, changed⟩
  rw [changeNotBonded_eq] at changed
  exact ⟨ledger, after.mint, Sdk.subtractCoins_moves subtracted, changeIssuance_frame changed⟩

end TerraCore.Mint
