import TerraCore.Mint.Keeper

/-!
# Accounting for created and destroyed coins

Three quantities move together when a module creates or destroys coins: what
is held in the ledger, the issuance counter and, for Luna, the unbonded tokens
of the staking pool. `Changes` records by how much a call moves each of them.
Calls are composed by adding their changes, so that a handler is accounted for
by accounting for the keeper calls it makes.
-/

namespace TerraCore.Mint

variable {L : Type} [Sdk L]

/-- `amount` of one denomination and nothing of the others. -/
def only (denom : Denom) (amount : ℤ) (other : Denom) : ℤ :=
  if denom = other then amount else 0

/-- From `before` to `after` the ledger gains `held`, the issuance in effect
today gains `counted`, and the pool of unbonded tokens gains `pooled`, while the
market parameters and the issuance of past days stay. The issuance is only
claimed for denominations whose day-zero snapshot exists: without it a read
counts the accounts afresh. -/
structure Changes (held counted : Denom → ℤ) (pooled : ℤ) (before after : Context L) : Prop where
  height : after.height = before.height
  market : after.market = before.market
  holdings : ∀ denom,
    holdings after.ledger denom = TerraCore.holdings before.ledger denom + held denom
  notBonded : after.staking.notBondedTokens = before.staking.notBondedTokens + pooled
  snapshot : ∀ denom, HasSnapshot before denom → HasSnapshot after denom
  dated : Dated before → Dated after
  issuance : ∀ denom, Dated before → HasSnapshot before denom →
    (issuanceAt after denom after.today : ℤ) =
      issuanceAt before denom before.today + counted denom
  past : ∀ denom, HasSnapshot before denom → ∀ day : ℤ, 0 ≤ day → day < before.today →
    issuanceAt after denom day = issuanceAt before denom day

namespace Changes

variable {held counted moreHeld moreCounted : Denom → ℤ} {pooled morePooled : ℤ}
variable {before middle after : Context L}

theorem today (changes : Changes held counted pooled before after) :
    after.today = before.today := by
  simp only [Context.today]
  rw [changes.height]

theorem trans (first : Changes held counted pooled before middle)
    (second : Changes moreHeld moreCounted morePooled middle after) :
    Changes (held + moreHeld) (counted + moreCounted) (pooled + morePooled) before after where
  height := second.height.trans first.height
  market := second.market.trans first.market
  holdings denom := by
    rw [second.holdings, first.holdings, Pi.add_apply, add_assoc]
  notBonded := by
    rw [second.notBonded, first.notBonded, add_assoc]
  snapshot denom had := second.snapshot denom (first.snapshot denom had)
  dated was := second.dated (first.dated was)
  issuance denom was had := by
    rw [second.issuance denom (first.dated was) (first.snapshot denom had),
      first.issuance denom was had, Pi.add_apply, add_assoc]
  past denom had day nonneg past := by
    rw [second.past denom (first.snapshot denom had) day nonneg (first.today ▸ past),
      first.past denom had day nonneg past]

/-- Restate the amounts of a change. -/
theorem of_eq {newHeld newCounted : Denom → ℤ} {newPooled : ℤ}
    (changes : Changes held counted pooled before after)
    (sameHeld : ∀ denom, held denom = newHeld denom)
    (sameCounted : ∀ denom, counted denom = newCounted denom) (samePooled : pooled = newPooled) :
    Changes newHeld newCounted newPooled before after := by
  have heldEq : held = newHeld := funext sameHeld
  have countedEq : counted = newCounted := funext sameCounted
  subst heldEq countedEq
  exact samePooled ▸ changes

/-- A call that leaves height, market, ledger, pool and issuance alone changes nothing. -/
theorem of_same (sameHeight : after.height = before.height)
    (sameMarket : after.market = before.market)
    (sameLedger : after.ledger = before.ledger)
    (samePool : after.staking.notBondedTokens = before.staking.notBondedTokens)
    (sameMint : after.mint = before.mint) : Changes 0 0 0 before after where
  height := sameHeight
  market := sameMarket
  holdings denom := by rw [sameLedger, Pi.zero_apply, add_zero]
  notBonded := by rw [samePool, add_zero]
  snapshot denom had := by
    simp only [HasSnapshot]
    rw [sameMint]
    exact had
  dated was := by
    simp only [Dated, Context.today]
    rw [sameMint, sameHeight]
    exact was
  issuance denom _ had := by
    have sameDay : after.today = before.today := by
      simp only [Context.today]
      rw [sameHeight]
    rw [sameDay, issuanceAt_of_mint_eq had sameMint (today_nonneg before), Pi.zero_apply,
      add_zero]
  past denom had day nonneg _ := issuanceAt_of_mint_eq had sameMint nonneg

theorem refl (ctx : Context L) : Changes 0 0 0 ctx ctx :=
  of_same rfl rfl rfl rfl rfl

theorem of_oracle (ctx : Context L) (oracle : OracleStore) :
    Changes 0 0 0 ctx { ctx with oracle } :=
  of_same rfl rfl rfl rfl rfl

theorem of_budget (ctx : Context L) (budget : BudgetStore) :
    Changes 0 0 0 ctx { ctx with budget } :=
  of_same rfl rfl rfl rfl rfl

/-- Moving coins in the ledger changes what is held and nothing else. -/
theorem of_moves (ctx : Context L) {ledger : L} {movement : Movement}
    (moves : Moves ctx.ledger ledger movement) :
    Changes
      (fun denom => creditedTotal movement.credits denom + amountOf movement.fees denom +
        creditedTotal movement.allocations denom - creditedTotal movement.debits denom)
      0 0 ctx { ctx with ledger } where
  height := rfl
  market := rfl
  holdings denom := by
    rw [moves.holdings denom]
    ring
  notBonded := (add_zero _).symm
  snapshot _ had := had
  dated was := was
  issuance denom _ had := by
    have sameIssuance : issuanceAt { ctx with ledger } denom ctx.today =
        issuanceAt ctx denom ctx.today := by
      refine issuanceAt_of_mint_eq had ?_ (today_nonneg ctx)
      rfl
    rw [Pi.zero_apply, add_zero, ← sameIssuance]
    rfl
  past denom had day nonneg _ := by
    refine issuanceAt_of_mint_eq had ?_ nonneg
    rfl

end Changes

theorem getIssuance_changes (ctx : Context L) (denom : Denom) {day : ℤ} (past : day ≤ ctx.today) :
    Changes 0 0 0 ctx (getIssuance ctx denom day).2 where
  height := rfl
  market := rfl
  holdings _ := (add_zero _).symm
  notBonded := (add_zero _).symm
  snapshot _ had := had.getIssuance denom day
  dated was := was.getIssuance denom past
  issuance other _ _ := by
    rw [Pi.zero_apply, add_zero, issuanceAt_getIssuance]
    rfl
  past other _ otherDay _ _ := issuanceAt_getIssuance ctx denom other day otherDay

theorem changeNotBonded_changes (ctx : Context L) (denom : Denom) (delta : ℤ) :
    Changes 0 0 (only denom delta microLunaDenom) ctx
      (changeNotBonded ctx denom delta) := by
  simp only [changeNotBonded, only]
  split
  · exact
      { height := rfl
        market := rfl
        holdings := fun _ => (add_zero _).symm
        notBonded := rfl
        snapshot := fun _ had => had
        dated := fun was => was
        issuance := fun denom _ had => by
          rw [Pi.zero_apply, add_zero]
          exact_mod_cast issuanceAt_of_mint_eq had rfl (today_nonneg ctx)
        past := fun _ had _ nonneg _ => issuanceAt_of_mint_eq had rfl nonneg }
  · exact Changes.refl ctx

omit [Sdk L] in
theorem setIssuance_get (ctx : Context L) (denom : Denom) (day : ℤ) (issuance : ℕ)
    (key : Denom × ℤ) :
    (setIssuance ctx denom day issuance).mint.issuance[key]? =
      if (denom, day) = key then some issuance else ctx.mint.issuance[key]? :=
  Store.get_insert _ _ _ _

theorem issuanceAt_setIssuance_today (ctx : Context L) (denom : Denom) (issuance : ℕ) :
    issuanceAt (setIssuance ctx denom ctx.today issuance) denom ctx.today = issuance := by
  rw [issuanceAt_eq]
  generalize ctx.today.toNat = earlier
  cases earlier <;> simp [lookBack, setIssuance_get]

theorem issuanceAt_setIssuance_of_lt (ctx : Context L) (denom : Denom) (issuance : ℕ) {day : ℤ}
    (past : day < ctx.today) :
    issuanceAt (setIssuance ctx denom ctx.today issuance) denom day =
      issuanceAt ctx denom day := by
  rw [issuanceAt_eq, issuanceAt_eq]
  apply lookBack_congr
  intro earlier before
  have different : (denom, ctx.today) ≠ (denom, earlier) := by
    intro same
    have := (Prod.ext_iff.mp same).2
    simp only at this
    omega
  rw [setIssuance_get, if_neg different]

theorem issuanceAt_setIssuance_of_ne (ctx : Context L) {denom other : Denom} (day : ℤ)
    (issuance : ℕ) (different : denom ≠ other) (otherDay : ℤ) :
    issuanceAt (setIssuance ctx denom day issuance) other otherDay =
      issuanceAt ctx other otherDay := by
  rw [issuanceAt_eq, issuanceAt_eq]
  apply lookBack_congr
  intro earlier _
  rw [setIssuance_get, if_neg fun same => different (Prod.ext_iff.mp same).1]

theorem setIssuance_changes (ctx : Context L) (denom : Denom) (issuance : ℕ) :
    Changes 0 (only denom (issuance - issuanceAt ctx denom ctx.today)) 0 ctx
      (setIssuance ctx denom ctx.today issuance) where
  height := rfl
  market := rfl
  holdings _ := (add_zero _).symm
  notBonded := (add_zero _).symm
  snapshot other had := by
    rcases had with ⟨genesis, present⟩
    simp only [HasSnapshot]
    rw [setIssuance_get]
    split
    · exact ⟨_, rfl⟩
    · exact ⟨genesis, present⟩
  dated was := by
    intro key value present
    rw [setIssuance_get] at present
    split at present
    · next here =>
        rw [← here]
        exact le_rfl
    · exact was key value present
  issuance other _ _ := by
    have sameDay : (setIssuance ctx denom ctx.today issuance).today = ctx.today := rfl
    rw [sameDay]
    simp only [only]
    by_cases here : denom = other
    · -- The snapshot of today is the one just written.
      subst here
      rw [issuanceAt_setIssuance_today, if_pos rfl]
      ring
    · -- The snapshots of other denominations stay what they were.
      rw [if_neg here, add_zero, issuanceAt_setIssuance_of_ne ctx _ _ here]
  past other _ day _ past := by
    by_cases here : denom = other
    · subst here
      exact issuanceAt_setIssuance_of_lt ctx denom issuance past
    · exact issuanceAt_setIssuance_of_ne ctx _ _ here day

theorem changeIssuance_changes {before after : Context L} {denom : Denom} {delta : ℤ}
    (changed : changeIssuance before denom delta = .ok after) :
    Changes 0 (only denom delta) 0 before after := by
  have read := getIssuance_changes before denom (le_refl before.today)
  rcases changeIssuance_cases changed with ⟨noSnapshot, rfl⟩ | ⟨_, nonneg, rfl⟩
  · -- Without a snapshot nothing is claimed of this denomination.
    exact
      { height := read.height
        market := read.market
        holdings := read.holdings
        notBonded := read.notBonded
        snapshot := read.snapshot
        dated := read.dated
        issuance := fun other was had => by
          have different : denom ≠ other := fun same => noSnapshot (same ▸ had)
          rw [read.issuance other was had]
          simp [only, different]
        past := read.past }
  · have written := setIssuance_changes (getIssuance before denom before.today).2 denom
      ((issuanceAt before denom before.today : ℤ) + delta).toNat
    refine (read.trans written).of_eq (by simp) ?_ (by simp)
    intro other
    have sameIssuance : issuanceAt (getIssuance before denom before.today).2 denom
        (getIssuance before denom before.today).2.today =
          issuanceAt before denom before.today :=
      issuanceAt_getIssuance before denom denom before.today before.today
    simp only [Pi.add_apply, Pi.zero_apply, only, sameIssuance, Int.toNat_of_nonneg nonneg]
    split <;> ring

theorem creditedTotal_single (address : Address) (coin : Coin) (denom : Denom) :
    creditedTotal [(address, [coin])] denom = only coin.denom coin.amount denom := by
  simp [creditedTotal_cons, amountOf_cons, only]

theorem credited_single (owner address : Address) (coin : Coin) (denom : Denom) :
    credited [(owner, [coin])] address denom =
      if address = owner then only coin.denom coin.amount denom else 0 := by
  simp only [credited_cons, credited_nil, amountOf_cons, amountOf_nil, add_zero, only,
    eq_comm (a := owner)]

/-- `Mint` counts the coin and mirrors Luna in the staking pool. -/
theorem mint_changes {before after : Context L} {recipient : Address} {coin : Coin}
    (minted : mint before recipient coin = .ok after) :
    Changes (only coin.denom coin.amount) (only coin.denom coin.amount)
      (only coin.denom coin.amount microLunaDenom) before after := by
  rcases Outcome.bind_eq_ok.mp minted with ⟨ledger, added, changed⟩
  have moved := Changes.of_moves before (Sdk.addCoins_moves added)
  have pooled := changeNotBonded_changes { before with ledger } coin.denom coin.amount
  have counted := changeIssuance_changes changed
  refine ((moved.trans pooled).trans counted).of_eq ?_ ?_ ?_
  · intro denom
    simp [creditedTotal_single]
  · intro denom
    simp
  · simp

/-- `Burn` is `Mint` with the opposite sign. -/
theorem burn_changes {before after : Context L} {payer : Address} {coin : Coin}
    (burned : burn before payer coin = .ok after) :
    Changes (only coin.denom (-coin.amount)) (only coin.denom (-coin.amount))
      (only coin.denom (-coin.amount) microLunaDenom) before after := by
  rcases Outcome.bind_eq_ok.mp burned with ⟨ledger, subtracted, changed⟩
  have moved := Changes.of_moves before (Sdk.subtractCoins_moves subtracted)
  have pooled := changeNotBonded_changes { before with ledger } coin.denom (-coin.amount)
  have counted := changeIssuance_changes changed
  refine ((moved.trans pooled).trans counted).of_eq ?_ ?_ ?_
  · intro denom
    simp only [Pi.add_apply, Pi.zero_apply, creditedTotal_nil, amountOf_nil, creditedTotal_single, only]
    split <;> ring
  · intro denom
    simp
  · simp

theorem peekEpochSeigniorage_changes (ctx : Context L) (epoch : ℤ) :
    Changes 0 0 0 ctx (peekEpochSeigniorage ctx epoch).2 := by
  have nonneg := today_nonneg ctx
  have daysNonneg : 0 ≤ ((blocksPerEpoch / blocksPerDay : ℕ) : ℤ) := Int.natCast_nonneg _
  simp only [peekEpochSeigniorage]
  generalize ((blocksPerEpoch / blocksPerDay : ℕ) : ℤ) = days at *
  refine ((getIssuance_changes ctx microLunaDenom ?_).trans
    (getIssuance_changes _ microLunaDenom ?_)).of_eq (by simp) (by simp) (by simp)
  · split_ifs <;> omega
  · change _ ≤ ctx.today
    split_ifs <;> omega

/-- A step that creates or destroys coins of some denominations, counts all of
them, and mirrors the Luna among them in the staking pool. -/
def Mirrored (before after : Context L) : Prop :=
  ∃ issued : Denom → ℤ, Changes issued issued (issued microLunaDenom) before after

/-- A call that creates and destroys nothing. -/
theorem Mirrored.of_unchanged {before after : Context L} (changes : Changes 0 0 0 before after) :
    Mirrored before after :=
  ⟨0, changes⟩

theorem Mirrored.trans {before middle after : Context L} (first : Mirrored before middle)
    (second : Mirrored middle after) : Mirrored before after := by
  rcases first with ⟨issued, firstChanges⟩
  rcases second with ⟨more, secondChanges⟩
  exact ⟨issued + more, firstChanges.trans secondChanges⟩

theorem mint_mirrored {before after : Context L} {recipient : Address} {coin : Coin}
    (minted : mint before recipient coin = .ok after) : Mirrored before after :=
  ⟨_, mint_changes minted⟩

theorem burn_mirrored {before after : Context L} {payer : Address} {coin : Coin}
    (burned : burn before payer coin = .ok after) : Mirrored before after :=
  ⟨_, burn_changes burned⟩

end TerraCore.Mint
