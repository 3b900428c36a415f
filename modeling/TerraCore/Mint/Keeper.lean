import TerraCore.Context

/-!
# Mint keeper

Issuance is counted apart from balances, in one snapshot per denomination and
day. Reading a day that has no snapshot yet falls back to the previous day,
down to a fresh count of all accounts on day zero, and fills in every snapshot
it passed. `lookBack` is the value such a read returns; the lemmas below show
that filling in snapshots never changes it.
-/

namespace TerraCore.Mint

variable {L : Type}

/-- The recursion of `GetIssuance`. The first number is the day, when it is
positive; `accountTotal` is the count over all accounts that day zero reads. -/
def readIssuance (accountTotal : ℕ) (denom : Denom) : ℕ → ℤ → MintStore → ℕ × MintStore
  | 0, day, store =>
      match store.issuance[(denom, day)]? with
      | some issuance => (issuance, store)
      | none =>
          (accountTotal, { issuance := store.issuance.insert (denom, day) accountTotal })
  | earlier + 1, day, store =>
      match store.issuance[(denom, day)]? with
      | some issuance => (issuance, store)
      | none =>
          let (issuance, filled) := readIssuance accountTotal denom earlier (day - 1) store
          (issuance, { issuance := filled.issuance.insert (denom, day) issuance })

/-- The value of the latest snapshot not after the given day. -/
def lookBack (accountTotal : ℕ) (store : MintStore) (denom : Denom) : ℕ → ℤ → ℕ
  | 0, day => (store.issuance[(denom, day)]?).getD accountTotal
  | earlier + 1, day =>
      match store.issuance[(denom, day)]? with
      | some issuance => issuance
      | none => lookBack accountTotal store denom earlier (day - 1)

theorem readIssuance_fst (accountTotal : ℕ) (denom : Denom) (earlier : ℕ) (day : ℤ)
    (store : MintStore) :
    (readIssuance accountTotal denom earlier day store).1 =
      lookBack accountTotal store denom earlier day := by
  induction earlier generalizing day with
  | zero =>
      simp only [readIssuance, lookBack]
      cases store.issuance[(denom, day)]? <;> rfl
  | succ earlier ih =>
      simp only [readIssuance, lookBack]
      cases store.issuance[(denom, day)]? with
      | none => exact ih (day - 1)
      | some issuance => rfl

/-- A read leaves every snapshot alone and fills in missing ones, up to the
day that was read, with the value in effect on that day. -/
theorem readIssuance_get (accountTotal : ℕ) (denom : Denom) (day : ℤ) (store : MintStore)
    (key : Denom × ℤ) :
    (readIssuance accountTotal denom day.toNat day store).2.issuance[key]? =
        store.issuance[key]? ∨
      (store.issuance[key]? = none ∧ key.1 = denom ∧ key.2 ≤ day ∧
        (readIssuance accountTotal denom day.toNat day store).2.issuance[key]? =
          some (lookBack accountTotal store denom key.2.toNat key.2)) := by
  generalize steps : day.toNat = earlier
  induction earlier generalizing day with
  | zero =>
      simp only [readIssuance]
      cases present : store.issuance[(denom, day)]? with
      | some issuance => exact Or.inl rfl
      | none =>
          simp only [Store.get_insert]
          by_cases here : (denom, day) = key
          · subst here
            right
            simp [steps, lookBack, present]
          · simp [here]
  | succ earlier ih =>
      simp only [readIssuance]
      cases present : store.issuance[(denom, day)]? with
      | some issuance => exact Or.inl rfl
      | none =>
          simp only [Store.get_insert]
          by_cases here : (denom, day) = key
          · subst here
            right
            refine ⟨present, rfl, le_rfl, ?_⟩
            rw [if_pos rfl, readIssuance_fst, steps]
            simp only [lookBack, present]
          · rw [if_neg here]
            rcases ih (day - 1) (by omega) with same | ⟨absent, denomEq, before, filled⟩
            · exact Or.inl same
            · exact Or.inr ⟨absent, denomEq, by omega, filled⟩

/-- Snapshots that repeat the value in effect on their day change no value in effect. -/
theorem lookBack_eq_of_filled {accountTotal : ℕ} {before after : MintStore} {denom : Denom}
    (filled : ∀ day : ℤ,
      after.issuance[(denom, day)]? = before.issuance[(denom, day)]? ∨
        (before.issuance[(denom, day)]? = none ∧
          after.issuance[(denom, day)]? =
            some (lookBack accountTotal before denom day.toNat day)))
    (day : ℤ) :
    lookBack accountTotal after denom day.toNat day =
      lookBack accountTotal before denom day.toNat day := by
  generalize steps : day.toNat = earlier
  induction earlier generalizing day with
  | zero =>
      simp only [lookBack]
      rcases filled day with same | ⟨absent, added⟩
      · rw [same]
      · rw [added, steps]
        simp [lookBack]
  | succ earlier ih =>
      have earlierEq := ih (day - 1) (by omega)
      rcases filled day with same | ⟨absent, added⟩
      · simp only [lookBack]
        rw [same]
        cases before.issuance[(denom, day)]? with
        | none => exact earlierEq
        | some issuance => rfl
      · rw [steps] at added
        rw [lookBack, added]

/-- The value in effect on a day does not depend on later snapshots. -/
theorem lookBack_congr {accountTotal : ℕ} {first second : MintStore} {denom : Denom} {day : ℤ}
    (same : ∀ earlier : ℤ, earlier ≤ day →
      first.issuance[(denom, earlier)]? = second.issuance[(denom, earlier)]?) :
    lookBack accountTotal first denom day.toNat day =
      lookBack accountTotal second denom day.toNat day := by
  generalize day.toNat = steps
  induction steps generalizing day with
  | zero => rw [lookBack, lookBack, same day le_rfl]
  | succ steps ih =>
      rw [lookBack, lookBack, same day le_rfl]
      cases second.issuance[(denom, day)]? with
      | some issuance => rfl
      | none => exact ih fun earlier before => same earlier (by omega)

/-- With a day-zero snapshot the account total is never read. -/
theorem lookBack_accountTotal {store : MintStore} {denom : Denom} {genesis : ℕ}
    (snapshot : store.issuance[(denom, (0 : ℤ))]? = some genesis) (first second : ℕ) {day : ℤ}
    (nonneg : 0 ≤ day) :
    lookBack first store denom day.toNat day = lookBack second store denom day.toNat day := by
  generalize steps : day.toNat = earlier
  induction earlier generalizing day with
  | zero =>
      have dayZero : day = 0 := by omega
      subst dayZero
      simp [lookBack, snapshot]
  | succ earlier ih =>
      simp only [lookBack]
      cases store.issuance[(denom, day)]? with
      | none => exact ih (by omega) (by omega)
      | some issuance => rfl

/-- Days without snapshots inherit the value of the day before them. -/
theorem lookBack_of_later {accountTotal : ℕ} {store : MintStore} {denom : Denom} {day later : ℤ}
    (nonneg : 0 ≤ day) (order : day ≤ later)
    (absent : ∀ between : ℤ, day < between → store.issuance[(denom, between)]? = none) :
    lookBack accountTotal store denom later.toNat later =
      lookBack accountTotal store denom day.toNat day := by
  obtain ⟨gap, rfl⟩ : ∃ gap : ℕ, later = day + gap := ⟨(later - day).toNat, by omega⟩
  induction gap with
  | zero => simp
  | succ gap ih =>
      have steps : (day + ((gap + 1 : ℕ) : ℤ)).toNat = (day + (gap : ℤ)).toNat + 1 := by omega
      rw [steps, lookBack, absent (day + ((gap + 1 : ℕ) : ℤ)) (by omega)]
      have previous : day + ((gap + 1 : ℕ) : ℤ) - 1 = day + (gap : ℤ) := by
        push_cast
        ring
      simp only [previous]
      exact ih (by omega)

theorem today_nonneg (ctx : Context L) : 0 ≤ ctx.today := Int.natCast_nonneg _

/-- Write the snapshot of a day. -/
def setIssuance (ctx : Context L) (denom : Denom) (day : ℤ) (issuance : ℕ) : Context L :=
  { ctx with mint := { issuance := ctx.mint.issuance.insert (denom, day) issuance } }

section Keeper

variable [Sdk L]

def getIssuance (ctx : Context L) (denom : Denom) (day : ℤ) : ℕ × Context L :=
  let (issuance, mint) := readIssuance (supply ctx.ledger denom) denom day.toNat day ctx.mint
  (issuance, { ctx with mint })

/-- `Keeper.ChangeIssuance`. Without a day-zero snapshot the fresh count of
the accounts already reflects the change. -/
def changeIssuance (ctx : Context L) (denom : Denom) (delta : ℤ) : Outcome (Context L) :=
  let curDay := ctx.today
  match ctx.mint.issuance[(denom, (0 : ℤ))]? with
  | none => .ok (getIssuance ctx denom curDay).2
  | some _ =>
      let (curIssuance, ctx) := getIssuance ctx denom curDay
      let newIssuance : ℤ := curIssuance + delta
      if newIssuance < 0 then .error (.error .issuanceBelowZero)
      else .ok (setIssuance ctx denom curDay newIssuance.toNat)

/-- Minted and burned Luna is mirrored in the staking pool. -/
def changeNotBonded (ctx : Context L) (denom : Denom) (delta : ℤ) : Context L :=
  if denom = microLunaDenom then
    { ctx with
      staking := { ctx.staking with notBondedTokens := ctx.staking.notBondedTokens + delta } }
  else ctx

def mint (ctx : Context L) (recipient : Address) (coin : Coin) : Outcome (Context L) := do
  let ledger ← Sdk.addCoins ctx.ledger recipient [coin]
  let ctx := changeNotBonded { ctx with ledger } coin.denom coin.amount
  changeIssuance ctx coin.denom coin.amount

def burn (ctx : Context L) (payer : Address) (coin : Coin) : Outcome (Context L) := do
  let ledger ← Sdk.subtractCoins ctx.ledger payer [coin]
  let ctx := changeNotBonded { ctx with ledger } coin.denom (-coin.amount)
  changeIssuance ctx coin.denom (-coin.amount)

def peekEpochSeigniorage (ctx : Context L) (epoch : ℤ) : ℤ × Context L :=
  let daysPerEpoch : ℤ := ((blocksPerEpoch / blocksPerDay : ℕ) : ℤ)
  let epochLastDay := (epoch + 1) * daysPerEpoch - 1
  let epochLastDay := if ctx.today < epochLastDay then ctx.today else epochLastDay
  let prevEpochLastDay := epochLastDay - daysPerEpoch
  let prevEpochLastDay := if prevEpochLastDay < 0 then 0 else prevEpochLastDay
  let (prevEpochIssuance, ctx) := getIssuance ctx microLunaDenom prevEpochLastDay
  let (epochIssuance, ctx) := getIssuance ctx microLunaDenom epochLastDay
  let epochSeigniorage : ℤ := (epochIssuance : ℤ) - prevEpochIssuance
  (if epochSeigniorage < 0 then 0 else epochSeigniorage, ctx)

/-- The issuance of a denomination that is in effect on a day. -/
def issuanceAt (ctx : Context L) (denom : Denom) (day : ℤ) : ℕ := (getIssuance ctx denom day).1

/-- The day-zero snapshot of a denomination has been taken. -/
def HasSnapshot (ctx : Context L) (denom : Denom) : Prop :=
  ∃ genesis, ctx.mint.issuance[(denom, (0 : ℤ))]? = some genesis

/-- No snapshot is dated after the current day. -/
def Dated (ctx : Context L) : Prop :=
  ∀ (key : Denom × ℤ) issuance, ctx.mint.issuance[key]? = some issuance → key.2 ≤ ctx.today

omit [Sdk L] in
theorem today_advance (ctx : Context L) (blocks : ℕ) :
    ctx.today ≤ { ctx with height := ctx.height + blocks }.today := by
  have grows : ctx.height / blocksPerDay ≤ (ctx.height + blocks) / blocksPerDay :=
    Nat.div_le_div_right (by omega)
  simp only [Context.today]
  exact_mod_cast grows

omit [Sdk L] in
theorem dated_advance {ctx : Context L} (dated : Dated ctx) (blocks : ℕ) :
    Dated { ctx with height := ctx.height + blocks } := by
  intro key issuance present
  exact (dated key issuance present).trans (today_advance ctx blocks)

theorem issuanceAt_eq (ctx : Context L) (denom : Denom) (day : ℤ) :
    issuanceAt ctx denom day =
      lookBack (supply ctx.ledger denom) ctx.mint denom day.toNat day :=
  readIssuance_fst _ _ _ _ _

theorem getIssuance_get (ctx : Context L) (denom : Denom) (day : ℤ) (key : Denom × ℤ) :
    (getIssuance ctx denom day).2.mint.issuance[key]? = ctx.mint.issuance[key]? ∨
      (ctx.mint.issuance[key]? = none ∧ key.1 = denom ∧ key.2 ≤ day ∧
        (getIssuance ctx denom day).2.mint.issuance[key]? =
          some (issuanceAt ctx denom key.2)) := by
  rw [issuanceAt_eq]
  exact readIssuance_get _ _ _ _ _

/-- Reading issuance changes no issuance. -/
theorem issuanceAt_getIssuance (ctx : Context L) (denom other : Denom) (day otherDay : ℤ) :
    issuanceAt (getIssuance ctx denom day).2 other otherDay = issuanceAt ctx other otherDay := by
  rw [issuanceAt_eq, issuanceAt_eq]
  apply lookBack_eq_of_filled
  intro between
  rcases getIssuance_get ctx denom day (other, between) with same | ⟨absent, denomEq, _, filled⟩
  · exact Or.inl same
  · right
    refine ⟨absent, ?_⟩
    rw [filled, issuanceAt_eq, ← denomEq]
    rfl

/-- The issuance of the last day of the epoch, or of today, less the issuance of
the day one epoch length before it. -/
theorem peekEpochSeigniorage_fst (ctx : Context L) (epoch : ℤ) :
    (peekEpochSeigniorage ctx epoch).1 =
      let daysPerEpoch : ℤ := ((blocksPerEpoch / blocksPerDay : ℕ) : ℤ)
      let epochLastDay := min ((epoch + 1) * daysPerEpoch - 1) ctx.today
      let prevEpochLastDay := max (epochLastDay - daysPerEpoch) 0
      max 0 ((issuanceAt ctx microLunaDenom epochLastDay : ℤ) -
        issuanceAt ctx microLunaDenom prevEpochLastDay) := by
  have clamped (value : ℤ) : (if value < 0 then 0 else value) = max 0 value := by
    split <;> omega
  have lastDay (day : ℤ) : (if ctx.today < day then ctx.today else day) = min day ctx.today := by
    split <;> omega
  simp only [peekEpochSeigniorage, clamped, lastDay, max_comm (0 : ℤ) (_ - _)]
  generalize min _ ctx.today = epochLastDay
  generalize max (epochLastDay - _) 0 = prevEpochLastDay
  rw [← issuanceAt_getIssuance ctx microLunaDenom microLunaDenom prevEpochLastDay epochLastDay]
  rfl

theorem HasSnapshot.getIssuance {ctx : Context L} {denom : Denom} (snapshot : HasSnapshot ctx denom)
    (other : Denom) (day : ℤ) : HasSnapshot (getIssuance ctx other day).2 denom := by
  rcases snapshot with ⟨genesis, present⟩
  rcases getIssuance_get ctx other day (denom, 0) with same | ⟨absent, _⟩
  · exact ⟨genesis, same.trans present⟩
  · rw [absent] at present
    cases present

theorem Dated.getIssuance {ctx : Context L} (dated : Dated ctx) (denom : Denom) {day : ℤ}
    (past : day ≤ ctx.today) : Dated (getIssuance ctx denom day).2 := by
  intro key issuance present
  rcases getIssuance_get ctx denom day key with same | ⟨_, _, before, _⟩
  · exact dated key issuance (same ▸ present)
  · exact before.trans past

theorem issuanceAt_of_mint_eq {before after : Context L} {denom : Denom}
    (snapshot : HasSnapshot before denom) (sameMint : after.mint = before.mint) {day : ℤ}
    (nonneg : 0 ≤ day) : issuanceAt after denom day = issuanceAt before denom day := by
  rcases snapshot with ⟨genesis, present⟩
  rw [issuanceAt_eq, issuanceAt_eq, sameMint]
  exact lookBack_accountTotal present _ _ nonneg

/-- A later day without snapshots of its own has today's issuance. -/
theorem issuanceAt_of_later {ctx : Context L} (dated : Dated ctx) (denom : Denom) {later : ℤ}
    (order : ctx.today ≤ later) : issuanceAt ctx denom later = issuanceAt ctx denom ctx.today := by
  rw [issuanceAt_eq, issuanceAt_eq]
  apply lookBack_of_later (today_nonneg ctx) order
  intro between after
  cases present : ctx.mint.issuance[(denom, between)]? with
  | none => rfl
  | some issuance =>
      have := dated _ _ present
      simp only at this
      omega

theorem changeIssuance_cases {before after : Context L} {denom : Denom} {delta : ℤ}
    (changed : changeIssuance before denom delta = .ok after) :
    (¬HasSnapshot before denom ∧ after = (getIssuance before denom before.today).2) ∨
      (HasSnapshot before denom ∧ 0 ≤ (issuanceAt before denom before.today : ℤ) + delta ∧
        after = setIssuance (getIssuance before denom before.today).2 denom before.today
          ((issuanceAt before denom before.today : ℤ) + delta).toNat) := by
  simp only [changeIssuance] at changed
  cases present : before.mint.issuance[(denom, (0 : ℤ))]? with
  | none =>
      rw [present] at changed
      left
      refine ⟨?_, (Except.ok.inj changed).symm⟩
      rintro ⟨genesis, found⟩
      rw [present] at found
      cases found
  | some genesis =>
      rw [present] at changed
      simp only at changed
      split at changed
      · cases changed
      · next nonneg =>
          exact Or.inr ⟨⟨genesis, present⟩, not_lt.mp nonneg, (Except.ok.inj changed).symm⟩

/-- With a day-zero snapshot a change is added to the issuance of today. -/
theorem changeIssuance_of_snapshot {ctx : Context L} {denom : Denom}
    (snapshot : HasSnapshot ctx denom) (delta : ℤ) :
    changeIssuance ctx denom delta =
      if (issuanceAt ctx denom ctx.today : ℤ) + delta < 0 then
        .error (.error .issuanceBelowZero)
      else
        .ok (setIssuance (getIssuance ctx denom ctx.today).2 denom ctx.today
          ((issuanceAt ctx denom ctx.today : ℤ) + delta).toNat) := by
  rcases snapshot with ⟨genesis, present⟩
  simp only [changeIssuance, present]
  rfl

theorem changeIssuance_frame {before after : Context L} {denom : Denom} {delta : ℤ}
    (changed : changeIssuance before denom delta = .ok after) :
    after = { before with mint := after.mint } := by
  rcases changeIssuance_cases changed with ⟨_, rfl⟩ | ⟨_, _, rfl⟩ <;> rfl

/-- `ChangeIssuance` cannot fail when it raises the issuance. -/
theorem changeIssuance_isOk (ctx : Context L) (denom : Denom) {delta : ℤ} (nonneg : 0 ≤ delta) :
    ∃ after, changeIssuance ctx denom delta = .ok after := by
  simp only [changeIssuance]
  cases ctx.mint.issuance[(denom, (0 : ℤ))]? with
  | none => exact ⟨_, rfl⟩
  | some genesis =>
      simp only
      rw [if_neg (by omega)]
      exact ⟨_, rfl⟩

/-- Minting and burning reach nothing but the coins, the staking pool and the issuance. -/
structure Frame (before after : Context L) : Prop where
  height : after.height = before.height
  validator : after.staking.validator = before.staking.validator
  bondedTokens : after.staking.bondedTokens = before.staking.bondedTokens
  oracle : after.oracle = before.oracle
  market : after.market = before.market
  treasury : after.treasury = before.treasury
  budget : after.budget = before.budget

omit [Sdk L] in
theorem Frame.refl (ctx : Context L) : Frame ctx ctx := ⟨rfl, rfl, rfl, rfl, rfl, rfl, rfl⟩

omit [Sdk L] in
theorem Frame.trans {before middle after : Context L} (first : Frame before middle)
    (second : Frame middle after) : Frame before after :=
  ⟨second.height.trans first.height, second.validator.trans first.validator,
    second.bondedTokens.trans first.bondedTokens, second.oracle.trans first.oracle,
    second.market.trans first.market, second.treasury.trans first.treasury,
    second.budget.trans first.budget⟩

/-- What both do once the coins have moved. -/
theorem changed_frame {before after : Context L} {ledger : L} {denom : Denom} {delta : ℤ}
    (changed : changeIssuance (changeNotBonded { before with ledger } denom delta) denom delta =
      .ok after) : Frame before after := by
  rw [changeIssuance_frame changed]
  simp only [changeNotBonded]
  split <;> exact ⟨rfl, rfl, rfl, rfl, rfl, rfl, rfl⟩

theorem mint_frame {before after : Context L} {recipient : Address} {coin : Coin}
    (minted : mint before recipient coin = .ok after) : Frame before after := by
  rcases Outcome.bind_eq_ok.mp minted with ⟨ledger, -, changed⟩
  exact changed_frame changed

theorem burn_frame {before after : Context L} {payer : Address} {coin : Coin}
    (burned : burn before payer coin = .ok after) : Frame before after := by
  rcases Outcome.bind_eq_ok.mp burned with ⟨ledger, -, changed⟩
  exact changed_frame changed

/-- A coin can be minted exactly when its denomination is well formed and its
amount is positive. -/
theorem mint_isOk_iff (ctx : Context L) (recipient : Address) (coin : Coin) :
    (∃ after, mint ctx recipient coin = .ok after) ↔
      validateDenom coin.denom = true ∧ 0 < coin.amount := by
  have validIff : isValid [coin] = true ↔ validateDenom coin.denom = true ∧ 0 < coin.amount := by
    simp [isValid]
  rw [← validIff]
  constructor
  · rintro ⟨after, minted⟩
    by_contra invalid
    rcases Outcome.bind_eq_ok.mp minted with ⟨ledger, added, -⟩
    rw [Sdk.addCoins_of_invalid ctx.ledger recipient (by simpa using invalid)] at added
    cases added
  · intro valid
    rcases Sdk.addCoins_of_valid ctx.ledger recipient valid with ⟨ledger, added⟩
    rcases changeIssuance_isOk (changeNotBonded { ctx with ledger } coin.denom coin.amount)
        coin.denom (validIff.mp valid).2.le with ⟨after, changed⟩
    exact ⟨after, Outcome.bind_eq_ok.mpr ⟨ledger, added, changed⟩⟩

/-- `SubtractCoins` reports what it cannot do as an error. -/
def SubtractsSafely (L : Type) [Sdk L] : Prop :=
  ∀ (ledger : L) (address : Address) (coins : List Coin),
    ¬Outcome.Panics (Sdk.subtractCoins ledger address coins)

theorem changeIssuance_not_panics (ctx : Context L) (denom : Denom) (delta : ℤ) :
    ¬Outcome.Panics (changeIssuance ctx denom delta) := by
  simp only [Outcome.Panics, changeIssuance]
  split
  · simp
  · split <;> simp

theorem mint_not_panics (ctx : Context L) (recipient : Address) (coin : Coin) :
    ¬Outcome.Panics (mint ctx recipient coin) := by
  simp only [mint, Outcome.bind_panics, not_or, not_exists, not_and]
  constructor
  · cases valid : isValid [coin] with
    | false =>
        rw [Sdk.addCoins_of_invalid ctx.ledger recipient valid]
        simp [Outcome.Panics]
    | true =>
        rcases Sdk.addCoins_of_valid ctx.ledger recipient valid with ⟨ledger, added⟩
        rw [added]
        simp [Outcome.Panics]
  · intro ledger _
    exact changeIssuance_not_panics _ _ _

theorem burn_not_panics (safe : SubtractsSafely L) (ctx : Context L) (payer : Address)
    (coin : Coin) : ¬Outcome.Panics (burn ctx payer coin) := by
  simp only [burn, Outcome.bind_panics, not_or, not_exists, not_and]
  refine ⟨safe ctx.ledger payer [coin], ?_⟩
  intro ledger _
  exact changeIssuance_not_panics _ _ _

end Keeper

end TerraCore.Mint
