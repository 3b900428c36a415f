import TerraCore.Library.Lockstep
import TerraCore.Mint.History
import TerraCore.Oracle.Keeper

/-!
# Two states that differ in the issuance of one denomination

The first read of a denomination may come early or late. Two states are compared
that differ in the snapshots of one denomination only: in the `early` one they
were taken before, in the `late` one they may still be missing. Minting and
burning treat both states alike and keep the difference between the two
issuances, since a fresh count of the accounts already has what was minted or
burned in it.
-/

namespace TerraCore.Chain

open Lockstep Mint

variable {L : Type} [Sdk L]

/-- No snapshot of the denomination was taken, or the first one was; and the issuance covers the
coins in the accounts. -/
structure Covered (denom : Denom) (ctx : Context L) : Prop where
  dated : Dated ctx
  first : HasSnapshot ctx denom ∨ Unread ctx denom
  covers : supply ctx.ledger denom ≤ issuanceAt ctx denom ctx.today

/-- From `before` to `after` the issuance of the denomination in effect changes by `amount`. -/
structure Gains (denom : Denom) (amount : ℤ) (before after : Context L) : Prop where
  covered : Covered denom after
  snapshot : HasSnapshot before denom → HasSnapshot after denom
  issuance : (issuanceAt after denom after.today : ℤ) =
    issuanceAt before denom before.today + amount

/-- The coins of the accounts have changed by `delta`, and nothing of the issuance has. -/
structure Moved (denom : Denom) (delta : ℤ) (before after : Context L) : Prop where
  height : after.height = before.height
  mint : after.mint = before.mint
  accounts : (supply after.ledger denom : ℤ) = supply before.ledger denom + delta

variable {denom other : Denom} {delta : ℤ} {before moved after : Context L}

omit [Sdk L] in
theorem today_congr {first second : Context L} (same : second.height = first.height) :
    second.today = first.today := by
  rw [Context.today, Context.today, same]

omit [Sdk L] in
theorem dated_congr {first second : Context L} (sameHeight : second.height = first.height)
    (sameMint : second.mint = first.mint) (dated : Dated first) : Dated second := by
  rw [Dated, today_congr sameHeight, sameMint]
  exact dated

/-- Counting the accounts afresh sees the change, a snapshot does not. -/
theorem Moved.issuance (moves : Moved denom delta before moved) (covered : Covered denom before) :
    (HasSnapshot moved denom ∧
        issuanceAt moved denom moved.today = issuanceAt before denom before.today) ∨
      (Unread moved denom ∧ (issuanceAt moved denom moved.today : ℤ) =
        issuanceAt before denom before.today + delta) := by
  have sameDay := today_congr moves.height
  rcases covered.first with snapshot | unread
  · left
    refine ⟨by rw [HasSnapshot, moves.mint]; exact snapshot, ?_⟩
    rw [sameDay, issuanceAt_of_mint_eq snapshot moves.mint (today_nonneg before)]
  · right
    have stillUnread : Unread moved denom := by
      rw [Unread, moves.mint]
      exact unread
    refine ⟨stillUnread, ?_⟩
    rw [stillUnread.issuanceAt_eq (today_nonneg moved), unread.issuanceAt_eq (today_nonneg before),
      moves.accounts]

/-- What was added to or taken from the accounts can always be counted. -/
theorem Moved.changeIssuance_isOk (moves : Moved denom delta before moved)
    (covered : Covered denom before) : ∃ after, changeIssuance moved denom delta = .ok after := by
  simp only [changeIssuance]
  cases found : moved.mint.issuance[(denom, (0 : ℤ))]? with
  | none => exact ⟨_, rfl⟩
  | some genesis =>
      have enough : 0 ≤ (issuanceAt moved denom moved.today : ℤ) + delta := by
        have supplyMoved := moves.accounts
        have covers := covered.covers
        rcases moves.issuance covered with ⟨-, same⟩ | ⟨unread, -⟩
        · rw [same]
          omega
        · rw [unread 0 le_rfl] at found
          cases found
      refine ⟨_, if_neg ?_⟩
      exact not_lt.mpr enough

theorem Moved.gains (moves : Moved denom delta before moved) (covered : Covered denom before)
    (changed : changeIssuance moved denom delta = .ok after) :
    Gains denom delta before after ∧ HasSnapshot after denom := by
  have changes := changeIssuance_changes changed
  have movedDated := dated_congr moves.height moves.mint covered.dated
  have frame := changeIssuance_frame changed
  have afterSupply : supply after.ledger denom = supply moved.ledger denom := by rw [frame]
  have value : HasSnapshot after denom ∧ (issuanceAt after denom after.today : ℤ) =
      issuanceAt before denom before.today + delta := by
    rcases moves.issuance covered with ⟨snapshot, same⟩ | ⟨unread, counted⟩
    · refine ⟨changes.snapshot denom snapshot, ?_⟩
      rw [changes.issuance denom movedDated snapshot, same, only, if_pos rfl]
    · have afterEq : after = (getIssuance moved denom moved.today).2 := by
        simp only [changeIssuance, unread 0 le_rfl] at changed
        exact (Except.ok.inj changed).symm
      have begun := begun_of_first_read movedDated unread
      rw [← afterEq] at begun
      refine ⟨begun.hasSnapshot, ?_⟩
      rw [begun.issuanceAt_eq (today_nonneg after), ← counted,
        unread.issuanceAt_eq (today_nonneg moved)]
  refine ⟨⟨⟨changes.dated movedDated, Or.inl value.1, ?_⟩, fun _ => value.1, value.2⟩, value.1⟩
  have covers := covered.covers
  have supplyMoved := moves.accounts
  have issuance := value.2
  omega

/-- Reads and changes of another denomination leave this one alone. -/
theorem gains_of_sameSnapshots (covered : Covered denom before)
    (sameHeight : after.height = before.height)
    (sameLedger : supply after.ledger denom = supply before.ledger denom)
    (dated : Dated after)
    (same : ∀ day : ℤ, after.mint.issuance[(denom, day)]? = before.mint.issuance[(denom, day)]?) :
    Gains denom 0 before after := by
  have sameValue : issuanceAt after denom after.today = issuanceAt before denom before.today := by
    rw [issuanceAt_eq, issuanceAt_eq, today_congr sameHeight, sameLedger]
    exact lookBack_congr fun earlier _ => same earlier
  have sameFirst : HasSnapshot before denom → HasSnapshot after denom := by
    rintro ⟨genesis, present⟩
    exact ⟨genesis, (same 0).trans present⟩
  refine ⟨⟨dated, ?_, ?_⟩, sameFirst, by rw [sameValue, add_zero]⟩
  · rcases covered.first with snapshot | unread
    · exact Or.inl (sameFirst snapshot)
    · exact Or.inr fun day nonneg => (same day).trans (unread day nonneg)
  · rw [sameValue, sameLedger]
    exact covered.covers

/-- The states are the same except for the snapshots of one denomination. These exist in the
`early` state, whose issuance is `gap` above the one of the `late` state. Swap fees of the
denomination wait to be paid out only after its first snapshot, unless this is `excused`. -/
structure Apart (denom : Denom) (gap : ℤ) (excused : Prop) (late early : Context L) : Prop where
  frame : ∃ mint, early = { late with mint }
  agree : ∀ key : Denom × ℤ, key.1 ≠ denom →
    early.mint.issuance[key]? = late.mint.issuance[key]?
  lateCovered : Covered denom late
  earlyCovered : Covered denom early
  snapshot : HasSnapshot early denom
  gap : (issuanceAt early denom early.today : ℤ) = issuanceAt late denom late.today + gap
  fees : late.oracle.getSwapFeePool.amountOf denom ≠ 0 → HasSnapshot late denom ∨ excused

variable {gap : ℤ} {excused : Prop} {late early nextLate nextEarly : Context L}

/-- The gap stays when both issuances change by the same amount. -/
theorem Apart.gains {amount : ℤ} (apart : Apart denom gap excused late early)
    (lateGains : Gains denom amount late nextLate) (earlyGains : Gains denom amount early nextEarly)
    (frame : ∃ mint, nextEarly = { nextLate with mint })
    (agree : ∀ key : Denom × ℤ, key.1 ≠ denom →
      nextEarly.mint.issuance[key]? = nextLate.mint.issuance[key]?)
    (sameOracle : nextLate.oracle = late.oracle) :
    Apart denom gap excused nextLate nextEarly := by
  refine ⟨frame, agree, lateGains.covered, earlyGains.covered,
    earlyGains.snapshot apart.snapshot, ?_, ?_⟩
  · rw [earlyGains.issuance, lateGains.issuance, apart.gap]
    ring
  · intro waiting
    rw [sameOracle] at waiting
    exact (apart.fees waiting).imp_left lateGains.snapshot

/-- A call that keeps the height, the issuance and the coins of the accounts. -/
theorem Apart.framed {newlyExcused : Prop} (apart : Apart denom gap excused late early)
    (sameHeight : nextLate.height = late.height) (sameMint : nextLate.mint = late.mint)
    (sameSupply : supply nextLate.ledger denom = supply late.ledger denom)
    (fees : nextLate.oracle.getSwapFeePool.amountOf denom ≠ 0 →
      HasSnapshot late denom ∨ newlyExcused) :
    Apart denom gap newlyExcused nextLate { nextLate with mint := early.mint } := by
  rcases apart.frame with ⟨mint, rfl⟩
  have lateDated := dated_congr sameHeight sameMint apart.lateCovered.dated
  have earlyDated : Dated { nextLate with mint } := by
    refine dated_congr ?_ ?_ apart.earlyCovered.dated
    · exact sameHeight
    · rfl
  have lateGains := gains_of_sameSnapshots apart.lateCovered sameHeight sameSupply lateDated
    fun day => by rw [sameMint]
  have earlyGains : Gains denom 0 { late with mint } { nextLate with mint } :=
    gains_of_sameSnapshots apart.earlyCovered sameHeight sameSupply earlyDated fun _ => rfl
  refine ⟨⟨mint, rfl⟩, ?_, lateGains.covered, earlyGains.covered,
    earlyGains.snapshot apart.snapshot, ?_, ?_⟩
  · intro key different
    rw [sameMint]
    exact apart.agree key different
  · rw [earlyGains.issuance, lateGains.issuance, apart.gap]
    ring
  · intro waiting
    exact (fees waiting).imp_left lateGains.snapshot

theorem readIssuance_agree (accountTotal : ℕ) (different : other ≠ denom)
    {lateMint earlyMint : MintStore}
    (agree : ∀ key : Denom × ℤ, key.1 ≠ denom →
      earlyMint.issuance[key]? = lateMint.issuance[key]?) (earlier : ℕ) (day : ℤ) :
    (readIssuance accountTotal other earlier day earlyMint).1 =
        (readIssuance accountTotal other earlier day lateMint).1 ∧
      ∀ key : Denom × ℤ, key.1 ≠ denom →
        (readIssuance accountTotal other earlier day earlyMint).2.issuance[key]? =
          (readIssuance accountTotal other earlier day lateMint).2.issuance[key]? := by
  induction earlier generalizing day with
  | zero =>
      simp only [readIssuance, agree (other, day) different]
      cases lateMint.issuance[(other, day)]? with
      | some issuance => exact ⟨rfl, agree⟩
      | none =>
          refine ⟨rfl, fun key keyDifferent => ?_⟩
          rw [Store.get_insert, Store.get_insert, agree key keyDifferent]
  | succ earlier ih =>
      rcases ih (day - 1) with ⟨sameValue, sameStore⟩
      simp only [readIssuance, agree (other, day) different]
      cases lateMint.issuance[(other, day)]? with
      | some issuance => exact ⟨rfl, agree⟩
      | none =>
          refine ⟨sameValue, fun key keyDifferent => ?_⟩
          rw [Store.get_insert, Store.get_insert, sameValue, sameStore key keyDifferent]

theorem getIssuance_gains (covered : Covered denom before) (different : other ≠ denom) {day : ℤ}
    (past : day ≤ before.today) : Gains denom 0 before (getIssuance before other day).2 := by
  refine gains_of_sameSnapshots covered rfl rfl (covered.dated.getIssuance other past) ?_
  intro earlier
  rcases getIssuance_get before other day (denom, earlier) with same | ⟨_, sameDenom, _⟩
  · exact same
  · exact absurd sameDenom.symm different

theorem Apart.getIssuance (apart : Apart denom gap excused late early) (different : other ≠ denom)
    {day : ℤ} (past : day ≤ late.today) :
    (getIssuance early other day).1 = (getIssuance late other day).1 ∧
      Apart denom gap excused (getIssuance late other day).2 (getIssuance early other day).2 := by
  have lateGains := getIssuance_gains apart.lateCovered different past
  rcases apart.frame with ⟨mint, rfl⟩
  have earlyGains := getIssuance_gains apart.earlyCovered different past
  have same := readIssuance_agree (supply late.ledger other) different apart.agree day.toNat day
  exact ⟨same.1, apart.gains lateGains earlyGains ⟨_, rfl⟩ same.2 rfl⟩

theorem setIssuance_gains (covered : Covered denom before) (different : other ≠ denom)
    (issuance : ℕ) : Gains denom 0 before (setIssuance before other before.today issuance) := by
  refine gains_of_sameSnapshots covered rfl rfl
    ((setIssuance_changes before other issuance).dated covered.dated) ?_
  intro day
  rw [setIssuance_get, if_neg fun same => different (Prod.ext_iff.mp same).1]

theorem Apart.setIssuance (apart : Apart denom gap excused late early) (different : other ≠ denom)
    (issuance : ℕ) :
    Apart denom gap excused (setIssuance late other late.today issuance)
      (setIssuance early other early.today issuance) := by
  have lateGains := setIssuance_gains apart.lateCovered different issuance
  have earlyGains := setIssuance_gains apart.earlyCovered different issuance
  rcases apart.frame with ⟨mint, rfl⟩
  refine apart.gains lateGains earlyGains ⟨_, rfl⟩ ?_ rfl
  intro key keyDifferent
  rw [setIssuance_get, setIssuance_get, apart.agree key keyDifferent]
  rfl

/-- A change of another denomination. -/
theorem Apart.changeIssuance (apart : Apart denom gap excused late early) (different : other ≠ denom)
    (delta : ℤ) :
    Related (Apart denom gap excused) (changeIssuance late other delta)
      (changeIssuance early other delta) := by
  have sameDay : early.today = late.today := by
    rcases apart.frame with ⟨mint, rfl⟩
    rfl
  rcases apart.getIssuance different (le_refl late.today) with ⟨sameValue, readApart⟩
  simp only [Mint.changeIssuance, apart.agree (other, 0) different, sameDay, sameValue]
  cases late.mint.issuance[(other, (0 : ℤ))]? with
  | none => exact .ok readApart
  | some genesis =>
      simp only
      split
      · exact .error _
      · have written := readApart.setIssuance different
          ((Mint.getIssuance late other late.today).1 + delta : ℤ).toNat
        have readDay : (Mint.getIssuance early other late.today).2.today = late.today := sameDay
        rw [readDay] at written
        exact .ok written

/-- A change of the denomination itself writes no other snapshots. -/
theorem changeIssuance_agree {lateAfter earlyAfter : Context L}
    (frame : ∃ mint, early = { late with mint })
    (agree : ∀ key : Denom × ℤ, key.1 ≠ denom →
      early.mint.issuance[key]? = late.mint.issuance[key]?)
    (lateChanged : Mint.changeIssuance late denom delta = .ok lateAfter)
    (earlyChanged : Mint.changeIssuance early denom delta = .ok earlyAfter) :
    (∃ mint, earlyAfter = { lateAfter with mint }) ∧
      ∀ key : Denom × ℤ, key.1 ≠ denom →
        earlyAfter.mint.issuance[key]? = lateAfter.mint.issuance[key]? := by
  constructor
  · rcases frame with ⟨mint, rfl⟩
    refine ⟨earlyAfter.mint, ?_⟩
    rw [changeIssuance_frame earlyChanged, changeIssuance_frame lateChanged]
  · intro key different
    have untouched : ∀ {start finish : Context L},
        Mint.changeIssuance start denom delta = .ok finish →
          finish.mint.issuance[key]? = start.mint.issuance[key]? := by
      intro start finish changed
      have readKey : (Mint.getIssuance start denom start.today).2.mint.issuance[key]? =
          start.mint.issuance[key]? := by
        rcases getIssuance_get start denom start.today key with same | ⟨_, sameDenom, _⟩
        · exact same
        · exact absurd sameDenom different
      rcases changeIssuance_cases changed with ⟨_, rfl⟩ | ⟨_, _, rfl⟩
      · exact readKey
      · rw [setIssuance_get, if_neg fun same => different (Prod.ext_iff.mp same).1.symm]
        exact readKey
    rw [untouched earlyChanged, untouched lateChanged]
    exact agree key different

/-- Coins of the accounts have changed, and the change is counted. -/
theorem Apart.changeIssuance_moved (apart : Apart denom gap excused late early)
    (lateMoved : Moved denom delta late nextLate) (earlyMoved : Moved denom delta early nextEarly)
    (frame : ∃ mint, nextEarly = { nextLate with mint })
    (sameOracle : nextLate.oracle = late.oracle) :
    Related (fun afterLate afterEarly =>
        Apart denom gap excused afterLate afterEarly ∧ HasSnapshot afterLate denom)
      (Mint.changeIssuance nextLate denom delta) (Mint.changeIssuance nextEarly denom delta) := by
  rcases lateMoved.changeIssuance_isOk apart.lateCovered with ⟨afterLate, lateChanged⟩
  rcases earlyMoved.changeIssuance_isOk apart.earlyCovered with ⟨afterEarly, earlyChanged⟩
  rcases lateMoved.gains apart.lateCovered lateChanged with ⟨lateGains, lateSnapshot⟩
  have earlyGains := (earlyMoved.gains apart.earlyCovered earlyChanged).1
  have agreeMoved : ∀ key : Denom × ℤ, key.1 ≠ denom →
      nextEarly.mint.issuance[key]? = nextLate.mint.issuance[key]? := by
    rw [earlyMoved.mint, lateMoved.mint]
    exact apart.agree
  rcases changeIssuance_agree frame agreeMoved lateChanged earlyChanged with ⟨afterFrame, afterAgree⟩
  rw [lateChanged, earlyChanged]
  refine .ok ⟨apart.gains lateGains earlyGains afterFrame afterAgree ?_, lateSnapshot⟩
  rw [changeIssuance_frame lateChanged]
  exact sameOracle

/-- Coins that never reach an account are added to the snapshot. -/
theorem changeIssuance_gains_of_snapshot (covered : Covered denom before)
    (snapshot : HasSnapshot before denom) (nonneg : 0 ≤ delta) :
    ∃ after, Mint.changeIssuance before denom delta = .ok after ∧
      Gains denom delta before after := by
  rcases snapshot with ⟨genesis, present⟩
  have enough : ¬(issuanceAt before denom before.today : ℤ) + delta < 0 := by omega
  have isOk : ∃ after, Mint.changeIssuance before denom delta = .ok after := by
    simp only [Mint.changeIssuance, present]
    exact ⟨_, if_neg enough⟩
  rcases isOk with ⟨after, changed⟩
  have changes := changeIssuance_changes changed
  have afterSnapshot := changes.snapshot denom ⟨genesis, present⟩
  have value := changes.issuance denom covered.dated ⟨genesis, present⟩
  rw [only, if_pos rfl] at value
  have sameSupply : supply after.ledger denom = supply before.ledger denom := by
    rw [changeIssuance_frame changed]
  have covers := covered.covers
  refine ⟨after, changed, ⟨changes.dated covered.dated, Or.inl afterSnapshot, ?_⟩,
    fun _ => afterSnapshot, value⟩
  omega

theorem Apart.changeIssuance_of_snapshot (apart : Apart denom gap excused late early)
    (snapshot : HasSnapshot late denom) (nonneg : 0 ≤ delta) :
    Related (Apart denom gap excused) (Mint.changeIssuance late denom delta)
      (Mint.changeIssuance early denom delta) := by
  rcases changeIssuance_gains_of_snapshot apart.lateCovered snapshot nonneg with
    ⟨afterLate, lateChanged, lateGains⟩
  rcases changeIssuance_gains_of_snapshot apart.earlyCovered apart.snapshot nonneg with
    ⟨afterEarly, earlyChanged, earlyGains⟩
  rcases changeIssuance_agree apart.frame apart.agree lateChanged earlyChanged with
    ⟨frame, agree⟩
  rw [lateChanged, earlyChanged]
  exact .ok (apart.gains lateGains earlyGains frame agree (by rw [changeIssuance_frame lateChanged]))

/-- After the coins of an account have changed, the change is counted in both states alike. -/
theorem Apart.countCoin (apart : Apart denom gap excused late early) (notLuna : denom ≠ microLunaDenom)
    {ledger : L} {coinDenom : Denom}
    (changed : ∀ each, (supply ledger each : ℤ) =
      supply late.ledger each + only coinDenom delta each) :
    Related (fun afterLate afterEarly => Apart denom gap excused afterLate afterEarly ∧
        (coinDenom = denom → HasSnapshot afterLate denom))
      (Mint.changeIssuance (changeNotBonded { late with ledger } coinDenom delta) coinDenom delta)
      (Mint.changeIssuance (changeNotBonded { early with ledger } coinDenom delta) coinDenom
        delta) := by
  rcases apart.frame with ⟨mint, rfl⟩
  by_cases here : coinDenom = denom
  · subst here
    have sameCoins : ∀ ctx : Context L, changeNotBonded ctx coinDenom delta = ctx := by
      intro ctx
      rw [changeNotBonded, if_neg notLuna]
    have more := changed coinDenom
    rw [only, if_pos rfl] at more
    have lateMoved : Moved coinDenom delta late { late with ledger } := ⟨rfl, rfl, more⟩
    have earlyMoved : Moved coinDenom delta { late with mint } { { late with mint } with ledger } :=
      ⟨rfl, rfl, more⟩
    rw [sameCoins, sameCoins]
    refine (apart.changeIssuance_moved lateMoved earlyMoved ⟨mint, rfl⟩ rfl).mono ?_
    intro afterLate afterEarly both
    exact ⟨both.1, fun _ => both.2⟩
  · have same := changed denom
    rw [only, if_neg here, add_zero] at same
    have sameSupply : supply ledger denom = supply late.ledger denom := by exact_mod_cast same
    have coinsApart : Apart denom gap excused (changeNotBonded { late with ledger } coinDenom delta)
        (changeNotBonded { { late with mint } with ledger } coinDenom delta) := by
      simp only [changeNotBonded]
      split
      · exact apart.framed rfl rfl sameSupply apart.fees
      · exact apart.framed rfl rfl sameSupply apart.fees
    refine (coinsApart.changeIssuance here delta).mono ?_
    intro afterLate afterEarly both
    exact ⟨both, fun isDenom => absurd isDenom here⟩

theorem Apart.mint (apart : Apart denom gap excused late early) (notLuna : denom ≠ microLunaDenom)
    (recipient : Address) (coin : Coin) :
    Related (fun afterLate afterEarly => Apart denom gap excused afterLate afterEarly ∧
        (coin.denom = denom → HasSnapshot afterLate denom))
      (mint late recipient coin) (mint early recipient coin) := by
  have sameLedger : early.ledger = late.ledger := by
    rcases apart.frame with ⟨mint, rfl⟩
    rfl
  simp only [Mint.mint, sameLedger]
  cases added : Sdk.addCoins late.ledger recipient [coin] with
  | error failure => exact .error failure
  | ok ledger =>
      refine apart.countCoin notLuna ?_
      intro each
      rw [(Sdk.addCoins_moves added).supply, creditedTotal_single]
      simp

theorem Apart.burn (apart : Apart denom gap excused late early) (notLuna : denom ≠ microLunaDenom)
    (payer : Address) (coin : Coin) :
    Related (Apart denom gap excused) (burn late payer coin) (burn early payer coin) := by
  have sameLedger : early.ledger = late.ledger := by
    rcases apart.frame with ⟨mint, rfl⟩
    rfl
  simp only [Mint.burn, sameLedger]
  cases subtracted : Sdk.subtractCoins late.ledger payer [coin] with
  | error failure => exact .error failure
  | ok ledger =>
      refine (apart.countCoin notLuna ?_).mono fun _ _ both => both.1
      intro each
      rw [(Sdk.subtractCoins_moves subtracted).supply, creditedTotal_single]
      simp only [only, creditedTotal_nil, add_zero]
      split <;> ring

end TerraCore.Chain
