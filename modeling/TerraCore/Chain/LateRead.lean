import TerraCore.Chain.Closing

/-!
# Late reads

The issuance of a denomination is counted in the accounts when it is first read.
Only that of Luna is read at genesis. For any other denomination two runs of the
same events are compared here, one in which the denomination is read right after
genesis as well. They end with the same issuance exactly when no tax in the
denomination was collected before its first snapshot: by then the tax has left
the accounts, and the count misses it.
-/

namespace TerraCore.Chain

open Lockstep Mint Transition

variable {L : Type} [Sdk L] {denom : Denom} {gap : ℤ} {late early : Context L}

theorem covered_succ {ctx : Context L} (covered : Covered denom ctx) :
    Covered denom { ctx with height := ctx.height + 1 } ∧
      issuanceAt { ctx with height := ctx.height + 1 } denom
        { ctx with height := ctx.height + 1 }.today = issuanceAt ctx denom ctx.today := by
  have later : issuanceAt { ctx with height := ctx.height + 1 } denom
      { ctx with height := ctx.height + 1 }.today = issuanceAt ctx denom ctx.today :=
    issuanceAt_of_later covered.dated denom (today_advance ctx 1)
  refine ⟨⟨dated_advance covered.dated 1, covered.first, ?_⟩, later⟩
  rw [later]
  exact covered.covers

theorem Apart.succ (apart : Apart denom gap False late early) :
    Apart denom gap False { late with height := late.height + 1 }
      { early with height := early.height + 1 } := by
  rcases covered_succ apart.lateCovered with ⟨lateCovered, sameLate⟩
  rcases covered_succ apart.earlyCovered with ⟨earlyCovered, sameEarly⟩
  refine ⟨?_, apart.agree, lateCovered, earlyCovered, apart.snapshot, ?_, apart.fees⟩
  · rcases apart.frame with ⟨mint, rfl⟩
    exact ⟨mint, rfl⟩
  · rw [sameLate, sameEarly]
    exact apart.gap

/-- An event of the chain itself. -/
def IsOwn : Block.Event L → Prop
  | .elsewhere _ => False
  | _ => True

/-- The update depends on the height and on the accounts. -/
theorem Apart.updateEndBlocker (apart : Apart denom gap False late early)
    (accountKeeper : Update.AccountKeeper) :
    Related (fun nextLate nextEarly => Apart denom gap False nextLate.2.1 nextEarly.2.1)
      (Update.endBlocker accountKeeper late) (Update.endBlocker accountKeeper early) := by
  rcases apart.frame with ⟨mint, rfl⟩
  simp only [Update.endBlocker, Update.update230000]
  split
  · exact .ok apart
  · simp only [bind_assoc]
    refine (Related.same _).bind ?_
    rintro updated _ rfl
    exact .ok (apart.framed rfl rfl rfl apart.fees)

theorem Apart.endBlock (apart : Apart denom gap False late early)
    (notLuna : denom ≠ microLunaDenom) (order : Oracle.MapOrder)
    (accountKeeper : Update.AccountKeeper) :
    Related (Apart denom gap False) (Block.endBlock order accountKeeper late)
      (Block.endBlock order accountKeeper early) := by
  have closed : Related (Apart denom gap False) (Block.closing order late)
      (Block.closing order early) := by
    refine (apart.oracleEndBlocker order).bind ?_
    rintro ⟨_, talliedLate⟩ ⟨tags, talliedEarly⟩ ⟨rfl, talliedApart⟩
    refine (talliedApart.budgetEndBlocker notLuna).bind ?_
    rintro ⟨_, budgetLate⟩ ⟨tags, budgetEarly⟩ ⟨rfl, budgetApart⟩
    exact .ok budgetApart
  refine closed.bind ?_
  intro closedLate closedEarly closedApart
  refine (closedApart.treasuryEndBlocker notLuna).bind ?_
  rintro ⟨_, updatedLate⟩ ⟨tags, updatedEarly⟩ ⟨rfl, updatedApart⟩
  refine (updatedApart.updateEndBlocker accountKeeper).bind ?_
  rintro ⟨_, plannedLate, _⟩ ⟨_, plannedEarly, _⟩ plannedApart
  exact .ok plannedApart.succ

/-- Both chains halt, or both go on. -/
theorem Apart.step_cases (apart : Apart denom gap False late early)
    (notLuna : denom ≠ microLunaDenom) {event : Block.Event L} (own : IsOwn event) :
    (Block.step late event = none ∧ Block.step early event = none) ∨
      ∃ nextLate nextEarly, Block.step late event = some nextLate ∧
        Block.step early event = some nextEarly ∧
        Apart denom (gap + unreadTax denom late event) False nextLate nextEarly := by
  cases event with
  | deliver msg => exact Or.inr ⟨_, _, rfl, rfl, apart.deliver notLuna msg⟩
  | elsewhere environment => cases own
  | endBlock order accountKeeper =>
      have nothing : unreadTax denom late (.endBlock order accountKeeper) = 0 := ite_self 0
      rw [nothing, add_zero]
      rcases (apart.endBlock notLuna order accountKeeper).cases_eq with
        ⟨nextLate, nextEarly, lateDone, earlyDone, next⟩ | ⟨failure, lateFailed, earlyFailed⟩
      · exact Or.inr ⟨nextLate, nextEarly, by rw [Block.step, lateDone],
          by rw [Block.step, earlyDone], next⟩
      · exact Or.inl ⟨by rw [Block.step, lateFailed], by rw [Block.step, earlyFailed]⟩

/-- The taxes of a run that come before the first snapshot of the denomination. -/
def unreadTaxes (denom : Denom) : Context L → List (Block.Event L) → ℤ
  | _, [] => 0
  | ctx, event :: events =>
      unreadTax denom ctx event +
        match Block.step ctx event with
        | some next => unreadTaxes denom next events
        | none => 0

theorem unreadTax_nonneg (denom : Denom) (ctx : Context L) (event : Block.Event L) :
    0 ≤ unreadTax denom ctx event := by
  simp only [unreadTax]
  split
  · cases event with
    | deliver msg =>
        simp only [Block.taxCollected]
        split
        · next done handled =>
            by_cases transfer : Block.IsTransfer msg
            · exact taxes_nonneg transfer handled denom
            · rw [Block.transferInputs_of_not_transfer transfer]
              exact le_rfl
        · exact le_rfl
    | elsewhere environment => exact le_rfl
    | endBlock order accountKeeper => exact le_rfl
  · exact le_rfl

theorem unreadTaxes_nonneg (denom : Denom) (ctx : Context L) (events : List (Block.Event L)) :
    0 ≤ unreadTaxes denom ctx events := by
  induction events generalizing ctx with
  | nil => exact le_rfl
  | cons event events ih =>
      have first := unreadTax_nonneg denom ctx event
      simp only [unreadTaxes]
      cases Block.step ctx event with
      | none => simpa using first
      | some next => exact add_nonneg first (ih next)

/-- Nothing is missed exactly when no step misses anything. -/
theorem unreadTaxes_eq_zero_iff (denom : Denom) (ctx : Context L) (events : List (Block.Event L)) :
    unreadTaxes denom ctx events = 0 ↔
      Along Block.step (fun state event => unreadTax denom state event = 0) ctx events := by
  induction events generalizing ctx with
  | nil => exact iff_of_true rfl trivial
  | cons event events ih =>
      have first := unreadTax_nonneg denom ctx event
      simp only [unreadTaxes, Along]
      cases taken : Block.step ctx event with
      | none => simp
      | some next =>
          have rest := unreadTaxes_nonneg denom next events
          simp only [Option.some.injEq, forall_eq', ← ih next]
          omega

/-- The gap between two runs of the same events grows by the taxes that the late one misses. -/
theorem Apart.run (apart : Apart denom gap False late early) (notLuna : denom ≠ microLunaDenom)
    {events : List (Block.Event L)} (own : ∀ event ∈ events, IsOwn event) :
    (∀ lateEnd, Reaches Block.step late events lateEnd →
        ∃ earlyEnd, Reaches Block.step early events earlyEnd ∧
          Apart denom (gap + unreadTaxes denom late events) False lateEnd earlyEnd) ∧
      ∀ earlyEnd, Reaches Block.step early events earlyEnd →
        ∃ lateEnd, Reaches Block.step late events lateEnd := by
  induction events generalizing gap late early with
  | nil =>
      refine ⟨?_, fun _ _ => ⟨late, .refl⟩⟩
      intro lateEnd reached
      rw [reached.eq_of_nil, unreadTaxes, add_zero]
      exact ⟨early, .refl, apart⟩
  | cons event events ih =>
      have ownRest : ∀ other ∈ events, IsOwn other :=
        fun other otherMem => own other (List.mem_cons_of_mem _ otherMem)
      rcases apart.step_cases notLuna (own event List.mem_cons_self) with
        ⟨lateHalts, earlyHalts⟩ | ⟨nextLate, nextEarly, lateTaken, earlyTaken, next⟩
      · constructor
        · intro lateEnd reached
          rcases reached.of_cons with ⟨_, taken, -⟩
          rw [lateHalts] at taken
          cases taken
        · intro earlyEnd reached
          rcases reached.of_cons with ⟨_, taken, -⟩
          rw [earlyHalts] at taken
          cases taken
      · rcases ih next ownRest with ⟨forward, backward⟩
        constructor
        · intro lateEnd reached
          rcases reached.of_cons with ⟨_, taken, rest⟩
          cases lateTaken.symm.trans taken
          rcases forward lateEnd rest with ⟨earlyEnd, earlyRest, ends⟩
          refine ⟨earlyEnd, .cons earlyTaken earlyRest, ?_⟩
          simp only [unreadTaxes, lateTaken]
          rw [← add_assoc]
          exact ends
        · intro earlyEnd reached
          rcases reached.of_cons with ⟨_, taken, rest⟩
          cases earlyTaken.symm.trans taken
          rcases backward earlyEnd rest with ⟨lateEnd, lateRest⟩
          exact ⟨lateEnd, .cons lateTaken lateRest⟩

/-- The chain after `initChainer`: nothing was counted before but the issuance of Luna. -/
structure Genesis (start : Context L) : Prop where
  lunaRead : ∃ fresh : Context L, (∀ key : Denom × ℤ, fresh.mint.issuance[key]? = none) ∧
    start = (getIssuance fresh microLunaDenom 0).2
  height : start.height = 0
  noFees : start.oracle.swapFeePool = none

theorem Genesis.unread {start : Context L} (genesis : Genesis start)
    (notLuna : denom ≠ microLunaDenom) : Unread start denom := by
  rcases genesis.lunaRead with ⟨fresh, nothing, rfl⟩
  intro day _
  rcases getIssuance_get fresh microLunaDenom 0 (denom, day) with same | ⟨-, isLuna, -⟩
  · exact same.trans (nothing (denom, day))
  · exact absurd isLuna notLuna

theorem Genesis.dated {start : Context L} (genesis : Genesis start) : Dated start := by
  rcases genesis.lunaRead with ⟨fresh, nothing, rfl⟩
  have freshDated : Dated fresh := by
    intro key issuance present
    rw [nothing key] at present
    cases present
  exact freshDated.getIssuance microLunaDenom (today_nonneg fresh)

/-- Right after genesis the two chains differ in nothing but the snapshot. -/
theorem Genesis.apart {start : Context L} (genesis : Genesis start)
    (notLuna : denom ≠ microLunaDenom) :
    Apart denom 0 False start (getIssuance start denom 0).2 := by
  have unread := genesis.unread notLuna
  have isFirstDay : start.today = 0 := by
    rw [Context.today, genesis.height]
    rfl
  have begun := begun_of_first_read genesis.dated unread
  rw [isFirstDay] at begun
  have counted : issuanceAt start denom start.today = supply start.ledger denom :=
    unread.issuanceAt_eq (today_nonneg start)
  have sameIssuance : issuanceAt (getIssuance start denom 0).2 denom
      (getIssuance start denom 0).2.today = issuanceAt start denom start.today :=
    issuanceAt_getIssuance start denom denom 0 start.today
  refine ⟨⟨_, rfl⟩, ?_, ⟨genesis.dated, Or.inr unread, counted.ge⟩,
    ⟨genesis.dated.getIssuance denom (today_nonneg start), Or.inl begun.hasSnapshot, ?_⟩,
    begun.hasSnapshot, by rw [sameIssuance, add_zero], ?_⟩
  · intro key different
    rcases getIssuance_get start denom 0 key with same | ⟨-, isDenom, -⟩
    · exact same
    · exact absurd isDenom different
  · rw [sameIssuance, counted]
    exact le_rfl
  · intro waiting
    simp [OracleStore.getSwapFeePool, genesis.noFees] at waiting

/-- Reading Luna once more does nothing. -/
theorem Genesis.read_luna {start : Context L} (genesis : Genesis start) :
    (getIssuance start microLunaDenom 0).2 = start := by
  rcases genesis.lunaRead with ⟨fresh, nothing, rfl⟩
  have present : (getIssuance fresh microLunaDenom 0).2.mint.issuance[(microLunaDenom, (0 : ℤ))]? =
      some (supply fresh.ledger microLunaDenom) := by
    simp [getIssuance, readIssuance, nothing]
  generalize (getIssuance fresh microLunaDenom 0).2 = start at present
  simp only [getIssuance, Int.toNat_zero, readIssuance, present]

/-- The event collects a tax in a denomination whose issuance was never read. Luna's was. -/
def TaxedUnread (denom : Denom) (ctx : Context L) (event : Block.Event L) : Prop :=
  denom ≠ microLunaDenom ∧ ctx.mint.issuance[(denom, (0 : ℤ))]? = none ∧
    Block.taxCollected ctx event denom ≠ 0

instance (denom : Denom) (ctx : Context L) (event : Block.Event L) :
    Decidable (TaxedUnread denom ctx event) :=
  inferInstanceAs (Decidable (_ ∧ _ ∧ _))

theorem along_not_taxedUnread_iff (notLuna : denom ≠ microLunaDenom) (start : Context L)
    (events : List (Block.Event L)) :
    Along Block.step (fun ctx event => ¬TaxedUnread denom ctx event) start events ↔
      unreadTaxes denom start events = 0 := by
  rw [unreadTaxes_eq_zero_iff]
  apply along_congr
  intro ctx event
  simp [TaxedUnread, unreadTax, notLuna]

/-- For every denomination and every run of the chain from genesis, reading the
denomination right after genesis makes no difference to whether the run is possible. It
makes none to the issuance at its end exactly when no event of the run collects a tax in
the denomination before its issuance was first read. -/
theorem late_read_iff {start : Context L} (genesis : Genesis start) (denom : Denom)
    {events : List (Block.Event L)} (own : ∀ event ∈ events, IsOwn event) :
    ((∃ late, Reaches Block.step start events late) ↔
        ∃ early, Reaches Block.step (getIssuance start denom 0).2 events early) ∧
      ∀ late early, Reaches Block.step start events late →
        Reaches Block.step (getIssuance start denom 0).2 events early →
        ((getIssuance late denom late.today).1 = (getIssuance early denom early.today).1 ↔
          Along Block.step (fun ctx event => ¬TaxedUnread denom ctx event) start events) := by
  by_cases isLuna : denom = microLunaDenom
  · subst isLuna
    rw [genesis.read_luna]
    refine ⟨Iff.rfl, ?_⟩
    intro late early lateReached earlyReached
    rw [lateReached.unique earlyReached]
    refine iff_of_true rfl (along_of_forall ?_ start)
    rintro event - ctx ⟨notLuna, -⟩
    exact notLuna rfl
  · rcases (genesis.apart isLuna).run isLuna own with ⟨forward, backward⟩
    constructor
    · constructor
      · rintro ⟨late, reached⟩
        rcases forward late reached with ⟨early, earlyReached, -⟩
        exact ⟨early, earlyReached⟩
      · rintro ⟨early, reached⟩
        exact backward early reached
    · intro late early lateReached earlyReached
      rcases forward late lateReached with ⟨other, otherReached, apart⟩
      cases otherReached.unique earlyReached
      have gap := apart.gap
      rw [zero_add] at gap
      change issuanceAt late denom late.today = issuanceAt early denom early.today ↔ _
      rw [along_not_taxedUnread_iff isLuna]
      omega

/-- A chain at genesis, with an account that holds two thousand SDR. -/
def sampleGenesis : Context Book := (getIssuance samplePayer microLunaDenom 0).2

theorem sampleGenesis_genesis : Genesis sampleGenesis :=
  ⟨⟨samplePayer, fun key => Store.get_empty key, rfl⟩, rfl, rfl⟩

/-- The account sends an amount of SDR. -/
def sampleTransfer (amount : ℤ) : List (Block.Event Book) :=
  [.deliver (.send { samplePayment with amount := [⟨microSDRDenom, amount⟩] })]

theorem sampleTransfer_own (amount : ℤ) : ∀ event ∈ sampleTransfer amount, IsOwn event := by
  simp [sampleTransfer, IsOwn]

/-- The tax on a hundred units is rounded down to nothing. -/
theorem late_read_iff_untaxed :
    ∃ late early : Context Book, Reaches Block.step sampleGenesis (sampleTransfer 100) late ∧
      Reaches Block.step (getIssuance sampleGenesis microSDRDenom 0).2 (sampleTransfer 100) early ∧
      (getIssuance late microSDRDenom late.today).1 =
        (getIssuance early microSDRDenom early.today).1 := by
  have compared := late_read_iff sampleGenesis_genesis microSDRDenom (sampleTransfer_own 100)
  have lateReached : ∃ late, Reaches Block.step sampleGenesis (sampleTransfer 100) late :=
    ⟨_, .single rfl⟩
  rcases lateReached with ⟨late, lateReached⟩
  rcases compared.1.mp ⟨late, lateReached⟩ with ⟨early, earlyReached⟩
  refine ⟨late, early, lateReached, earlyReached,
    (compared.2 late early lateReached earlyReached).mpr ?_⟩
  decide +kernel

/-- Half an SDR of tax has left the account before SDR is first counted, which the early
count still has. -/
theorem late_read_misses_tax :
    Genesis sampleGenesis ∧ (∀ event ∈ sampleTransfer 500000000, IsOwn event) ∧
      ∃ late early : Context Book,
        Reaches Block.step sampleGenesis (sampleTransfer 500000000) late ∧
        Reaches Block.step (getIssuance sampleGenesis microSDRDenom 0).2
          (sampleTransfer 500000000) early ∧
        (getIssuance late microSDRDenom late.today).1 = 1999500000 ∧
        (getIssuance early microSDRDenom early.today).1 = 2000000000 := by
  refine ⟨sampleGenesis_genesis, sampleTransfer_own _, _, _, .single rfl, .single rfl, ?_, ?_⟩
  · decide +kernel
  · decide +kernel

end TerraCore.Chain
