import TerraCore.Chain.Supply

/-!
# The daily cap on Luna swaps

A swap is refused when it would move the Luna issuance too far from that of the
day before. The check is made on the gross amount of the swap, while the fee is
only issued when the oracle pays it out. The invariant of a day is therefore on
the issuance without the fees: at every point of the day it is within the cap.
-/

namespace TerraCore.Chain

open Mint Transition

variable {L : Type} [Sdk L]

/-- The Luna issuance of today. -/
def currentLuna (ctx : Context L) : ℤ := issuanceAt ctx microLunaDenom ctx.today

/-- The Luna issuance of the day before. -/
def previousLuna (ctx : Context L) : ℤ := issuanceAt ctx microLunaDenom (ctx.today - 1)

/-- The chain and the Luna that the oracle has issued as swap fees since the day began. -/
structure Day (L : Type) where
  ctx : Context L
  issuedFees : ℤ

def dayStep (day : Day L) (action : Action) : Option (Day L) :=
  (step day.ctx action).map fun after => ⟨after, day.issuedFees + lunaPayout day.ctx action⟩

/-- The actions of the budget module. -/
def IsBudget : Action → Prop
  | .deliver (.submitProgram _) => True
  | .deliver (.withdrawProgram _) => True
  | .deliver (.voteProgram _) => True
  | .budgetEndBlocker => True
  | _ => False

/-- The action stays within the day, and the budget neither burns nor pays Luna. -/
def Intraday (day : Day L) (action : Action) : Prop :=
  ∀ after, step day.ctx action = some after →
    after.today = day.ctx.today ∧ (IsBudget action → currentLuna after = currentLuna day.ctx)

/-- The block with which a new day begins. -/
def morning (evening : Context L) (blocks : ℕ) : Context L :=
  { evening with height := evening.height + blocks }

/-- The issuance is within the cap of the issuance of the day before. -/
def Allowed (ctx : Context L) (issuance : ℤ) : Prop :=
  |issuance - previousLuna ctx| * Dec.precision <
    (ctx.market.dailyLunaDeltaCap.raw + 1) * previousLuna ctx

theorem allowed_of_computeLunaDelta {ctx : Context L} (notFirst : ctx.today ≠ 0)
    (positive : 0 < previousLuna ctx) {change : ℤ}
    (within : (Market.computeLunaDelta ctx change).1.abs ≤ ctx.market.dailyLunaDeltaCap) :
    Allowed ctx (currentLuna ctx + change) := by
  have someIssuance : issuanceAt ctx microLunaDenom (ctx.today - 1) ≠ 0 := by
    intro none
    rw [previousLuna, none] at positive
    exact lt_irrefl _ positive
  rw [Market.computeLunaDelta_fst ctx change notFirst someIssuance] at within
  have bound := Rounding.abs_lt_of_tdiv_le positive within
  rw [Dec.ofInt, abs_mul, abs_of_pos Dec.precision_pos] at bound
  exact bound

/-- A swap moves the issuance to a value that the cap allows, or not further
than towards one. -/
theorem handleMsgSwap_luna {before after : Context L} {msg : Market.MsgSwap} {result : Result}
    (handled : Market.handleMsgSwap before msg = .ok (result, after))
    (counted : Counted microLunaDenom before) (notFirst : before.today ≠ 0)
    (positive : 0 < previousLuna before) :
    ∃ peak, (Allowed before peak ∨ peak = currentLuna before) ∧
      (currentLuna after = peak ∨
        (currentLuna before ≤ currentLuna after ∧ currentLuna after ≤ peak)) := by
  rcases Market.handleMsgSwap_eq_ok handled with
    ⟨retCoin, kept, spread, quoted, different, quote, denomEq, nonneg, below, -, changes⟩
  have issuance := changes.issuance microLunaDenom counted.dated counted.snapshot
  change currentLuna after = currentLuna before + _ at issuance
  simp only [Pi.add_apply, Mint.only, denomEq] at issuance
  by_cases offered : msg.offerCoin.denom = microLunaDenom
  · -- Offered Luna is burned in full.
    have notAsked : msg.askDenom ≠ microLunaDenom := fun asked =>
      different (offered.trans asked.symm)
    have within := Market.getSwapCoin_within_cap quote (Or.inl offered)
    rw [Market.lunaChange, if_pos offered] at within
    refine ⟨currentLuna before + -msg.offerCoin.amount,
      Or.inl (allowed_of_computeLunaDelta notFirst positive within), Or.inl ?_⟩
    rw [issuance, if_pos offered, if_neg notAsked, add_zero]
  · rw [if_neg offered, zero_add] at issuance
    by_cases asked : msg.askDenom = microLunaDenom
    · -- Asked Luna is minted without the fee, the cap is checked with it.
      have within := Market.getSwapCoin_within_cap quote (Or.inr asked)
      rw [Market.lunaChange, if_neg offered] at within
      rw [if_pos asked] at issuance
      exact ⟨currentLuna before + retCoin.amount,
        Or.inl (allowed_of_computeLunaDelta notFirst positive within), Or.inr (by omega)⟩
    · rw [if_neg asked, add_zero] at issuance
      exact ⟨currentLuna before, Or.inr rfl, Or.inl issuance⟩

/-- How an action can move the Luna issuance: by the fees that the oracle pays,
or by a swap towards a value that the cap allows. -/
inductive LunaMove (before : Context L) (action : Action) (after : Context L) : Prop where
  | paid (issuance : currentLuna after = currentLuna before + lunaPayout before action)
  | swapped (peak : ℤ) (noPayout : lunaPayout before action = 0)
      (allowed : Allowed before peak ∨ peak = currentLuna before)
      (issuance : currentLuna after = peak ∨
        (currentLuna before ≤ currentLuna after ∧ currentLuna after ≤ peak))

theorem LunaMove.of_same {before after : Context L} {action : Action}
    (nothing : lunaPayout before action = 0) (same : currentLuna after = currentLuna before) :
    LunaMove before action after :=
  .paid (by rw [nothing, same, add_zero])

theorem LunaMove.of_unchanged {before after : Context L} {action : Action}
    (counted : Counted microLunaDenom before) (nothing : lunaPayout before action = 0)
    (changes : Changes 0 0 0 before after) : LunaMove before action after := by
  have issuance := changes.issuance microLunaDenom counted.dated counted.snapshot
  exact .of_same nothing (by rw [currentLuna, currentLuna, issuance, Pi.zero_apply, add_zero])

theorem deliver_luna {before : Context L} {msg : Msg} (counted : Counted microLunaDenom before)
    (notFirst : before.today ≠ 0) (positive : 0 < previousLuna before)
    (quiet : IsBudget (.deliver msg) →
      currentLuna (before.deliver (handle before msg)) = currentLuna before) :
    LunaMove before (.deliver msg) (before.deliver (handle before msg)) := by
  rcases before.deliver_cases (handle before msg) with ⟨result, handled⟩ | ⟨_, same⟩
  · generalize before.deliver (handle before msg) = after at handled quiet
    have budget : IsBudget (.deliver msg) → LunaMove before (.deliver msg) after :=
      fun isBudget => .of_same rfl (quiet isBudget)
    cases msg with
    | swap msg =>
        rcases handleMsgSwap_luna handled counted notFirst positive with ⟨peak, allowed, moved⟩
        exact .swapped peak rfl allowed moved
    | send msg => exact .of_unchanged counted rfl (Pay.handleMsgSend_changes handled)
    | multiSend msg => exact .of_unchanged counted rfl (Pay.handleMsgMultiSend_changes handled)
    | submitProgram msg => exact budget trivial
    | withdrawProgram msg => exact budget trivial
    | voteProgram msg => exact budget trivial
    | pricePrevote msg =>
        rw [(Oracle.handleMsgPricePrevote_eq_ok handled).2.2]
        exact .of_unchanged counted rfl (Changes.of_oracle before _)
    | priceVote msg =>
        rcases Oracle.handleMsgPriceVote_eq_ok handled with ⟨_, -, -, -, -, afterEq⟩
        rw [afterEq]
        exact .of_unchanged counted rfl (Changes.of_oracle before _)
    | delegateFeederPermission msg =>
        rw [Oracle.handleMsgDelegateFeederPermission_eq_ok handled]
        exact .of_unchanged counted rfl (Changes.of_oracle before _)
  · rw [same]
    exact .of_unchanged counted rfl (Changes.refl before)

theorem step_luna {before after : Context L} {action : Action}
    (taken : step before action = some after) (counted : Counted microLunaDenom before)
    (notFirst : before.today ≠ 0) (positive : 0 < previousLuna before)
    (sameDay : after.today = before.today)
    (quiet : IsBudget action → currentLuna after = currentLuna before) :
    LunaMove before action after := by
  cases action with
  | deliver msg =>
      cases taken
      exact deliver_luna counted notFirst positive quiet
  | oracleEndBlocker order =>
      have changes := oracleEndBlocker_changes taken
      exact .paid (changes.issuance microLunaDenom counted.dated counted.snapshot)
  | budgetEndBlocker => exact .of_same rfl (quiet trivial)
  | advance blocks =>
      cases taken
      refine .of_same rfl ?_
      rw [currentLuna, currentLuna, sameDay]
      rfl

/-- Without the fees of the day, the issuance is within the cap. -/
def WithinCap (start : Context L) (day : Day L) : Prop :=
  (|currentLuna day.ctx - previousLuna start| - day.issuedFees) * Dec.precision <
    (start.market.dailyLunaDeltaCap.raw + 1) * previousLuna start

structure InDay (start : Context L) (day : Day L) : Prop where
  counted : Counted microLunaDenom day.ctx
  today : day.ctx.today = start.today
  market : day.ctx.market = start.market
  previous : previousLuna day.ctx = previousLuna start
  feesNonneg : 0 ≤ day.issuedFees
  within : WithinCap start day

theorem InDay.move {start : Context L} {day : Day L} {action : Action} {after : Context L}
    (inDay : InDay start day) (move : LunaMove day.ctx action after) :
    WithinCap start ⟨after, day.issuedFees + lunaPayout day.ctx action⟩ := by
  have within := inDay.within
  have precisionPos := Dec.precision_pos
  have feesNonneg := inDay.feesNonneg
  have payoutNonneg := lunaPayout_nonneg day.ctx action
  simp only [WithinCap] at within ⊢
  -- It is enough that the distance grows by no more than the fees do.
  have smaller : ∀ distance : ℤ,
      |currentLuna after - previousLuna start| ≤ distance + lunaPayout day.ctx action →
      (distance - day.issuedFees) * Dec.precision <
        (start.market.dailyLunaDeltaCap.raw + 1) * previousLuna start →
      (|currentLuna after - previousLuna start| -
          (day.issuedFees + lunaPayout day.ctx action)) * Dec.precision <
        (start.market.dailyLunaDeltaCap.raw + 1) * previousLuna start := by
    intro distance grows bound
    refine lt_of_le_of_lt (mul_le_mul_of_nonneg_right ?_ precisionPos.le) bound
    omega
  cases move with
  | paid issuance =>
      refine smaller _ ?_ within
      rw [issuance]
      have : currentLuna day.ctx + lunaPayout day.ctx action - previousLuna start =
          (currentLuna day.ctx - previousLuna start) + lunaPayout day.ctx action := by ring
      rw [this]
      exact (abs_add_le _ _).trans_eq (by rw [abs_of_nonneg payoutNonneg])
  | swapped peak noPayout allowed issuance =>
      -- The peak itself is within the bound, and so is everything on the way to it.
      have peakBound : (|peak - previousLuna start| - day.issuedFees) * Dec.precision <
          (start.market.dailyLunaDeltaCap.raw + 1) * previousLuna start := by
        rcases allowed with allowed | rfl
        · simp only [Allowed, inDay.previous, inDay.market] at allowed
          refine lt_of_le_of_lt (mul_le_mul_of_nonneg_right ?_ precisionPos.le) allowed
          omega
        · exact within
      rcases issuance with issuance | ⟨above, below⟩
      · refine smaller _ ?_ peakBound
        rw [issuance, noPayout, add_zero]
      · rcases le_total |currentLuna day.ctx - previousLuna start| |peak - previousLuna start|
          with order | order
        · refine smaller _ ?_ peakBound
          rw [noPayout, add_zero]
          exact (abs_le_max_abs_abs (by omega) (by omega)).trans (max_le order le_rfl)
        · refine smaller _ ?_ within
          rw [noPayout, add_zero]
          exact (abs_le_max_abs_abs (by omega) (by omega)).trans (max_le le_rfl order)

theorem InDay.step {start : Context L} {day next : Day L} {action : Action}
    (later : 0 < start.today) (positive : 0 < previousLuna start) (inDay : InDay start day)
    (intraday : Intraday day action) (taken : dayStep day action = some next) :
    InDay start next := by
  rcases Option.map_eq_some_iff.mp taken with ⟨after, stepped, rfl⟩
  rcases intraday after stepped with ⟨sameDay, quiet⟩
  have notFirst : day.ctx.today ≠ 0 := by
    rw [inDay.today]
    exact later.ne'
  have move := step_luna stepped inDay.counted notFirst (inDay.previous ▸ positive) sameDay quiet
  have kept : after.market = day.ctx.market ∧ previousLuna after = previousLuna day.ctx := by
    cases step_accounted stepped with
    | issued issued changes =>
        refine ⟨changes.market, ?_⟩
        have yesterday := changes.past microLunaDenom inDay.counted.snapshot (day.ctx.today - 1)
          (by have := inDay.today; omega) (by omega)
        rw [previousLuna, previousLuna, sameDay, yesterday]
    | advanced blocks _ afterEq =>
        refine ⟨by rw [afterEq], ?_⟩
        rw [previousLuna, previousLuna, sameDay, afterEq]
        rfl
  exact
    { counted := (step_counted inDay.counted stepped).1
      today := sameDay.trans inDay.today
      market := kept.1.trans inDay.market
      previous := kept.2.trans inDay.previous
      feesNonneg := add_nonneg inDay.feesNonneg (lunaPayout_nonneg day.ctx action)
      within := inDay.move move }

/-- A day begins with the issuance of the day before. -/
theorem inDay_morning {evening : Context L} (reachable : Reachable evening)
    (snapshot : HasSnapshot evening microLunaDenom) {blocks : ℕ}
    (dawn : evening.today < (morning evening blocks).today)
    (positive : 0 < previousLuna (morning evening blocks))
    (capPositive : 0 < evening.market.dailyLunaDeltaCap.raw) :
    InDay (morning evening blocks) ⟨morning evening blocks, 0⟩ := by
  have atDawn : currentLuna (morning evening blocks) = previousLuna (morning evening blocks) := by
    have today := issuanceAt_of_later reachable.dated microLunaDenom dawn.le
    have yesterday := issuanceAt_of_later reachable.dated microLunaDenom
      (by omega : evening.today ≤ (morning evening blocks).today - 1)
    exact congrArg Nat.cast (today.trans yesterday.symm)
  refine ⟨⟨dated_advance reachable.dated blocks, snapshot⟩, rfl, rfl, rfl, le_rfl, ?_⟩
  rw [WithinCap, atDawn, sub_self, abs_zero, sub_self, zero_mul]
  exact mul_pos (by change 0 < evening.market.dailyLunaDeltaCap.raw + 1; omega) positive

/-- The daily Luna cap: in every sequence of swaps, transfers and oracle periods
of a day, the issuance of Luna without the fees issued that day stays within the
cap around the issuance of the day before, up to one unit of the decimals. -/
theorem daily_luna_cap {evening : Context L} (reachable : Reachable evening)
    (snapshot : HasSnapshot evening microLunaDenom) {blocks : ℕ}
    (dawn : evening.today < (morning evening blocks).today)
    (positive : 0 < previousLuna (morning evening blocks))
    (capPositive : 0 < evening.market.dailyLunaDeltaCap.raw) {actions : List Action}
    (intraday : Along dayStep Intraday ⟨morning evening blocks, 0⟩ actions) :
    Throughout dayStep
      (fun day =>
        day.ctx.market = evening.market ∧
          previousLuna day.ctx = previousLuna (morning evening blocks) ∧
          (|currentLuna day.ctx - previousLuna day.ctx| - day.issuedFees) * 10 ^ 18 <
            (day.ctx.market.dailyLunaDeltaCap.raw + 1) * previousLuna day.ctx)
      ⟨morning evening blocks, 0⟩ actions := by
  have later : 0 < (morning evening blocks).today := lt_of_le_of_lt (today_nonneg evening) dawn
  apply throughout_of_along (InDay (morning evening blocks)) _ _ actions intraday
    (inDay_morning reachable snapshot dawn positive capPositive)
  · intro day action next inDay allowed taken
    exact inDay.step later positive allowed taken
  · intro day inDay
    refine ⟨inDay.market, inDay.previous, ?_⟩
    rw [inDay.previous, inDay.market]
    exact inDay.within

/-- An action which neither belongs to the budget nor ends a block is intraday. -/
theorem intraday_of_quiet {action : Action} (notBudget : ¬IsBudget action)
    (sameBlock : ∀ blocks, action ≠ .advance blocks) (day : Day L) : Intraday day action := by
  intro after taken
  refine ⟨?_, fun isBudget => absurd isBudget notBudget⟩
  cases step_accounted taken with
  | issued issued changes => exact changes.today
  | advanced blocks isAdvance _ => exact absurd isAdvance (sameBlock blocks)

/-- A trader with a thousand Luna and some SDR, at a price of one SDR. -/
def sampleEvening : Context Book :=
  (getIssuance { Oracle.sampleStart with
    ledger := Book.empty.setAmounts (List.replicate 20 2) fun denom =>
      if denom = microLunaDenom then 1000000000 else
        if denom = microSDRDenom then 1000000 else 0
    oracle := Oracle.sampleStart.oracle.setLunaSwapRate microSDRDenom Dec.one } microLunaDenom 0).2

/-- The next day a thousandth of the Luna is swapped away, and some is bought back. -/
def sampleTrades : List Action :=
  [.deliver (.swap ⟨List.replicate 20 2, ⟨microLunaDenom, 1000000⟩, microSDRDenom⟩),
    .deliver (.swap ⟨List.replicate 20 2, ⟨microSDRDenom, 500000⟩, microLunaDenom⟩),
    .oracleEndBlocker Oracle.MapOrder.sorted]

theorem daily_luna_cap_sample :
    (perform dayStep (⟨morning sampleEvening blocksPerDay, 0⟩ : Day Book) sampleTrades).map
        (fun day => currentLuna day.ctx - previousLuna day.ctx) = some (-559000) ∧
      Throughout dayStep
        (fun day => day.ctx.market = sampleEvening.market ∧
          previousLuna day.ctx = previousLuna (morning sampleEvening blocksPerDay) ∧
          (|currentLuna day.ctx - previousLuna day.ctx| - day.issuedFees) * 10 ^ 18 <
            (day.ctx.market.dailyLunaDeltaCap.raw + 1) * previousLuna day.ctx)
        (⟨morning sampleEvening blocksPerDay, 0⟩ : Day Book) sampleTrades := by
  have reachable : Reachable sampleEvening :=
    (Reachable.genesis rfl).read microLunaDenom (today_nonneg _)
  have snapshot : HasSnapshot sampleEvening microLunaDenom := ⟨1000000000, by decide +kernel⟩
  refine ⟨by decide +kernel, daily_luna_cap reachable snapshot (by decide +kernel)
    (by decide +kernel) (by decide +kernel) (along_of_forall ?_ _)⟩
  intro action actionMem day
  simp only [sampleTrades, List.mem_cons, List.not_mem_nil, or_false] at actionMem
  rcases actionMem with rfl | rfl | rfl <;>
    exact intraday_of_quiet (by simp [IsBudget]) (by simp) day

end TerraCore.Chain
