import TerraCore.Chain.Run
import TerraCore.Oracle.Run

/-!
# Supply, issuance and the staking pool

Two quantities should stay constant while coins are created and destroyed. The
issuance counter should follow the coins that are held, and the unbonded tokens
of the staking pool should follow the Luna that is held. The first holds for
every run. The second breaks exactly when the oracle pays Luna out of the swap
fee pool, because this is the one place that creates Luna without going through
`Mint`.
-/

namespace TerraCore.Chain

open Mint Transition

variable {L : Type} [Sdk L]

/-- The issuance of today minus the coins that are held. -/
def drift (denom : Denom) (ctx : Context L) : ℤ :=
  issuanceAt ctx denom ctx.today - holdings ctx.ledger denom

/-- The issuance of a denomination is counted from a day-zero snapshot on, and
no snapshot is dated after today. -/
structure Counted (denom : Denom) (ctx : Context L) : Prop where
  dated : Dated ctx
  snapshot : HasSnapshot ctx denom

theorem drift_advance {denom : Denom} {ctx : Context L} (counted : Counted denom ctx)
    (blocks : ℕ) : drift denom { ctx with height := ctx.height + blocks } = drift denom ctx := by
  unfold drift
  have sameDay : issuanceAt { ctx with height := ctx.height + blocks } denom
      { ctx with height := ctx.height + blocks }.today =
        issuanceAt ctx denom { ctx with height := ctx.height + blocks }.today := rfl
  rw [sameDay, issuanceAt_of_later counted.dated denom (today_advance ctx blocks)]

theorem step_dated {before after : Context L} {action : Action} (dated : Dated before)
    (taken : step before action = some after) : Dated after := by
  cases step_accounted taken with
  | issued issued changes => exact changes.dated dated
  | advanced blocks _ afterEq =>
      rw [afterEq]
      exact dated_advance dated blocks

theorem step_counted {denom : Denom} {before after : Context L} {action : Action}
    (counted : Counted denom before) (taken : step before action = some after) :
    Counted denom after ∧ drift denom after = drift denom before := by
  cases step_accounted taken with
  | issued issued changes =>
      refine ⟨⟨changes.dated counted.dated, changes.snapshot denom counted.snapshot⟩, ?_⟩
      unfold drift
      rw [changes.issuance denom counted.dated counted.snapshot, changes.holdings denom]
      ring
  | advanced blocks _ afterEq =>
      rw [afterEq]
      exact ⟨⟨dated_advance counted.dated blocks, counted.snapshot⟩, drift_advance counted blocks⟩

/-- The states that the chain can be in. Apart from the steps above, the other
modules may change everything but the issuance snapshots, which they can only
read, for a day that has come. -/
inductive Reachable : Context L → Prop where
  | genesis {ctx : Context L} (noSnapshots : ctx.mint.issuance = ∅) : Reachable ctx
  | step {before after : Context L} {action : Action} (reachable : Reachable before)
      (taken : Chain.step before action = some after) : Reachable after
  | elsewhere {before after : Context L} (reachable : Reachable before)
      (sameHeight : after.height = before.height) (sameMint : after.mint = before.mint) :
      Reachable after
  | read {ctx : Context L} (reachable : Reachable ctx) (denom : Denom) {day : ℤ}
      (past : day ≤ ctx.today) : Reachable (getIssuance ctx denom day).2

theorem Reachable.dated {ctx : Context L} (reachable : Reachable ctx) : Dated ctx := by
  induction reachable with
  | genesis noSnapshots =>
      intro key issuance present
      rw [noSnapshots, Store.get_empty] at present
      cases present
  | step _ taken ih => exact step_dated ih taken
  | elsewhere _ sameHeight sameMint ih =>
      unfold Dated Context.today
      rw [sameMint, sameHeight]
      exact ih
  | read _ denom past ih => exact ih.getIssuance denom past

/-- Issuance never drifts from supply: once the day-zero snapshot of a
denomination exists, the difference between its issuance and the coins that are
held is the same at every point of every run. -/
theorem issuance_never_drifts {denom : Denom} {start : Context L} (reachable : Reachable start)
    (snapshot : HasSnapshot start denom) (actions : List Action) :
    Throughout step (fun ctx => drift denom ctx = drift denom start) start actions := by
  apply throughout_of_invariant fun ctx =>
    Counted denom ctx ∧ drift denom ctx = drift denom start
  · intro before action after held taken
    rcases step_counted held.1 taken with ⟨counted, same⟩
    exact ⟨counted, same.trans held.2⟩
  · intro ctx held
    exact held.2
  · exact ⟨⟨reachable.dated, snapshot⟩, rfl⟩

/-- A trader with one SDR, on a chain that counts SDR and whose oracle has one validator. -/
def sampleChain : Context Book :=
  (getIssuance { Oracle.sampleStart with
    ledger := Book.empty.setAmounts (List.replicate 20 2) fun denom =>
      if denom = microSDRDenom then 1000000 else 0 } microSDRDenom 0).2

/-- The validator sets a price, the trader swaps SDR for Luna, and the period
ends while the fee of the swap is in the pool. -/
def sampleSwap : List Action :=
  [.deliver (.pricePrevote Oracle.samplePrevote), .advance 1,
    .deliver (.priceVote Oracle.sampleVote), .oracleEndBlocker Oracle.MapOrder.sorted, .advance 1,
    .deliver (.swap ⟨List.replicate 20 2, ⟨microSDRDenom, 1000000⟩, microLunaDenom⟩),
    .oracleEndBlocker Oracle.MapOrder.sorted]

theorem issuance_never_drifts_sample :
    HasSnapshot sampleChain microSDRDenom ∧
      Throughout step (fun ctx => drift microSDRDenom ctx = drift microSDRDenom sampleChain)
        sampleChain sampleSwap := by
  have snapshot : HasSnapshot sampleChain microSDRDenom := ⟨1000000, by decide +kernel⟩
  have reachable : Reachable sampleChain :=
    (Reachable.genesis rfl).read microSDRDenom (today_nonneg _)
  exact ⟨snapshot, issuance_never_drifts reachable snapshot sampleSwap⟩

/-- The unbonded tokens of the staking pool minus the Luna that is held. -/
def poolGap (ctx : Context L) : ℤ :=
  ctx.staking.notBondedTokens - holdings ctx.ledger microLunaDenom

/-- An oracle end blocker closes a vote period, finds claims to pay, and has
Luna in the swap fee pool to pay them with. -/
def PaysLuna (ctx : Context L) (action : Action) : Prop :=
  (∃ order, action = .oracleEndBlocker order) ∧
    ctx.LastBlock ctx.oracle.params.votePeriod ∧ Oracle.claimWeightSum ctx.oracle ≠ 0 ∧
    0 < ctx.oracle.getSwapFeePool.amountOf microLunaDenom

omit [Sdk L] in
theorem lunaPayout_eq_zero_iff (ctx : Context L) (action : Action) :
    lunaPayout ctx action = 0 ↔ ¬PaysLuna ctx action := by
  cases action with
  | oracleEndBlocker order =>
      have nonneg := ctx.oracle.getSwapFeePool.amountOf_nonneg microLunaDenom
      simp only [lunaPayout, PaysLuna, Oracle.payout]
      split
      · next last =>
          split
          · next noWeight => simp [noWeight]
          · next someWeight =>
              simp only [Action.oracleEndBlocker.injEq, exists_eq', last, ne_eq, someWeight,
                not_false_eq_true, true_and]
              omega
      · next notLast => simp [notLast]
  | _ => simp [lunaPayout, PaysLuna]

theorem step_poolGap {before after : Context L} {action : Action}
    (taken : step before action = some after) :
    poolGap after = poolGap before - lunaPayout before action := by
  unfold poolGap
  cases step_accounted taken with
  | issued issued changes =>
      rw [changes.notBonded, changes.holdings]
      ring
  | advanced blocks isAdvance afterEq =>
      rw [afterEq, isAdvance]
      simp [lunaPayout]

theorem isSome_of_paysLuna {ctx : Context L} {action : Action} (pays : PaysLuna ctx action) :
    (step ctx action).isSome := by
  rcases pays with ⟨⟨order, rfl⟩, last, -⟩
  rcases Oracle.endBlocker_of_lastBlock order last with ⟨tags, paid, finished, -⟩
  simp [step, finished, ended]

/-- The staking pool mirrors the Luna that is held throughout a run exactly
when no oracle end blocker of the run pays out Luna. -/
theorem pool_mirrors_luna_iff (start : Context L) (actions : List Action) :
    Throughout step (fun ctx => poolGap ctx = poolGap start) start actions ↔
      Along step (fun ctx action => ¬PaysLuna ctx action) start actions := by
  rw [throughout_const_iff_along (fun _ => True) (fun _ _ _ _ _ => trivial)
    lunaPayout_nonneg (fun _ _ _ _ taken => step_poolGap taken) actions trivial]
  apply along_congr
  intro ctx action
  rw [lunaPayout_eq_zero_iff]
  constructor
  · intro whenTaken pays
    exact whenTaken (isSome_of_paysLuna pays) pays
  · intro never _
    exact never

/-- After the sample run the pool is short of the fee of the swap, which is
two percent of what the trader asked for. -/
theorem pool_misses_swap_fee :
    ∃ ctx : Context Book, Reaches step sampleChain sampleSwap ctx ∧
      poolGap sampleChain = 0 ∧ poolGap ctx = -20000 := by
  have gap : (perform step sampleChain sampleSwap).map poolGap = some (-20000) := by
    decide +kernel
  rcases Option.map_eq_some_iff.mp gap with ⟨ctx, performed, gapEq⟩
  exact ⟨ctx, reaches_of_perform performed, by decide +kernel, gapEq⟩

end TerraCore.Chain
