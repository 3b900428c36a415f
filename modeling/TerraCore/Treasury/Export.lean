import TerraCore.Treasury.Run

/-!
# Exporting the treasury

A chain that is restarted from an export should go on with the rates that were
in force. The exported reward weight is the one in force, but the exported tax
rate is the one of the first epoch.
-/

namespace TerraCore.Treasury

open Inheritance Transition

variable {L : Type}

/-- The chain loaded from the export goes on with the parameters and the rates in force. -/
structure Resumes (ctx loaded : Context L) : Prop where
  params : loaded.treasury.params = ctx.treasury.params
  taxRate : (getTaxRate loaded 0).1 = (getTaxRate ctx ctx.getEpoch).1
  rewardWeight : (getRewardWeight loaded 0).1 = (getRewardWeight ctx ctx.getEpoch).1

theorem Fresh.getTaxRate_eq {data : GenesisState} {loaded : Context L}
    (fresh : Fresh data loaded) : (getTaxRate loaded 0).1 = data.genesisTaxRate := by
  have value := (getTaxRate_spec fresh.grounded (Nat.zero_le _)).1
  exact Option.some.inj (value.symm.trans (fresh.rates_get .tax 0))

theorem Fresh.getRewardWeight_eq {data : GenesisState} {loaded : Context L}
    (fresh : Fresh data loaded) : (getRewardWeight loaded 0).1 = some data.genesisRewardWeight := by
  have value := (getRewardWeight_spec fresh.grounded (Nat.zero_le _)).1
  exact value.trans (fresh.rates_get .reward 0)

/-- The export has the tax rate of the first epoch and the reward weight in force. -/
theorem exportGenesis_eq {ctx : Context L} (grounded : Grounded ctx) :
    (exportGenesis ctx).1.params = ctx.treasury.params ∧
      (exportGenesis ctx).1.genesisTaxRate = (getTaxRate ctx 0).1 ∧
      some (exportGenesis ctx).1.genesisRewardWeight = (getRewardWeight ctx ctx.getEpoch).1 := by
  have taxReads := (getTaxRate_spec grounded (Nat.zero_le (epoch ctx))).2
  have after := getRewardWeight_spec (taxReads.grounded grounded) (le_of_eq taxReads.epoch_eq.symm)
  have before := (getRewardWeight_spec grounded (le_refl (epoch ctx))).1
  rcases grounded.rewardWeight with ⟨first, present⟩
  rcases valueAt_isSome present (epoch ctx) with ⟨weight, inEffect⟩
  have exported : (getRewardWeight (getTaxRate ctx 0).2 ctx.getEpoch).1 = some weight :=
    after.1.trans ((taxReads.rewardWeights.valueAt_eq _).trans inEffect)
  refine ⟨after.2.params.trans taxReads.params, rfl, ?_⟩
  rw [getEpoch_eq, before, inEffect]
  change some ((getRewardWeight (getTaxRate ctx 0).2 ctx.getEpoch).1.getD Dec.zero) = some weight
  rw [exported, Option.getD_some]

section Runs

variable [Sdk L]

theorem reaches_grounded {data : GenesisState} {start ctx : Context L} (fresh : Fresh data start)
    {events : List (Event L)} (reached : Reaches step start events ctx) : Grounded ctx := by
  refine reached.invariant Grounded ?_ fresh.grounded
  intro before event after grounded taken
  cases step_effect grounded taken with
  | reads _ reads => exact reads.grounded grounded
  | block done nextEq =>
      subst nextEq
      rcases done with ⟨rfl, -⟩ | update
      · exact grounded.succ
      · exact update.grounded.succ

/-- A restarted chain goes on with the parameters and rates in force exactly
when the tax rate in force is still the one of the first epoch. -/
theorem export_resumes_iff {data : GenesisState} {start ctx : Context L}
    (fresh : Fresh data start) {events : List (Event L)}
    (reached : Reaches step start events ctx) {loaded : Context L}
    (reloaded : Fresh (exportGenesis ctx).1 loaded) :
    Resumes ctx loaded ↔ (getTaxRate ctx 0).1 = (getTaxRate ctx ctx.getEpoch).1 := by
  rcases exportGenesis_eq (reaches_grounded fresh reached) with ⟨paramsEq, taxEq, weightEq⟩
  have taxLoaded := reloaded.getTaxRate_eq.trans taxEq
  constructor
  · intro resumes
    rw [← resumes.taxRate, taxLoaded]
  · intro unmoved
    refine ⟨?_, taxLoaded.trans unmoved, reloaded.getRewardWeight_eq.trans weightEq⟩
    rw [reloaded.treasury]
    exact paramsEq

end Runs

/-- The chain loaded from an export of the sample chain. -/
def sampleReload (ctx : Context Book) : Context Book :=
  { sampleTreasury with treasury := initGenesis (exportGenesis ctx).1 }

theorem export_resumes_iff_sample :
    Reaches step sampleTreasury (List.replicate (12 * blocksPerEpoch - 1) .endBlock)
        sampleUpdate ∧
      Resumes sampleUpdate (sampleReload sampleUpdate) := by
  refine ⟨sampleUpdate_reached, ?_⟩
  refine (export_resumes_iff sampleTreasury_fresh sampleUpdate_reached ⟨rfl, rfl⟩).mpr ?_
  decide +kernel

/-- One block later the tax rate has moved, and the restarted chain goes back to
the old one. -/
theorem export_loses_tax_rate :
    validateGenesis defaultGenesisState = .ok () ∧
      ∃ ctx : Context Book,
        Reaches step sampleTreasury
            (List.replicate (12 * blocksPerEpoch - 1) .endBlock ++ [.endBlock]) ctx ∧
          (getTaxRate ctx ctx.getEpoch).1 = Dec.withPrec 125 5 ∧
          (getTaxRate (sampleReload ctx) 0).1 = Dec.withPrec 1 3 ∧
          ¬Resumes ctx (sampleReload ctx) := by
  have rates : (step sampleUpdate .endBlock).map (fun ctx =>
      ((getTaxRate ctx ctx.getEpoch).1, (getTaxRate (sampleReload ctx) 0).1)) =
        some (Dec.withPrec 125 5, Dec.withPrec 1 3) := by
    decide +kernel
  rcases Option.map_eq_some_iff.mp rates with ⟨ctx, taken, ratesEq⟩
  have inForce : (getTaxRate ctx ctx.getEpoch).1 = Dec.withPrec 125 5 := congrArg Prod.fst ratesEq
  have reloaded : (getTaxRate (sampleReload ctx) 0).1 = Dec.withPrec 1 3 :=
    congrArg Prod.snd ratesEq
  refine ⟨by decide, ctx, sampleUpdate_reached.snoc taken, inForce, reloaded, ?_⟩
  intro resumes
  have same := resumes.taxRate
  rw [inForce, reloaded] at same
  revert same
  decide

end TerraCore.Treasury
