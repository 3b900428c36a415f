import TerraCore.Pay.Handler

/-!
# Tax accounting

What an accepted transfer does to the accounts, the fee collector and the tax
proceeds. The tax on every coin is determined by the state before the transfer:
while the taxes are computed, the rate and the caps that the treasury reports do
not change, although they may be stored for the first time.
-/

namespace TerraCore

namespace Market

variable {L : Type} [Sdk L]

/-- A quote for the treasury depends on the oracle alone. -/
theorem getSwapCoin_internal_congr {first second : Context L}
    (sameOracle : second.oracle = first.oracle) (offerCoin : Coin) (askDenom : Denom) :
    getSwapCoin second offerCoin askDenom true =
      (getSwapCoin first offerCoin askDenom true).map fun quote => (quote.1, quote.2.1, second) := by
  have samePrice : ∀ denom, effectivePrice second denom = effectivePrice first denom := by
    intro denom
    rw [effectivePrice, effectivePrice, sameOracle]
  simp only [getSwapCoin, samePrice, true_or, if_true]
  cases effectivePrice first offerCoin.denom with
  | error failure => rfl
  | ok offerRate =>
      cases effectivePrice first askDenom with
      | error failure => rfl
      | ok askRate =>
          simp only [bind, Except.bind]
          cases ((Dec.ofInt offerCoin.amount).mul askRate).quo offerRate with
          | error failure => rfl
          | ok exact =>
              simp only
              split
              · rfl
              · cases newCoin askDenom exact.truncateInt with
                | error failure => rfl
                | ok retCoin => rfl

end Market

namespace Treasury

variable {L : Type}

/-- Reading the tax rate of an epoch twice gives the same rate. -/
theorem readTaxRate_stored (earlier : ℕ) (epoch : ℤ) (rates : Store ℤ Dec) :
    (readTaxRate earlier epoch rates).2[epoch]? = some (readTaxRate earlier epoch rates).1 := by
  cases earlier with
  | zero =>
      simp only [readTaxRate]
      split
      · next rate found => exact found
      · rw [Store.get_insert, if_pos rfl]
  | succ earlier =>
      simp only [readTaxRate]
      split
      · next rate found => exact found
      · rw [Store.get_insert, if_pos rfl]

theorem readTaxRate_of_stored (earlier : ℕ) {epoch : ℤ} {rates : Store ℤ Dec} {rate : Dec}
    (stored : rates[epoch]? = some rate) : readTaxRate earlier epoch rates = (rate, rates) := by
  cases earlier <;> simp only [readTaxRate, stored]

end Treasury

namespace Pay

variable {L : Type} [Sdk L]

open Treasury (getTaxRate getTaxCap peekTaxProceeds)

/-- The tax rate of the current epoch. -/
def currentTaxRate (ctx : Context L) : Dec := (getTaxRate ctx ctx.getEpoch).1

/-- The tax cap of a denomination. -/
def taxCapOf (ctx : Context L) (denom : Denom) : Outcome ℤ := (getTaxCap ctx denom).map Prod.fst

/-- The tax on a coin at the current rate and cap, rounded towards zero. -/
def taxOn (ctx : Context L) (coin : Coin) : ℤ :=
  if currentTaxRate ctx = Dec.zero then 0
  else
    match taxCapOf ctx coin.denom with
    | .ok taxCap => min ((coin.amount * (currentTaxRate ctx).raw).tdiv Dec.precision) taxCap
    | .error _ => 0

/-- The coins that are due on a principal. -/
def taxesOn (ctx : Context L) (principal : List Coin) : List Coin :=
  principal.map fun coin => ⟨coin.denom, taxOn ctx coin⟩

/-- The taxes that the inputs of a transfer owe. -/
def taxesOnInputs (ctx : Context L) (inputs : List (Address × List Coin)) :
    List (Address × List Coin) :=
  inputs.map fun input => (input.1, taxesOn ctx input.2)

/-- The tax is the smaller of the rounded down share and the cap. -/
theorem taxOn_eq_floor {ctx : Context L} {coin : Coin} {taxCap : ℤ}
    (amountNonneg : 0 ≤ coin.amount) (rateNonneg : Dec.zero ≤ currentTaxRate ctx)
    (capNonneg : 0 ≤ taxCap) (cap : taxCapOf ctx coin.denom = .ok taxCap) :
    taxOn ctx coin =
      min ⌊(coin.amount : ℚ) * ((currentTaxRate ctx).raw / Dec.precision)⌋ taxCap := by
  have rateNonneg : 0 ≤ (currentTaxRate ctx).raw := rateNonneg
  have share : ⌊(coin.amount : ℚ) * ((currentTaxRate ctx).raw / Dec.precision)⌋ =
      (coin.amount * (currentTaxRate ctx).raw).tdiv Dec.precision := by
    rw [Int.tdiv_eq_ediv_of_nonneg (mul_nonneg amountNonneg rateNonneg), ← mul_div_assoc]
    exact_mod_cast Rat.floor_intCast_div_natCast (coin.amount * (currentTaxRate ctx).raw) (10 ^ 18)
  rw [share, taxOn, cap]
  split
  · next isZero =>
      rw [isZero]
      simp [Dec.zero, capNonneg]
  · rfl

/-- Both states report the same tax rate and caps. -/
structure SameTaxes (before after : Context L) : Prop where
  height : after.height = before.height
  taxRate : currentTaxRate after = currentTaxRate before
  taxCap : ∀ denom, taxCapOf after denom = taxCapOf before denom

theorem SameTaxes.trans {before middle after : Context L} (first : SameTaxes before middle)
    (second : SameTaxes middle after) : SameTaxes before after :=
  ⟨second.height.trans first.height, second.taxRate.trans first.taxRate,
    fun denom => (second.taxCap denom).trans (first.taxCap denom)⟩

theorem SameTaxes.taxesOn_eq {before after : Context L} (same : SameTaxes before after)
    (principal : List Coin) : taxesOn after principal = taxesOn before principal := by
  have sameTax : ∀ coin, taxOn after coin = taxOn before coin := by
    intro coin
    simp only [taxOn, same.taxRate, same.taxCap]
  simp only [taxesOn, sameTax]

/-- The cap of a denomination depends on what is stored for it, on the oracle and on the
reference cap. -/
theorem taxCapOf_congr {before after : Context L} {denom : Denom}
    (sameOracle : after.oracle = before.oracle)
    (sameParams : after.treasury.params = before.treasury.params)
    (sameCap : after.treasury.taxCaps[denom]? = before.treasury.taxCaps[denom]?) :
    taxCapOf after denom = taxCapOf before denom := by
  simp only [taxCapOf, getTaxCap, sameCap]
  cases before.treasury.taxCaps[denom]? with
  | some taxCap => rfl
  | none =>
      simp only [Treasury.requestedCap, sameParams,
        Market.getSwapCoin_internal_congr sameOracle]
      cases Market.getSwapCoin before before.treasury.params.taxPolicy.cap denom true with
      | ok quote => rfl
      | error failure =>
          cases failure with
          | panic panic => rfl
          | error error =>
              simp only [Except.map]
              cases newCoin denom before.treasury.params.taxPolicy.cap.amount with
              | error failure => rfl
              | ok reqCap => rfl

theorem getTaxCap_same {before after : Context L} {denom : Denom} {taxCap : ℤ}
    (done : getTaxCap before denom = .ok (taxCap, after)) : SameTaxes before after := by
  have reported : taxCapOf before denom = .ok taxCap := by
    rw [taxCapOf, done]
    rfl
  simp only [getTaxCap] at done
  split at done
  · cases done
    exact ⟨rfl, rfl, fun _ => rfl⟩
  · rcases Outcome.bind_eq_ok.mp done with ⟨⟨reqCap, middle⟩, requested, done⟩
    cases done
    rw [Treasury.requestedCap_eq_ok requested]
    refine ⟨rfl, rfl, fun other => ?_⟩
    by_cases same : denom = other
    · subst same
      rw [reported]
      simp only [taxCapOf, getTaxCap, Treasury.setTaxCap, Store.get_insert, if_true]
      rfl
    · refine taxCapOf_congr (by rfl) (by rfl) ?_
      rw [Treasury.setTaxCap, Store.get_insert, if_neg same]

theorem capTax_eq (taxCap taxDue : ℤ) : capTax taxCap taxDue = min taxDue taxCap := by
  simp only [capTax]
  split <;> omega

/-- Multiplying a whole number of coins by a rate is exact. -/
theorem ofInt_mul (amount : ℤ) (rate : Dec) :
    (Dec.ofInt amount).mul rate = ⟨amount * rate.raw⟩ := by
  have product : amount * Dec.precision * rate.raw = amount * rate.raw * Dec.precision := by ring
  simp only [Dec.mul, Dec.ofInt, Dec.chopPrecisionAndRound, product]
  rw [Rounding.roundHalfEven_mul_self Dec.precision_pos]

theorem addTaxDue_spec {ctx : Context L} {taxes : Coins} {coin : Coin}
    {after : Coins × Context L} (nonzero : currentTaxRate ctx ≠ Dec.zero)
    (done : addTaxDue (currentTaxRate ctx) (taxes, ctx) coin = .ok after) :
    SameTaxes ctx after.2 ∧ ∀ denom, after.1.amountOf denom =
      taxes.amountOf denom + if coin.denom = denom then taxOn ctx coin else 0 := by
  rcases Outcome.bind_eq_ok.mp done with ⟨⟨taxCap, capped⟩, read, done⟩
  have reported : taxCapOf ctx coin.denom = .ok taxCap := by
    rw [taxCapOf, read]
    rfl
  have due : capTax taxCap
      ((Dec.ofInt coin.amount).mul (currentTaxRate ctx)).truncateInt = taxOn ctx coin := by
    rw [capTax_eq, ofInt_mul, taxOn, if_neg nonzero, reported]
    rfl
  simp only [due] at done
  split at done
  · next isZero =>
      cases done
      exact ⟨getTaxCap_same read, fun denom => by simp [isZero]⟩
  · rcases Outcome.bind_eq_ok.mp done with ⟨tax, made, done⟩
    rcases Outcome.bind_eq_ok.mp done with ⟨coins, wrapped, done⟩
    cases done
    rcases newCoin_eq_ok.mp made with ⟨-, -, rfl⟩
    refine ⟨getTaxCap_same read, fun denom => ?_⟩
    rw [Coins.amountOf_add, Coins.amountOf_ofCoin wrapped]

theorem addTaxesDue_spec {ctx : Context L} {taxes : Coins} {principal : List Coin}
    {after : Coins × Context L} (nonzero : currentTaxRate ctx ≠ Dec.zero)
    (done : principal.foldlM (addTaxDue (currentTaxRate ctx)) (taxes, ctx) = .ok after) :
    SameTaxes ctx after.2 ∧ ∀ denom, after.1.amountOf denom =
      taxes.amountOf denom + amountOf (taxesOn ctx principal) denom := by
  induction principal generalizing ctx taxes with
  | nil =>
      cases done
      exact ⟨⟨rfl, rfl, fun _ => rfl⟩, fun denom => by simp [taxesOn]⟩
  | cons coin principal ih =>
      rw [List.foldlM_cons] at done
      rcases Outcome.bind_eq_ok.mp done with ⟨⟨firstTaxes, middle⟩, first, rest⟩
      rcases addTaxDue_spec nonzero first with ⟨firstSame, firstAmount⟩
      rw [← firstSame.taxRate] at rest nonzero
      rcases ih nonzero rest with ⟨restSame, restAmount⟩
      refine ⟨firstSame.trans restSame, fun denom => ?_⟩
      rw [restAmount, firstAmount, firstSame.taxesOn_eq]
      simp only [taxesOn, List.map_cons, amountOf_cons]
      ring

/-- The tax proceeds of an epoch in one denomination. -/
def proceeds (ctx : Context L) (epoch : ℤ) (denom : Denom) : ℤ :=
  (peekTaxProceeds ctx epoch).amountOf denom

/-- Taxes have moved from the accounts of their payers to the fee collector and into the
proceeds of the current epoch; `taxes` names the payers. -/
structure Pays (taxes : List (Address × List Coin)) (before after : Context L) : Prop where
  same : SameTaxes before after
  balance : ∀ address denom, (Ledger.balance after.ledger address denom : ℤ) =
    Ledger.balance before.ledger address denom - credited taxes address denom
  collectedFees : ∀ denom, Ledger.collectedFees after.ledger denom =
    Ledger.collectedFees before.ledger denom + creditedTotal taxes denom
  allocatedTo : ∀ address denom, Ledger.allocatedTo after.ledger address denom =
    Ledger.allocatedTo before.ledger address denom
  allocatedTotal : ∀ denom, Ledger.allocatedTotal after.ledger denom =
    Ledger.allocatedTotal before.ledger denom
  proceeds : ∀ epoch denom, proceeds after epoch denom =
    proceeds before epoch denom + if epoch = before.getEpoch then creditedTotal taxes denom else 0

/-- Only the amounts count, not the list in which they are written. -/
theorem Pays.of_amounts {taxes others : List (Address × List Coin)} {before after : Context L}
    (pays : Pays taxes before after)
    (sameEach : ∀ address denom, credited others address denom = credited taxes address denom)
    (sameTotal : ∀ denom, creditedTotal others denom = creditedTotal taxes denom) :
    Pays others before after := by
  refine ⟨pays.same, ?_, ?_, pays.allocatedTo, pays.allocatedTotal, ?_⟩
  · intro address denom
    rw [sameEach]
    exact pays.balance address denom
  · intro denom
    rw [sameTotal]
    exact pays.collectedFees denom
  · intro epoch denom
    rw [sameTotal]
    exact pays.proceeds epoch denom

theorem Pays.trans {first second : List (Address × List Coin)} {before middle after : Context L}
    (left : Pays first before middle) (right : Pays second middle after) :
    Pays (first ++ second) before after := by
  have sameEpoch : middle.getEpoch = before.getEpoch := by
    rw [Context.getEpoch, Context.getEpoch, left.same.height]
  refine ⟨left.same.trans right.same, ?_, ?_, ?_, ?_, ?_⟩
  · intro address denom
    rw [right.balance, left.balance, credited_append, sub_sub]
  · intro denom
    rw [right.collectedFees, left.collectedFees, creditedTotal_append, add_assoc]
  · intro address denom
    rw [right.allocatedTo, left.allocatedTo]
  · intro denom
    rw [right.allocatedTotal, left.allocatedTotal]
  · intro epoch denom
    rw [right.proceeds, left.proceeds, sameEpoch, creditedTotal_append]
    split <;> ring

/-- A call that reports the same taxes and leaves the coins alone pays nothing. -/
theorem SameTaxes.pays {before after : Context L} (same : SameTaxes before after)
    (sameLedger : after.ledger = before.ledger)
    (sameProceeds : after.treasury.taxProceeds = before.treasury.taxProceeds) :
    Pays [] before after := by
  refine ⟨same, ?_, ?_, ?_, ?_, ?_⟩
  · intro address denom
    rw [sameLedger, credited_nil, sub_zero]
  · intro denom
    rw [sameLedger, creditedTotal_nil, add_zero]
  · intro address denom
    rw [sameLedger]
  · intro denom
    rw [sameLedger]
  · intro epoch denom
    rw [creditedTotal_nil, ite_self, add_zero, proceeds, proceeds, peekTaxProceeds, peekTaxProceeds,
      sameProceeds]

omit [Sdk L] in
theorem proceeds_recordTaxProceeds (ctx : Context L) (taxes : Coins) (epoch : ℤ) (denom : Denom) :
    proceeds (Treasury.recordTaxProceeds ctx taxes) epoch denom =
      proceeds ctx epoch denom + if epoch = ctx.getEpoch then taxes.amountOf denom else 0 := by
  simp only [proceeds, peekTaxProceeds, Treasury.recordTaxProceeds, Store.get_insert]
  by_cases current : epoch = ctx.getEpoch
  · rw [if_pos current.symm, if_pos current, current, Option.getD_some, Coins.amountOf_add]
  · rw [if_neg (Ne.symm current), if_neg current, add_zero]

/-- The tax leaves the account of its payer, is collected and is recorded. -/
theorem collect_pays {ctx : Context L} {taxPayer : Address} {taxes : Coins} {ledger : L}
    (subtracted : Sdk.subtractCoins ctx.ledger taxPayer taxes.toList = .ok ledger) :
    Pays [(taxPayer, taxes.toList)] ctx (Treasury.recordTaxProceeds
      { ctx with ledger := Sdk.addCollectedFees ledger taxes } taxes) := by
  have out := Sdk.subtractCoins_moves subtracted
  have back := Sdk.addCollectedFees_moves ledger taxes
  refine ⟨⟨rfl, rfl, fun denom => taxCapOf_congr (by rfl) (by rfl) (by rfl)⟩, ?_, ?_, ?_, ?_, ?_⟩
  · intro address denom
    refine (back.balance address denom).trans ?_
    rw [out.balance]
    simp
  · intro denom
    refine (back.collectedFees denom).trans ?_
    rw [out.collectedFees]
    simp [creditedTotal_cons]
  · intro address denom
    refine (back.allocatedTo address denom).trans ?_
    rw [out.allocatedTo]
    simp
  · intro denom
    refine (back.allocatedTotal denom).trans ?_
    rw [out.allocatedTotal]
    simp
  · intro epoch denom
    refine (proceeds_recordTaxProceeds _ taxes epoch denom).trans ?_
    simp only [creditedTotal_cons, creditedTotal_nil, add_zero]
    rfl

/-- The rate is stored when it is read, which does not change what is reported. -/
theorem getTaxRate_same (ctx : Context L) : SameTaxes ctx (getTaxRate ctx ctx.getEpoch).2 := by
  refine ⟨rfl, ?_, fun denom => taxCapOf_congr (by rfl) (by rfl) (by rfl)⟩
  have stored := Treasury.readTaxRate_stored ctx.getEpoch.toNat ctx.getEpoch ctx.treasury.taxRates
  have again := congrArg Prod.fst (Treasury.readTaxRate_of_stored ctx.getEpoch.toNat stored)
  exact again

/-- Nothing is due when the rate is zero. -/
theorem amountOf_taxesOn_of_zero {ctx : Context L} (isZero : currentTaxRate ctx = Dec.zero)
    (principal : List Coin) (denom : Denom) : amountOf (taxesOn ctx principal) denom = 0 := by
  induction principal with
  | nil => rfl
  | cons coin principal ih =>
      simp only [taxesOn, List.map_cons, amountOf_cons] at ih ⊢
      rw [ih, taxOn, if_pos isZero]
      simp

/-- Once the rate was read, what is added up is the tax on every coin of the principal. -/
theorem addTaxesDue_of_read {ctx taxed : Context L} {principal : List Coin} {taxes : Coins}
    (nonzero : currentTaxRate ctx ≠ Dec.zero)
    (folded : principal.foldlM (addTaxDue (currentTaxRate ctx))
      (Coins.empty, (getTaxRate ctx ctx.getEpoch).2) = .ok (taxes, taxed)) :
    SameTaxes (getTaxRate ctx ctx.getEpoch).2 taxed ∧
      ∀ denom, amountOf taxes.toList denom = amountOf (taxesOn ctx principal) denom := by
  have rateRead := getTaxRate_same ctx
  rw [← rateRead.taxRate] at nonzero folded
  rcases addTaxesDue_spec nonzero folded with ⟨same, amount⟩
  refine ⟨same, fun denom => (amount denom).trans ?_⟩
  rw [rateRead.taxesOn_eq, Coins.amountOf_empty, zero_add]

/-- `payTax` charges the payer with the tax on every coin of the principal. -/
theorem payTax_pays {before after : Context L} {taxPayer : Address} {principal : List Coin}
    {taxes : Coins} (done : payTax before taxPayer principal = .ok (taxes, after)) :
    Pays [(taxPayer, taxesOn before principal)] before after := by
  have rateRead := getTaxRate_same before
  have ratePays := rateRead.pays rfl rfl
  rcases payTax_eq_ok done with
    ⟨isZero, -, rfl⟩ | ⟨nonzero, taxed, ledger, folded, subtracted, rfl⟩
  · have nothing := amountOf_taxesOn_of_zero isZero principal
    apply ratePays.of_amounts
    · intro address denom
      simp [credited_cons, nothing]
    · intro denom
      simp [creditedTotal_cons, nothing]
  · rcases addTaxesDue_frame folded with ⟨taxCaps, taxedEq⟩
    simp only at taxedEq
    have taxedSame := (addTaxesDue_of_read nonzero folded).1
    have dueAmount := (addTaxesDue_of_read nonzero folded).2
    have taxedPays := taxedSame.pays (by rw [taxedEq]) (by rw [taxedEq])
    apply ((ratePays.trans taxedPays).trans (collect_pays subtracted)).of_amounts
    · intro address denom
      simp [credited_cons, dueAmount]
    · intro denom
      simp [creditedTotal_cons, dueAmount]

/-- The taxes of one payer are not negative. -/
theorem payTax_nonneg {before after : Context L} {taxPayer : Address} {principal : List Coin}
    {taxes : Coins} (done : payTax before taxPayer principal = .ok (taxes, after))
    (denom : Denom) : 0 ≤ amountOf (taxesOn before principal) denom := by
  rcases payTax_eq_ok done with ⟨isZero, -, -⟩ | ⟨nonzero, taxed, ledger, folded, -⟩
  · rw [amountOf_taxesOn_of_zero isZero]
  · rw [← (addTaxesDue_of_read nonzero folded).2 denom]
    exact taxes.amountOf_nonneg denom

theorem payInputTaxes_nonneg {inputs : List (Address × List Coin)} {before : Context L}
    {totalTaxes : Coins} {after : Coins × Context L}
    (done : inputs.foldlM payInputTax (totalTaxes, before) = .ok after) :
    ∀ entry ∈ taxesOnInputs before inputs, ∀ denom, 0 ≤ amountOf entry.2 denom := by
  induction inputs generalizing before totalTaxes with
  | nil => simp [taxesOnInputs]
  | cons input inputs ih =>
      rw [List.foldlM_cons] at done
      rcases Outcome.bind_eq_ok.mp done with ⟨middle, first, rest⟩
      rcases Outcome.bind_eq_ok.mp first with ⟨⟨taxes, taxed⟩, paid, first⟩
      cases first
      have later := ih rest
      have sameRest : taxesOnInputs taxed inputs = taxesOnInputs before inputs := by
        simp only [taxesOnInputs, (payTax_pays paid).same.taxesOn_eq]
      rw [sameRest] at later
      intro entry listed
      rcases List.mem_cons.mp listed with rfl | listed
      · exact payTax_nonneg paid
      · exact later entry listed

/-- What an accepted transfer does: every address gains what it receives and loses what it
sends and the taxes on its own inputs, and the total tax is collected and recorded. -/
structure Transfers (inputs outputs : List (Address × List Coin)) (before after : Context L) :
    Prop where
  balance : ∀ address denom, (Ledger.balance after.ledger address denom : ℤ) =
    Ledger.balance before.ledger address denom + credited outputs address denom -
      credited inputs address denom - credited (taxesOnInputs before inputs) address denom
  collectedFees : ∀ denom, Ledger.collectedFees after.ledger denom =
    Ledger.collectedFees before.ledger denom + creditedTotal (taxesOnInputs before inputs) denom
  allocatedTo : ∀ address denom, Ledger.allocatedTo after.ledger address denom =
    Ledger.allocatedTo before.ledger address denom
  allocatedTotal : ∀ denom, Ledger.allocatedTotal after.ledger denom =
    Ledger.allocatedTotal before.ledger denom
  proceeds : ∀ epoch denom, proceeds after epoch denom = proceeds before epoch denom +
    if epoch = before.getEpoch then creditedTotal (taxesOnInputs before inputs) denom else 0

/-- First the taxes are paid, then the coins move. -/
theorem Pays.transfers {inputs outputs : List (Address × List Coin)} {before taxed : Context L}
    {ledger : L} (pays : Pays (taxesOnInputs before inputs) before taxed)
    (moves : Moves taxed.ledger ledger { debits := inputs, credits := outputs }) :
    Transfers inputs outputs before { taxed with ledger } := by
  refine ⟨?_, ?_, ?_, ?_, pays.proceeds⟩
  · intro address denom
    refine (moves.balance address denom).trans ?_
    rw [pays.balance]
    ring
  · intro denom
    refine (moves.collectedFees denom).trans ?_
    rw [pays.collectedFees, amountOf_nil, add_zero]
  · intro address denom
    refine (moves.allocatedTo address denom).trans ?_
    rw [pays.allocatedTo, credited_nil, add_zero]
  · intro denom
    refine (moves.allocatedTotal denom).trans ?_
    rw [pays.allocatedTotal, creditedTotal_nil, add_zero]

/-- Each input pays its taxes in the state that the inputs before it have left, where the same
taxes are due. -/
theorem payInputTaxes_pays {inputs : List (Address × List Coin)} {before : Context L}
    {totalTaxes : Coins} {after : Coins × Context L}
    (done : inputs.foldlM payInputTax (totalTaxes, before) = .ok after) :
    Pays (taxesOnInputs before inputs) before after.2 := by
  induction inputs generalizing before totalTaxes with
  | nil =>
      cases done
      exact SameTaxes.pays ⟨rfl, rfl, fun _ => rfl⟩ rfl rfl
  | cons input inputs ih =>
      rw [List.foldlM_cons] at done
      rcases Outcome.bind_eq_ok.mp done with ⟨middle, first, rest⟩
      rcases Outcome.bind_eq_ok.mp first with ⟨⟨taxes, taxed⟩, paid, first⟩
      cases first
      have firstPays := payTax_pays paid
      have restPays := ih rest
      have sameRest : taxesOnInputs taxed inputs = taxesOnInputs before inputs := by
        simp only [taxesOnInputs, firstPays.same.taxesOn_eq]
      rw [sameRest] at restPays
      exact firstPays.trans restPays

theorem handleMsgSend_transfers {before after : Context L} {msg : MsgSend} {result : Result}
    (handled : handleMsgSend before msg = .ok (result, after)) :
    Transfers [(msg.fromAddress, msg.amount)] [(msg.toAddress, msg.amount)] before after := by
  rcases handleMsgSend_eq_ok handled with ⟨taxes, taxed, ledger, paid, sent, rfl⟩
  exact (payInputTaxes_pays paid).transfers (Sdk.sendCoins_moves sent)

theorem handleMsgMultiSend_transfers {before after : Context L} {msg : MsgMultiSend}
    {result : Result} (handled : handleMsgMultiSend before msg = .ok (result, after)) :
    Transfers msg.inputs msg.outputs before after := by
  rcases handleMsgMultiSend_eq_ok handled with ⟨taxes, taxed, ledger, paid, sent, rfl⟩
  exact (payInputTaxes_pays paid).transfers (Sdk.inputOutputCoins_moves sent)

end Pay

end TerraCore
