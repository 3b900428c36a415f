import TerraCore.Oracle.CommitReveal

/-!
# Expiry of prevotes

A prevote can be revealed in the vote period after the one in which it was
submitted. The end blocker deletes prevotes by their age in blocks instead, and
an age of exactly one period is spared: a prevote of the last block of a period
outlives the period in which it could have been revealed.
-/

namespace TerraCore.Oracle

open Transition

variable {L : Type} [Sdk L]

omit [Sdk L] in
theorem get_expirePrevotes (height : ℕ) (store : OracleStore) (key : Denom × Address)
    (prevote : PricePrevote) :
    (expirePrevotes height store).prevotes[key]? = some prevote ↔
      store.prevotes[key]? = some prevote ∧
        (height : ℤ) ≤ prevote.submitBlock + store.params.votePeriod := by
  have listed : key ∈ (store.prevoteList.filter fun prevote =>
      prevote.submitBlock + store.params.votePeriod < height).map
        (fun prevote => (prevote.denom, prevote.voter)) ↔
      ∃ found, store.prevotes[key]? = some found ∧
        found.submitBlock + store.params.votePeriod < height := by
    simp only [OracleStore.prevoteList, List.mem_map, List.mem_filter, decide_eq_true_eq]
    constructor
    · rintro ⟨found, ⟨⟨⟨stored, value⟩, entryMem, rfl⟩, expired⟩, keyEq⟩
      have present := (Store.mem_toList_iff store.prevotes _).mp entryMem
      rw [store.prevotes_keyed _ _ present] at keyEq
      exact ⟨value, keyEq ▸ present, expired⟩
    · rintro ⟨found, present, expired⟩
      refine ⟨found, ⟨⟨(key, found), ?_, rfl⟩, expired⟩, store.prevotes_keyed _ _ present⟩
      exact (Store.mem_toList_iff store.prevotes _).mpr present
  simp only [expirePrevotes, OracleStore.deletePrevotes]
  rw [Store.get_eraseAll]
  split
  · next expired =>
      rcases listed.mp expired with ⟨found, present, old⟩
      rw [present]
      constructor
      · simp
      · rintro ⟨same, young⟩
        cases same
        omega
  · next notListed =>
      constructor
      · intro present
        refine ⟨present, not_lt.mp fun old => notListed (listed.mpr ⟨prevote, present, old⟩)⟩
      · exact And.left

/-- The end of a period keeps the prevotes of the last period and one block. -/
theorem periodEnd_prevotes {ctx next : Context L} {order : MapOrder}
    (taken : step ctx (.endBlock order) = some next)
    (last : ctx.LastBlock ctx.oracle.params.votePeriod) (key : Denom × Address)
    (prevote : PricePrevote) :
    next.oracle.prevotes[key]? = some prevote ↔
      ctx.oracle.prevotes[key]? = some prevote ∧
        (ctx.height : ℤ) ≤ prevote.submitBlock + ctx.oracle.params.votePeriod := by
  rcases endBlock_cases taken with ⟨-, ⟨notLast, -⟩ | ⟨-, paid, height, -, rewarded, oracleEq⟩⟩
  · exact absurd last notLast
  · have samePrevotes := (settled_frame ctx.oracle).2.2.1
    have sameParams := (settled_frame ctx.oracle).2.1
    rw [oracleEq, ← samePrevotes, ← sameParams, ← rewarded, ← height]
    exact get_expirePrevotes paid.height _ key prevote

/-- The action reveals the prevote of the validator on the denomination. -/
def RevealsPrevote (denom : Denom) (validator : Address) (state : Context L)
    (action : Action L) : Prop :=
  ∃ msg, action = .priceVote msg ∧ msg.denom = denom ∧ msg.validator = validator ∧
    ∃ done, deliverPriceVote state msg = .ok done

/-- The prevote was committed in the run and has not been replaced or revealed since. -/
def Pending (start : Context L) (actions : List (Action L)) (ctx : Context L)
    (prevote : PricePrevote) : Prop :=
  ∃ commit : Commit start actions ctx prevote,
    Along step (fun state action =>
      ¬RevealsPrevote prevote.denom prevote.voter state action) commit.committed commit.since

/-- A prevote is no longer stored once it was revealed. -/
theorem reveals_erases {ctx next : Context L} {action : Action L} {denom : Denom}
    {validator : Address} (reveals : RevealsPrevote denom validator ctx action)
    (taken : step ctx action = some next) :
    next.oracle.prevotes[(denom, validator)]? = none := by
  rcases reveals with ⟨msg, rfl, rfl, rfl, ⟨result, after⟩, done⟩
  simp only [step, done] at taken
  cases taken
  rcases deliverPriceVote_eq_ok done with ⟨-, handled⟩
  rcases handleMsgPriceVote_eq_ok handled with ⟨prevote, found, -, -, -, afterEq⟩
  have keyed := ctx.oracle.prevotes_keyed _ _ found
  simp only [Context.deliver]
  rw [afterEq]
  change (Store.eraseAll ctx.oracle.prevotes [(prevote.denom, prevote.voter)])[_]? = none
  rw [keyed, Store.get_eraseAll, if_pos (List.mem_singleton_self _)]

/-- What a step stores as a prevote it was sent, or was stored before. -/
theorem step_prevote_cases {ctx next : Context L} {action : Action L} {key : Denom × Address}
    {prevote : PricePrevote} (taken : step ctx action = some next)
    (present : next.oracle.prevotes[key]? = some prevote) :
    (∃ msg, action = .pricePrevote msg ∧
        prevote = ⟨msg.hash, msg.denom, msg.validator, ctx.height⟩ ∧
        (∃ result, deliverPricePrevote ctx msg = .ok (result, next)) ∧
        msg.validateBasic = .ok () ∧ Permitted ctx.oracle msg.feeder msg.validator) ∨
      (ctx.oracle.prevotes[key]? = some prevote ∧
        ¬StoresPrevote prevote.denom prevote.voter ctx action) := by
  cases step_effect taken with
  | kept notPrevoted keeps =>
      rw [keeps.prevotes] at present
      refine Or.inr ⟨present, ?_⟩
      rintro ⟨msg, isPrevote, -, -, done, accepted⟩
      exact notPrevoted msg isPrevote done accepted
  | @prevoted msg _ accepted valid permitted nextEq =>
      rw [nextEq] at present
      rcases Store.cases_get_insert present with ⟨-, rfl⟩ | ⟨different, stored⟩
      · exact Or.inl ⟨msg, rfl, rfl, accepted, valid, permitted⟩
      · refine Or.inr ⟨stored, ?_⟩
        rintro ⟨other, ⟨rfl⟩, denomEq, validatorEq, -⟩
        apply different
        rw [denomEq, validatorEq]
        exact ctx.oracle.prevotes_keyed key prevote stored
  | voted accepted found permitted inPeriod verified nextEq =>
      rw [nextEq] at present
      refine Or.inr ⟨Store.get_of_get_eraseAll present, ?_⟩
      rintro ⟨_, isPrevote, -⟩
      cases isPrevote
  | ended height notLast oracleEq =>
      rw [oracleEq] at present
      refine Or.inr ⟨present, ?_⟩
      rintro ⟨_, isPrevote, -⟩
      cases isPrevote
  | periodEnded height last staking rewarded oracleEq =>
      refine Or.inr ⟨prevote_stored_before rewarded oracleEq present, ?_⟩
      rintro ⟨_, isPrevote, -⟩
      cases isPrevote

/-- Every stored prevote is pending. -/
theorem pending_of_stored {params : Params} {start ctx : Context L} {actions : List (Action L)}
    (fresh : start.oracle = OracleStore.initGenesis params)
    (reached : Reaches step start actions ctx) {key : Denom × Address} {prevote : PricePrevote}
    (present : ctx.oracle.prevotes[key]? = some prevote) : Pending start actions ctx prevote := by
  induction reached generalizing key prevote with
  | refl =>
      rw [fresh] at present
      exact absurd present (by simp [OracleStore.initGenesis])
  | snoc before taken ih =>
      rcases step_prevote_cases taken present with
        ⟨msg, rfl, rfl, accepted, valid, permitted⟩ | ⟨stored, notReplaced⟩
      · exact ⟨Commit.start before accepted valid permitted, trivial⟩
      · rcases ih stored with ⟨commit, notRevealed⟩
        refine ⟨commit.extend taken notReplaced, notRevealed.snoc commit.reachesEnd ?_⟩
        intro reveals
        have erased := reveals_erases reveals taken
        rw [OracleStore.prevotes_keyed _ _ _ present, present] at erased
        cases erased

theorem step_height {ctx next : Context L} {action : Action L}
    (taken : step ctx action = some next) : ctx.height ≤ next.height := by
  cases step_effect taken with
  | kept _ keeps => exact keeps.height.ge
  | prevoted _ _ _ nextEq => rw [nextEq]
  | voted _ _ _ _ _ nextEq => rw [nextEq]
  | ended height _ _ => omega
  | periodEnded height _ _ _ _ => omega

/-- A prevote that is neither replaced nor revealed stays stored for one period. -/
theorem step_prevote_stays {ctx next : Context L} {action : Action L} {key : Denom × Address}
    {prevote : PricePrevote} (taken : step ctx action = some next)
    (present : ctx.oracle.prevotes[key]? = some prevote)
    (notReplaced : ¬StoresPrevote prevote.denom prevote.voter ctx action)
    (notRevealed : ¬RevealsPrevote prevote.denom prevote.voter ctx action)
    (young : (ctx.height : ℤ) ≤ prevote.submitBlock + ctx.oracle.params.votePeriod) :
    next.oracle.prevotes[key]? = some prevote := by
  have keyed := ctx.oracle.prevotes_keyed _ _ present
  cases step_effect taken with
  | kept _ keeps => rw [keeps.prevotes, present]
  | @prevoted msg _ accepted _ _ nextEq =>
      have different : (msg.denom, msg.validator) ≠ key := by
        rw [← keyed]
        intro same
        rcases Prod.mk.inj same with ⟨denomEq, validatorEq⟩
        rcases accepted with ⟨result, done⟩
        exact notReplaced ⟨msg, rfl, denomEq, validatorEq, _, done⟩
      rw [nextEq]
      change (ctx.oracle.prevotes.insert (msg.denom, msg.validator) _)[key]? = some prevote
      rw [Store.get_insert, if_neg different, present]
  | @voted msg _ other accepted found _ _ _ nextEq =>
      have different : key ≠ (other.denom, other.voter) := by
        rw [← keyed, ctx.oracle.prevotes_keyed _ _ found]
        intro same
        rcases Prod.mk.inj same with ⟨denomEq, validatorEq⟩
        rcases accepted with ⟨result, done⟩
        exact notRevealed ⟨msg, rfl, denomEq.symm, validatorEq.symm, _, done⟩
      rw [nextEq]
      change (Store.eraseAll ctx.oracle.prevotes [(other.denom, other.voter)])[key]? = some prevote
      rw [Store.get_eraseAll, if_neg (by simpa using different), present]
  | ended _ _ oracleEq => rw [oracleEq, present]
  | periodEnded _ last _ _ _ => exact (periodEnd_prevotes taken last key prevote).mpr ⟨present, young⟩

/-- A pending prevote that is at most one period old is stored. -/
theorem stored_of_pending {start ctx : Context L} {actions : List (Action L)}
    {prevote : PricePrevote} (pending : Pending start actions ctx prevote)
    (young : (ctx.height : ℤ) ≤ prevote.submitBlock + start.oracle.params.votePeriod) :
    ctx.oracle.prevotes[(prevote.denom, prevote.voter)]? = some prevote := by
  rcases pending with ⟨commit, notRevealed⟩
  have constant := commit.reaches.invariant
    (fun state => state.oracle.params.votePeriod = start.oracle.params.votePeriod)
    (fun _ _ _ same taken => (step_votePeriod taken).trans same) rfl
  rcases commit.accepted with ⟨result, done⟩
  rcases handleMsgPricePrevote_eq_ok (deliverPricePrevote_eq_ok done).2 with ⟨-, -, committedEq⟩
  have stored : commit.committed.oracle.prevotes[(prevote.denom, prevote.voter)]? =
      some prevote := by
    have sent : (⟨commit.message.hash, commit.message.denom, commit.message.validator,
        commit.committing.height⟩ : PricePrevote) = prevote := by
      rw [← commit.hash_eq, commit.on.1, commit.on.2, ← commit.submitBlock_eq]
    rw [committedEq, sent]
    change (commit.committing.oracle.prevotes.insert (prevote.denom, prevote.voter) prevote)[_]? = _
    rw [Store.get_insert, if_pos rfl]
  -- The invariant: while the prevote is young, it is stored.
  have invariant := commit.reachesEnd.invariant_of_along
    (fun state => state.oracle.params.votePeriod = start.oracle.params.votePeriod ∧
      ((state.height : ℤ) ≤ prevote.submitBlock + start.oracle.params.votePeriod →
        state.oracle.prevotes[(prevote.denom, prevote.voter)]? = some prevote))
    (fun before action after holds untouched taken => by
      refine ⟨(step_votePeriod taken).trans holds.1, fun young => ?_⟩
      have stillYoung : (before.height : ℤ) ≤
          prevote.submitBlock + start.oracle.params.votePeriod := by
        have := step_height taken
        omega
      exact step_prevote_stays taken (holds.2 stillYoung) untouched.1 untouched.2
        (by rw [holds.1]; exact stillYoung))
    (commit.notReplaced.and notRevealed)
    ⟨by rw [committedEq]; exact constant, fun _ => stored⟩
  exact invariant.2 young

theorem Pending.submitBlock_le {start ctx : Context L} {actions : List (Action L)}
    {prevote : PricePrevote} (pending : Pending start actions ctx prevote) :
    prevote.submitBlock ≤ ctx.height := by
  rcases pending with ⟨commit, -⟩
  rcases commit.accepted with ⟨result, done⟩
  rcases handleMsgPricePrevote_eq_ok (deliverPricePrevote_eq_ok done).2 with ⟨-, -, committedEq⟩
  have sameHeight : commit.committed.height = commit.committing.height := by rw [committedEq]
  have grows := commit.reachesEnd.invariant (fun state => commit.committed.height ≤ state.height)
    (fun _ _ _ order taken => order.trans (step_height taken)) le_rfl
  rw [commit.submitBlock_eq]
  omega

/-- Clean-up is exact precisely when no prevote of the last block of the previous
period is left: at the end of period `k` the store then holds the prevotes that
were submitted in the period and are still pending, and no others. -/
theorem cleanup_exact_iff {params : Params} {start ctx next : Context L}
    {actions : List (Action L)} {order : MapOrder} {k : ℕ}
    (fresh : start.oracle = OracleStore.initGenesis params)
    (reached : Reaches step start actions ctx)
    (last : (ctx.height : ℤ) + 1 = (k + 1) * params.votePeriod)
    (taken : step ctx (.endBlock order) = some next) :
    (∀ prevote : PricePrevote,
        next.oracle.prevotes[(prevote.denom, prevote.voter)]? = some prevote ↔
          Pending start actions ctx prevote ∧ k * params.votePeriod ≤ prevote.submitBlock ∧
            prevote.submitBlock < (k + 1) * params.votePeriod) ↔
      ∀ (key : Denom × Address) (prevote : PricePrevote),
        ctx.oracle.prevotes[key]? = some prevote →
          prevote.submitBlock ≠ k * params.votePeriod - 1 := by
  have startPeriod : start.oracle.params.votePeriod = params.votePeriod := by
    rw [fresh]
    rfl
  have constant : ctx.oracle.params.votePeriod = params.votePeriod :=
    (reached.invariant
      (fun state => state.oracle.params.votePeriod = start.oracle.params.votePeriod)
      (fun _ _ _ same taken => (step_votePeriod taken).trans same) rfl).trans startPeriod
  have lastBlock : ctx.LastBlock ctx.oracle.params.votePeriod := by
    rw [constant, Context.LastBlock, last, Int.mul_tmod_left]
  have height : (ctx.height : ℤ) = k * params.votePeriod + params.votePeriod - 1 := by
    rw [add_mul, one_mul] at last
    omega
  have kept := periodEnd_prevotes taken lastBlock
  rw [constant, height] at kept
  constructor
  · intro exact key prevote present spared
    have keyed := ctx.oracle.prevotes_keyed _ _ present
    rw [← keyed] at present
    have still := (kept _ prevote).mpr ⟨present, by omega⟩
    rcases (exact prevote).mp still with ⟨-, inPeriod, -⟩
    omega
  · intro noneSpared prevote
    constructor
    · intro still
      rcases (kept _ prevote).mp still with ⟨present, young⟩
      have pending := pending_of_stored fresh reached present
      have before := pending.submitBlock_le
      have notSpared := noneSpared _ prevote present
      refine ⟨pending, by omega, ?_⟩
      rw [add_mul, one_mul]
      omega
    · rintro ⟨pending, inPeriod, -⟩
      refine (kept _ prevote).mpr ⟨stored_of_pending pending ?_, by omega⟩
      rw [startPeriod]
      omega

/-- The prevote that `sampleStart` receives in its first block. -/
def committedPrevote : PricePrevote :=
  ⟨samplePrevote.hash, microSDRDenom, List.replicate 20 1, 0⟩

/-- Periods have one block. The prevote is still there after the period in which
it had to be revealed. -/
theorem prevote_outlives_period :
    (perform step sampleStart [.pricePrevote samplePrevote, .endBlock MapOrder.sorted]).bind
        (fun ctx => (step ctx (.endBlock MapOrder.sorted)).map fun next =>
          (ctx.height,
            ctx.oracle.prevotes[(microSDRDenom, (List.replicate 20 1 : Address))]?,
            next.oracle.prevotes[(microSDRDenom, (List.replicate 20 1 : Address))]?)) =
      some (1, some committedPrevote, some committedPrevote) := by
  decide +kernel

theorem cleanup_keeps_expired :
    ∃ ctx next : Context Book,
      Reaches step sampleStart [.pricePrevote samplePrevote, .endBlock MapOrder.sorted] ctx ∧
        (ctx.height : ℤ) + 1 = ((1 : ℕ) + 1) * sampleStart.oracle.params.votePeriod ∧
        step ctx (.endBlock MapOrder.sorted) = some next ∧
        next.oracle.prevotes[(committedPrevote.denom, committedPrevote.voter)]? =
          some committedPrevote ∧
        ¬((1 : ℕ) * sampleStart.oracle.params.votePeriod ≤ committedPrevote.submitBlock) := by
  rcases Option.bind_eq_some_iff.mp prevote_outlives_period with ⟨ctx, performed, ended⟩
  rcases Option.map_eq_some_iff.mp ended with ⟨next, taken, values⟩
  simp only [Prod.mk.injEq] at values
  refine ⟨ctx, next, reaches_of_perform performed, ?_, taken, values.2.2, by decide⟩
  rw [values.1]
  decide

theorem prevote_in_first_period :
    (perform step sampleStart [.pricePrevote samplePrevote]).bind
        (fun ctx => (step ctx (.endBlock MapOrder.sorted)).map fun _ =>
          (ctx.height, ctx.oracle.prevotes.toList)) =
      some (0, [((microSDRDenom, List.replicate 20 1), committedPrevote)]) := by
  decide +kernel

/-- In the first period there is no earlier block to spare. -/
theorem cleanup_exact_iff_first_period :
    ∃ ctx next : Context Book,
      Reaches step sampleStart [.pricePrevote samplePrevote] ctx ∧
        step ctx (.endBlock MapOrder.sorted) = some next ∧
        ∀ prevote : PricePrevote,
          next.oracle.prevotes[(prevote.denom, prevote.voter)]? = some prevote ↔
            Pending sampleStart [.pricePrevote samplePrevote] ctx prevote ∧
              (0 : ℕ) * (1 : ℤ) ≤ prevote.submitBlock ∧
              prevote.submitBlock < ((0 : ℕ) + 1) * (1 : ℤ) := by
  rcases Option.bind_eq_some_iff.mp prevote_in_first_period with ⟨ctx, performed, ended⟩
  rcases Option.map_eq_some_iff.mp ended with ⟨next, taken, values⟩
  simp only [Prod.mk.injEq] at values
  have reached := reaches_of_perform performed
  refine ⟨ctx, next, reached, taken, ?_⟩
  have fresh : sampleStart.oracle =
      OracleStore.initGenesis { defaultParams with votePeriod := 1 } := rfl
  refine (cleanup_exact_iff fresh reached (by rw [values.1]; decide) taken).mpr ?_
  intro key prevote present
  have listed := (Store.mem_toList_iff ctx.oracle.prevotes (key, prevote)).mpr present
  rw [values.2, List.mem_singleton] at listed
  cases listed
  decide

end TerraCore.Oracle
