import TerraCore.Genesis
import TerraCore.Library.Transition
import TerraCore.Mint.Accounting

/-!
# The history of issuance

Reading issuance writes: every read fills in the snapshots that it passed. The
history of a denomination is therefore modelled twice. `call` runs the keeper
itself on any sequence of changes, reads and block heights, and keeps a journal
of the changes that were accepted. `replay` is what the keeper is for: a counter
that does not know of snapshots and for which a read does nothing. The keeper
refines the counter, so that no read, wherever it is placed, shows in a result.
-/

namespace TerraCore.Mint

open Transition

variable {L : Type} [Sdk L]

/-- A change that was accepted: its day, its delta, and the issuance it left in effect. -/
structure Entry where
  day : ℤ
  delta : ℤ
  issuance : ℕ
deriving DecidableEq

/-- The issuance after the last of the changes, which are listed from the latest on. -/
def latest (genesis : ℕ) : List Entry → ℕ
  | [] => genesis
  | entry :: _ => entry.issuance

/-- The issuance after the last change that was made on the given day or before it. -/
def inEffect (genesis : ℕ) (entries : List Entry) (day : ℤ) : ℕ :=
  latest genesis (entries.filter fun entry => entry.day ≤ day)

/-- The calls of the keeper for one denomination, and the blocks that pass between them. -/
inductive Call where
  | change (delta : ℤ)
  | read (day : ℤ)
  | advance (blocks : ℕ)
deriving DecidableEq

def Call.isRead : Call → Bool
  | .read _ => true
  | _ => false

/-- A counter with its height and the changes that it accepted. -/
structure Counter where
  height : ℕ
  entries : List Entry
deriving DecidableEq

def count (genesis : ℕ) (counter : Counter) : Call → Counter
  | .change delta =>
      let issuance := (latest genesis counter.entries : ℤ) + delta
      if issuance < 0 then counter
      else
        { counter with
          entries := ⟨((counter.height / blocksPerDay : ℕ) : ℤ), delta, issuance.toNat⟩ ::
            counter.entries }
  | .read _ => counter
  | .advance blocks => { counter with height := counter.height + blocks }

/-- The counter after a sequence of calls. -/
def replay (genesis : ℕ) (counter : Counter) (calls : List Call) : Counter :=
  calls.foldl (count genesis) counter

theorem replay_without_reads (genesis : ℕ) (counter : Counter) (calls : List Call) :
    replay genesis counter (calls.filter fun call => !call.isRead) =
      replay genesis counter calls := by
  induction calls generalizing counter with
  | nil => rfl
  | cons call calls ih =>
      cases call with
      | read day => exact ih counter
      | change delta => exact ih (count genesis counter (.change delta))
      | advance blocks => exact ih (count genesis counter (.advance blocks))

/-- The chain together with the changes that `ChangeIssuance` accepted, the latest first. -/
structure Journal (L : Type) where
  ctx : Context L
  entries : List Entry

/-- A call of the keeper. A change that is refused has still read the issuance
of today; the issuance of a day that has not come is never read. -/
def call (denom : Denom) (journal : Journal L) : Call → Option (Journal L)
  | .change delta =>
      match changeIssuance journal.ctx denom delta with
      | .ok after =>
          some ⟨after, ⟨journal.ctx.today, delta, issuanceAt after denom after.today⟩ ::
            journal.entries⟩
      | .error _ =>
          some { journal with ctx := (getIssuance journal.ctx denom journal.ctx.today).2 }
  | .read day =>
      if day ≤ journal.ctx.today then
        some { journal with ctx := (getIssuance journal.ctx denom day).2 }
      else none
  | .advance blocks =>
      some { journal with
        ctx := { journal.ctx with height := journal.ctx.height + blocks } }

/-- The day-zero snapshot of a denomination has been taken, and nothing has changed since. -/
structure Begun (denom : Denom) (genesis : ℕ) (ctx : Context L) : Prop where
  dated : Dated ctx
  snapshot : ctx.mint.issuance[(denom, (0 : ℤ))]? = some genesis
  unchanged : ∀ (day : ℤ) issuance, 0 ≤ day →
    ctx.mint.issuance[(denom, day)]? = some issuance → issuance = genesis

theorem issuanceAt_setIssuance_of_le {ctx : Context L} (dated : Dated ctx) (denom : Denom)
    (issuance : ℕ) {day : ℤ} (order : ctx.today ≤ day) :
    issuanceAt (setIssuance ctx denom ctx.today issuance) denom day = issuance := by
  have written := setIssuance_changes ctx denom issuance
  have later : issuanceAt (setIssuance ctx denom ctx.today issuance) denom day =
      issuanceAt (setIssuance ctx denom ctx.today issuance) denom ctx.today :=
    issuanceAt_of_later (written.dated dated) denom order
  rw [later, issuanceAt_eq]
  change lookBack _ _ _ ctx.today.toNat ctx.today = issuance
  generalize ctx.today.toNat = earlier
  cases earlier <;> simp [lookBack, setIssuance_get]

omit [Sdk L] in
theorem Begun.hasSnapshot {denom : Denom} {genesis : ℕ} {ctx : Context L}
    (begun : Begun denom genesis ctx) : HasSnapshot ctx denom :=
  ⟨genesis, begun.snapshot⟩

theorem Begun.issuanceAt_eq {denom : Denom} {genesis : ℕ} {ctx : Context L}
    (begun : Begun denom genesis ctx) {day : ℤ} (nonneg : 0 ≤ day) :
    issuanceAt ctx denom day = genesis := by
  rw [Mint.issuanceAt_eq]
  generalize steps : day.toNat = earlier
  induction earlier generalizing day with
  | zero =>
      have dayZero : day = 0 := by omega
      subst dayZero
      simp [lookBack, begun.snapshot]
  | succ earlier ih =>
      rw [lookBack]
      cases present : ctx.mint.issuance[(denom, day)]? with
      | some issuance => exact begun.unchanged day issuance nonneg present
      | none => exact ih (by omega) (by omega)

/-- No snapshot of the denomination has been taken. -/
def Unread (ctx : Context L) (denom : Denom) : Prop :=
  ∀ day : ℤ, 0 ≤ day → ctx.mint.issuance[(denom, day)]? = none

theorem Unread.issuanceAt_eq {ctx : Context L} {denom : Denom} (unread : Unread ctx denom)
    {day : ℤ} (nonneg : 0 ≤ day) : issuanceAt ctx denom day = supply ctx.ledger denom := by
  rw [Mint.issuanceAt_eq]
  generalize steps : day.toNat = earlier
  induction earlier generalizing day with
  | zero => simp [lookBack, unread day nonneg]
  | succ earlier ih =>
      rw [lookBack, unread day nonneg]
      exact ih (by omega) (by omega)

/-- A read of a denomination without snapshots goes down to day zero. -/
theorem readIssuance_dayZero {accountTotal : ℕ} {denom : Denom} {store : MintStore} {day : ℤ}
    (nonneg : 0 ≤ day)
    (unread : ∀ day : ℤ, 0 ≤ day → store.issuance[(denom, day)]? = none) :
    (readIssuance accountTotal denom day.toNat day store).2.issuance[(denom, (0 : ℤ))]? =
      some accountTotal := by
  generalize steps : day.toNat = earlier
  induction earlier generalizing day with
  | zero =>
      have dayZero : day = 0 := by omega
      subst dayZero
      simp [readIssuance, unread 0 le_rfl]
  | succ earlier ih =>
      have different : (denom, day) ≠ (denom, (0 : ℤ)) := by
        intro same
        have := (Prod.ext_iff.mp same).2
        simp only at this
        omega
      simp only [readIssuance, unread day nonneg, Store.get_insert, if_neg different]
      exact ih (by omega) (by omega)

/-- The first read of a denomination starts its history. -/
theorem begun_of_first_read {ctx : Context L} {denom : Denom} (dated : Dated ctx)
    (unread : Unread ctx denom) :
    Begun denom (supply ctx.ledger denom) (getIssuance ctx denom ctx.today).2 := by
  refine ⟨dated.getIssuance denom le_rfl, readIssuance_dayZero (today_nonneg ctx) unread, ?_⟩
  intro day issuance nonneg present
  rcases getIssuance_get ctx denom ctx.today (denom, day) with same | ⟨_, _, _, added⟩
  · rw [same, unread day nonneg] at present
    cases present
  · rw [added, unread.issuanceAt_eq nonneg] at present
    exact (Option.some.inj present).symm

/-- The chain agrees with a counter: it has accepted the same changes, and the
issuance of every day is the one that the counter has in effect on it. -/
structure Follows (denom : Denom) (genesis : ℕ) (counter : Counter) (journal : Journal L) :
    Prop where
  height : journal.ctx.height = counter.height
  entries : journal.entries = counter.entries
  dated : Dated journal.ctx
  snapshot : HasSnapshot journal.ctx denom
  past : ∀ entry ∈ counter.entries, entry.day ≤ journal.ctx.today
  issuance : ∀ day : ℤ, 0 ≤ day →
    issuanceAt journal.ctx denom day = inEffect genesis counter.entries day
  total : (latest genesis counter.entries : ℤ) =
    genesis + (counter.entries.map Entry.delta).sum

theorem Begun.follows {denom : Denom} {genesis : ℕ} {ctx : Context L}
    (begun : Begun denom genesis ctx) :
    Follows denom genesis ⟨ctx.height, []⟩ (⟨ctx, []⟩ : Journal L) where
  height := rfl
  entries := rfl
  dated := begun.dated
  snapshot := begun.hasSnapshot
  past := by simp
  issuance day nonneg := begun.issuanceAt_eq nonneg
  total := by simp [latest]

namespace Follows

variable {denom : Denom} {genesis : ℕ} {counter : Counter} {journal next : Journal L}

omit [Sdk L] in
theorem inEffect_of_later {entries : List Entry} {today day : ℤ}
    (past : ∀ entry ∈ entries, entry.day ≤ today) (order : today ≤ day) :
    inEffect genesis entries day = latest genesis entries := by
  have all : entries.filter (fun entry => entry.day ≤ day) = entries := by
    rw [List.filter_eq_self]
    intro entry entryMem
    exact decide_eq_true ((past entry entryMem).trans order)
  rw [inEffect, all]

/-- The issuance of today is the one after the last change. -/
theorem today (follows : Follows denom genesis counter journal) :
    issuanceAt journal.ctx denom journal.ctx.today = latest genesis counter.entries := by
  rw [follows.issuance _ (today_nonneg _), inEffect_of_later follows.past le_rfl]

theorem read (follows : Follows denom genesis counter journal) {day : ℤ}
    (past : day ≤ journal.ctx.today) :
    Follows denom genesis counter
      { journal with ctx := (getIssuance journal.ctx denom day).2 } where
  height := follows.height
  entries := follows.entries
  dated := follows.dated.getIssuance denom past
  snapshot := follows.snapshot.getIssuance denom day
  past := follows.past
  issuance other nonneg := by
    rw [issuanceAt_getIssuance]
    exact follows.issuance other nonneg
  total := follows.total

theorem advance (follows : Follows denom genesis counter journal) (blocks : ℕ) :
    Follows denom genesis (count genesis counter (.advance blocks))
      { journal with ctx := { journal.ctx with height := journal.ctx.height + blocks } } where
  height := by rw [count, follows.height]
  entries := follows.entries
  dated := dated_advance follows.dated blocks
  snapshot := follows.snapshot
  past entry entryMem := (follows.past entry entryMem).trans (today_advance journal.ctx blocks)
  issuance day nonneg := follows.issuance day nonneg
  total := follows.total

/-- The counter and the snapshots after an accepted change. -/
theorem write (follows : Follows denom genesis counter journal) {delta : ℤ}
    (nonneg : 0 ≤ (latest genesis counter.entries : ℤ) + delta) {after : Context L}
    (afterEq : after = setIssuance (getIssuance journal.ctx denom journal.ctx.today).2 denom
      journal.ctx.today ((latest genesis counter.entries : ℤ) + delta).toNat) :
    Follows denom genesis (count genesis counter (.change delta))
      ⟨after, ⟨journal.ctx.today, delta, issuanceAt after denom after.today⟩ ::
        journal.entries⟩ := by
  subst afterEq
  have readFollows := follows.read (le_refl journal.ctx.today)
  have written := setIssuance_changes (getIssuance journal.ctx denom journal.ctx.today).2 denom
    ((latest genesis counter.entries : ℤ) + delta).toNat
  have sameDay : ((counter.height / blocksPerDay : ℕ) : ℤ) = journal.ctx.today := by
    rw [Context.today, follows.height]
  have newValue : issuanceAt
      (setIssuance (getIssuance journal.ctx denom journal.ctx.today).2 denom journal.ctx.today
        ((latest genesis counter.entries : ℤ) + delta).toNat) denom journal.ctx.today =
        ((latest genesis counter.entries : ℤ) + delta).toNat :=
    issuanceAt_setIssuance_of_le readFollows.dated denom _ (le_refl journal.ctx.today)
  have counted : count genesis counter (.change delta) =
      { counter with
        entries := ⟨journal.ctx.today, delta,
          ((latest genesis counter.entries : ℤ) + delta).toNat⟩ :: counter.entries } := by
    rw [count, if_neg (not_lt.mpr nonneg), sameDay]
  rw [counted]
  constructor
  · exact follows.height
  · change ⟨journal.ctx.today, delta, issuanceAt _ denom journal.ctx.today⟩ :: journal.entries = _
    rw [newValue, follows.entries]
  · exact written.dated readFollows.dated
  · exact written.snapshot denom readFollows.snapshot
  · intro entry entryMem
    rcases List.mem_cons.mp entryMem with rfl | old
    · exact le_rfl
    · exact follows.past entry old
  · intro day dayNonneg
    by_cases past : day < journal.ctx.today
    · -- The new snapshot does not reach back.
      have older := issuanceAt_setIssuance_of_lt
        (getIssuance journal.ctx denom journal.ctx.today).2 denom
        ((latest genesis counter.entries : ℤ) + delta).toNat past
      rw [inEffect, List.filter_cons_of_neg (by simpa using past)]
      exact older.trans (readFollows.issuance day dayNonneg)
    · have covers : journal.ctx.today ≤ day := not_lt.mp past
      rw [inEffect, List.filter_cons_of_pos (by simpa using covers)]
      exact issuanceAt_setIssuance_of_le readFollows.dated denom _ covers
  · have before := follows.total
    rw [latest, List.map_cons, List.sum_cons, Int.toNat_of_nonneg nonneg, before]
    ring

/-- A change is accepted by the keeper exactly when the counter accepts it. -/
theorem change (follows : Follows denom genesis counter journal) {delta : ℤ}
    (called : call denom journal (.change delta) = some next) :
    Follows denom genesis (count genesis counter (.change delta)) next := by
  have readFollows := follows.read (le_refl journal.ctx.today)
  rw [call, changeIssuance_of_snapshot follows.snapshot, follows.today] at called
  by_cases refused : (latest genesis counter.entries : ℤ) + delta < 0
  · rw [if_pos refused] at called
    cases called
    rw [count, if_pos refused]
    exact readFollows
  · rw [if_neg refused] at called
    cases called
    exact follows.write (not_lt.mp refused) rfl

/-- One call of the keeper is one step of the counter. -/
theorem call_step (follows : Follows denom genesis counter journal) {action : Call}
    (called : call denom journal action = some next) :
    Follows denom genesis (count genesis counter action) next := by
  cases action with
  | change delta => exact follows.change called
  | read day =>
      simp only [call] at called
      split at called
      · next past =>
          cases called
          exact follows.read past
      · cases called
  | advance blocks =>
      cases called
      exact follows.advance blocks

end Follows

/-- A run of the keeper is a run of the counter. -/
theorem follows_replay {denom : Denom} {genesis : ℕ} {counter : Counter}
    {start journal : Journal L} {calls : List Call}
    (reached : Reaches (call denom) start calls journal)
    (follows : Follows denom genesis counter start) :
    Follows denom genesis (replay genesis counter calls) journal := by
  induction reached with
  | refl => exact follows
  | snoc _ called ih =>
      rw [replay, List.foldl_append]
      exact ih.call_step called

/-- Changes and blocks never stop a run. -/
theorem call_isSome (denom : Denom) (journal : Journal L) {action : Call}
    (notRead : action.isRead = false) : ∃ next, call denom journal action = some next := by
  cases action with
  | change delta =>
      simp only [call]
      split <;> exact ⟨_, rfl⟩
  | read day => cases notRead
  | advance blocks => exact ⟨_, rfl⟩

/-- A run from which the reads are removed is still a run. -/
theorem reaches_without_reads {denom : Denom} {start journal : Journal L} {calls : List Call}
    (reached : Reaches (call denom) start calls journal) :
    ∃ bare, Reaches (call denom) start (calls.filter fun call => !call.isRead) bare := by
  -- Nothing has to be related: changes and blocks are possible everywhere.
  have along : Along (call denom) (fun _ _ => True) start calls :=
    along_of_forall (fun _ _ _ => trivial) start
  rcases reached.without_silent (fun _ _ => True) (fun _ _ _ _ _ _ _ _ => trivial)
      (fun _ _ _ other notRead _ _ => by
        rcases call_isSome denom other notRead with ⟨next, called⟩
        exact ⟨next, called, trivial⟩) along trivial with
    ⟨bare, bareReached, -⟩
  exact ⟨bare, bareReached⟩

/-- The history of issuance is immutable. In every run from the first snapshot
on, the issuance of a past day is the one after the last change made by that
day, the issuance of today is the start value plus all accepted deltas, and a
run with the same changes but other reads has the same history. -/
theorem issuance_history_immutable {denom : Denom} {genesis : ℕ} {start : Context L}
    (begun : Begun denom genesis start) {calls : List Call} {journal : Journal L}
    (reached : Reaches (call denom) ⟨start, []⟩ calls journal) :
    (∀ day : ℤ, 0 ≤ day → day ≤ journal.ctx.today →
        issuanceAt journal.ctx denom day = inEffect genesis journal.entries day) ∧
      (issuanceAt journal.ctx denom journal.ctx.today : ℤ) =
        genesis + (journal.entries.map Entry.delta).sum ∧
      (∃ bare, Reaches (call denom) ⟨start, []⟩ (calls.filter fun call => !call.isRead) bare) ∧
      ∀ otherCalls : List Call,
        otherCalls.filter (fun call => !call.isRead) = calls.filter (fun call => !call.isRead) →
        ∀ other, Reaches (call denom) ⟨start, []⟩ otherCalls other →
          other.entries = journal.entries ∧
            ∀ day : ℤ, 0 ≤ day →
              issuanceAt other.ctx denom day = issuanceAt journal.ctx denom day := by
  have follows := follows_replay reached begun.follows
  refine ⟨?_, ?_, reaches_without_reads reached, ?_⟩
  · intro day nonneg _
    rw [follows.entries]
    exact follows.issuance day nonneg
  · rw [follows.today, follows.entries]
    exact follows.total
  · intro otherCalls sameCalls other otherReached
    have otherFollows := follows_replay otherReached begun.follows
    have sameReplay : replay genesis ⟨start.height, []⟩ otherCalls =
        replay genesis ⟨start.height, []⟩ calls := by
      rw [← replay_without_reads, sameCalls, replay_without_reads]
    rw [sameReplay] at otherFollows
    refine ⟨otherFollows.entries.trans follows.entries.symm, ?_⟩
    intro day nonneg
    rw [otherFollows.issuance day nonneg, follows.issuance day nonneg]

/-- An account with one unit of SDR. -/
def sampleAccounts : Context Book :=
  Context.genesis (Book.empty.setAmounts [1] fun denom => if denom = microSDRDenom then 1 else 0)
    (Staking.single (List.replicate 20 1) 10 single_length)

/-- A day after the first count one more unit is issued, and a burn of five is refused. -/
def sampleCalls : List Call :=
  [.advance blocksPerDay, .read 0, .change 1, .change (-5), .read 1]

theorem issuance_history_immutable_sample :
    ∃ journal : Journal Book,
      Reaches (call microSDRDenom) ⟨(getIssuance sampleAccounts microSDRDenom 0).2, []⟩
        sampleCalls journal ∧
      issuanceAt journal.ctx microSDRDenom 0 = inEffect 1 journal.entries 0 ∧
      journal.entries.map Entry.delta = [1] := by
  have noSnapshots : ∀ key : Denom × ℤ, sampleAccounts.mint.issuance[key]? = none :=
    fun key => Store.get_empty key
  have dated : Dated sampleAccounts := by
    intro key issuance present
    rw [noSnapshots key] at present
    cases present
  have begun : Begun microSDRDenom 1 (getIssuance sampleAccounts microSDRDenom 0).2 :=
    begun_of_first_read dated fun day _ => noSnapshots (microSDRDenom, day)
  have deltas : (perform (call microSDRDenom)
      ⟨(getIssuance sampleAccounts microSDRDenom 0).2, []⟩ sampleCalls).map
        (fun journal => journal.entries.map Entry.delta) = some [1] := by
    decide +kernel
  rcases Option.map_eq_some_iff.mp deltas with ⟨journal, performed, deltasEq⟩
  have reached := reaches_of_perform performed
  exact ⟨journal, reached,
    (issuance_history_immutable begun reached).1 0 le_rfl (today_nonneg _), deltasEq⟩

end TerraCore.Mint
