import TerraCore.Context

/-!
# Price ballots

A ballot is the list of the votes on one denomination. Votes are weighted by
the bonded tokens of the validator that cast them; a vote whose voter is no
longer a validator has no power at all. The weighted median does not depend on
the order of the votes: it is the least price below which half of the power
has been counted.
-/

namespace TerraCore.Oracle

abbrev PriceBallot := List PriceVote

variable (staking : Staking)

/-- `PriceVote.getPower`, which fails for a voter that is not a validator. -/
def PriceVote.getPower (vote : PriceVote) : Option ℕ := staking.validator vote.voter

def power (ballot : PriceBallot) : ℕ :=
  ballot.foldl (fun totalPower vote =>
    match vote.getPower staking with
    | some votePower => totalPower + votePower
    | none => totalPower) 0

/-- `PriceBallot.Less`, which holds for equal prices too. -/
def less (left right : PriceVote) : Bool := decide (left.price ≤ right.price)

/-- `sort.IsSorted`: no vote may sort before its predecessor. As `Less` is not
strict, a ballot with two equal neighbours does not count as sorted. -/
def isSorted : PriceBallot → Bool
  | first :: second :: rest => !less second first && isSorted (second :: rest)
  | _ => true

/-- The loop of `PriceBallot.weightedMedian`. -/
def medianFrom (totalPower : ℕ) : ℕ → PriceBallot → Dec
  | _, [] => Dec.zero
  | pivot, vote :: rest =>
      match vote.getPower staking with
      | none => medianFrom totalPower pivot rest
      | some votePower =>
          if totalPower / 2 ≤ pivot + votePower then vote.price
          else medianFrom totalPower (pivot + votePower) rest

section Sorting

variable (L : Type) [Sdk L]

/-- `if !sort.IsSorted(pb) { sort.Sort(pb) }` -/
def sortBallot (ballot : PriceBallot) : PriceBallot :=
  if isSorted ballot then ballot else Sdk.sort (L := L) less ballot

def weightedMedian (ballot : PriceBallot) : Dec :=
  medianFrom staking (power staking ballot) 0 (sortBallot L ballot)

end Sorting

/-- The power that a vote adds to its ballot. -/
def votePower (vote : PriceVote) : ℕ := (vote.getPower staking).getD 0

theorem power_eq_sum (ballot : PriceBallot) :
    power staking ballot = (ballot.map (votePower staking)).sum := by
  have fromTotal : ∀ totalPower : ℕ,
      ballot.foldl (fun totalPower vote =>
        match PriceVote.getPower staking vote with
        | some votePower => totalPower + votePower
        | none => totalPower) totalPower =
          totalPower + (ballot.map (votePower staking)).sum := by
    induction ballot with
    | nil => simp
    | cons vote ballot ih =>
        intro totalPower
        rw [List.foldl_cons, ih, List.map_cons, List.sum_cons, ← add_assoc, votePower]
        cases vote.getPower staking <;> simp
  unfold power
  rw [fromTotal, zero_add]

theorem power_perm {first second : PriceBallot} (perm : first.Perm second) :
    power staking first = power staking second := by
  rw [power_eq_sum, power_eq_sum, (perm.map _).sum_eq]

theorem less_iff (left right : PriceVote) :
    less left right = true ↔ left.price.raw ≤ right.price.raw := by
  simp [less, Dec.le_def]

theorem sorted_of_isSorted {ballot : PriceBallot} (sorted : isSorted ballot = true) :
    ballot.Pairwise fun left right => left.price.raw ≤ right.price.raw := by
  induction ballot with
  | nil => exact List.Pairwise.nil
  | cons first rest ih =>
      cases rest with
      | nil => simp
      | cons second rest =>
          simp only [isSorted, Bool.and_eq_true, Bool.not_eq_true'] at sorted
          have restSorted := ih sorted.2
          have inOrder : first.price.raw ≤ second.price.raw := by
            have notLess : ¬ second.price.raw ≤ first.price.raw := by
              rw [← less_iff, sorted.1]
              decide
            omega
          refine List.pairwise_cons.mpr ⟨?_, restSorted⟩
          intro vote voteMem
          rcases List.mem_cons.mp voteMem with rfl | later
          · exact inOrder
          · exact inOrder.trans ((List.pairwise_cons.mp restSorted).1 vote later)

section Median

variable (L : Type) [Sdk L]

theorem sortBallot_perm (ballot : PriceBallot) : (sortBallot L ballot).Perm ballot := by
  unfold sortBallot
  split
  · exact List.Perm.refl _
  · exact Sdk.sort_perm less ballot

theorem sortBallot_sorted (ballot : PriceBallot) :
    (sortBallot L ballot).Pairwise fun left right => left.price.raw ≤ right.price.raw := by
  unfold sortBallot
  split
  · next sorted => exact sorted_of_isSorted sorted
  · have sorted := Sdk.sort_sorted (L := L) less ballot
      (by simp only [less_iff]; omega) (by simp only [less_iff]; omega)
    exact sorted.imp (less_iff _ _).mp

end Median

/-- The power of the votes whose price is at most `price`. -/
def powerUpTo (ballot : PriceBallot) (price : Dec) : ℕ :=
  power staking (ballot.filter fun vote => vote.price ≤ price)

/-- `price` is the least price of a validator's vote at which half of the
power, rounded down, has been counted. -/
structure IsWeightedMedian (ballot : PriceBallot) (price : Dec) : Prop where
  voted : ∃ vote ∈ ballot, (vote.getPower staking).isSome ∧ vote.price = price
  half : power staking ballot / 2 ≤ powerUpTo staking ballot price
  least : ∀ vote ∈ ballot, (vote.getPower staking).isSome →
    power staking ballot / 2 ≤ powerUpTo staking ballot vote.price → price ≤ vote.price

theorem IsWeightedMedian.unique {ballot : PriceBallot} {first second : Dec}
    (left : IsWeightedMedian staking ballot first)
    (right : IsWeightedMedian staking ballot second) : first = second := by
  rcases left.voted with ⟨firstVote, firstMem, firstPower, firstPrice⟩
  rcases right.voted with ⟨secondVote, secondMem, secondPower, secondPrice⟩
  have below := left.least secondVote secondMem secondPower (secondPrice ▸ right.half)
  have above := right.least firstVote firstMem firstPower (firstPrice ▸ left.half)
  rw [secondPrice, Dec.le_def] at below
  rw [firstPrice, Dec.le_def] at above
  exact Dec.ext (le_antisymm below above)

theorem powerUpTo_perm {first second : PriceBallot} (perm : first.Perm second) (price : Dec) :
    powerUpTo staking first price = powerUpTo staking second price :=
  power_perm staking (perm.filter _)

theorem IsWeightedMedian.perm {first second : PriceBallot} (perm : first.Perm second)
    {price : Dec} (median : IsWeightedMedian staking first price) :
    IsWeightedMedian staking second price where
  voted := by
    rcases median.voted with ⟨vote, voteMem, rest⟩
    exact ⟨vote, perm.mem_iff.mp voteMem, rest⟩
  half := by
    rw [← power_perm staking perm, ← powerUpTo_perm staking perm]
    exact median.half
  least vote voteMem hasPower := by
    rw [← power_perm staking perm, ← powerUpTo_perm staking perm]
    exact median.least vote (perm.mem_iff.mpr voteMem) hasPower

theorem power_append (first second : PriceBallot) :
    power staking (first ++ second) = power staking first + power staking second := by
  simp [power_eq_sum]

theorem power_singleton (vote : PriceVote) :
    power staking [vote] = votePower staking vote := by
  simp [power_eq_sum]

/-- The vote at which the count reaches half of the power carries the median. -/
theorem isWeightedMedian_of_reached {counted rest : PriceBallot} {vote : PriceVote} {bonded : ℕ}
    (sorted : (counted ++ vote :: rest).Pairwise
      fun left right => left.price.raw ≤ right.price.raw)
    (below : ∀ earlier ∈ counted, (earlier.getPower staking).isSome →
      power staking counted < power staking (counted ++ vote :: rest) / 2)
    (hasPower : vote.getPower staking = some bonded)
    (reached : power staking (counted ++ vote :: rest) / 2 ≤ power staking counted + bonded) :
    IsWeightedMedian staking (counted ++ vote :: rest) vote.price := by
  rcases List.pairwise_append.mp sorted with ⟨-, laterSorted, inOrder⟩
  have laterPrices := (List.pairwise_cons.mp laterSorted).1
  refine ⟨⟨vote, by simp, by simp [hasPower], rfl⟩, ?_, ?_⟩
  · -- Everything counted so far has a price up to this one.
    have allBelow : counted.filter (fun earlier => earlier.price ≤ vote.price) = counted := by
      apply List.filter_eq_self.mpr
      intro earlier earlierMem
      exact decide_eq_true (inOrder earlier earlierMem vote List.mem_cons_self)
    have here : decide (vote.price ≤ vote.price) = true :=
      decide_eq_true (Dec.le_def.mpr le_rfl)
    have atLeast : power staking counted + bonded ≤
        powerUpTo staking (counted ++ vote :: rest) vote.price := by
      unfold powerUpTo
      rw [List.filter_append, allBelow, List.filter_cons, if_pos here, power_append,
        ← List.singleton_append, power_append, power_singleton, votePower, hasPower]
      simp
    exact reached.trans atLeast
  · -- A smaller price only counts votes from before this one.
    intro other otherMem otherPower half
    by_contra smaller
    rw [Dec.le_def, not_le] at smaller
    have notLater : ∀ later ∈ vote :: rest, other.price.raw < later.price.raw := by
      intro later laterMem
      rcases List.mem_cons.mp laterMem with rfl | inRest
      · exact smaller
      · exact smaller.trans_le (laterPrices later inRest)
    have laterEmpty : (vote :: rest).filter (fun later => later.price ≤ other.price) = [] := by
      apply List.filter_eq_nil_iff.mpr
      intro later laterMem
      rw [decide_eq_true_eq, Dec.le_def, not_le]
      exact notLater later laterMem
    have earlier : other ∈ counted := by
      rcases List.mem_append.mp otherMem with old | new
      · exact old
      · exact absurd (notLater other new) (lt_irrefl _)
    have atMost : powerUpTo staking (counted ++ vote :: rest) other.price ≤
        power staking counted := by
      unfold powerUpTo
      rw [List.filter_append, laterEmpty, List.append_nil, power_eq_sum, power_eq_sum]
      exact (List.filter_sublist.map _).sum_le_sum (by simp)
    have := below other earlier otherPower
    omega

/-- The loop finds the median: everything before `rest` has been counted into
the pivot, and no vote counted so far reached half of the power. -/
theorem medianFrom_isWeightedMedian {counted rest : PriceBallot}
    (sorted : (counted ++ rest).Pairwise fun left right => left.price.raw ≤ right.price.raw)
    (below : ∀ vote ∈ counted, (vote.getPower staking).isSome →
      power staking counted < power staking (counted ++ rest) / 2)
    (someone : ∃ vote ∈ counted ++ rest, (vote.getPower staking).isSome) :
    IsWeightedMedian staking (counted ++ rest)
      (medianFrom staking (power staking (counted ++ rest)) (power staking counted) rest) := by
  induction rest generalizing counted with
  | nil =>
      -- Having counted everything, the pivot cannot still be below half.
      rcases someone with ⟨vote, voteMem, hasPower⟩
      rw [List.append_nil] at voteMem below
      have := below vote voteMem hasPower
      omega
  | cons vote rest ih =>
      have regroup : counted ++ vote :: rest = (counted ++ [vote]) ++ rest := by simp
      have nextPower : power staking (counted ++ [vote]) =
          power staking counted + votePower staking vote := by
        rw [power_append, power_singleton]
      cases hasPower : vote.getPower staking with
      | none =>
          rw [votePower, hasPower, Option.getD_none, add_zero] at nextPower
          simp only [medianFrom, hasPower]
          rw [regroup] at sorted below someone ⊢
          rw [← nextPower] at below ⊢
          apply ih sorted _ someone
          intro earlier earlierMem earlierPower
          rcases List.mem_append.mp earlierMem with old | new
          · exact below earlier old earlierPower
          · rw [List.mem_singleton.mp new, hasPower] at earlierPower
            cases earlierPower
      | some bonded =>
          rw [votePower, hasPower, Option.getD_some] at nextPower
          simp only [medianFrom, hasPower]
          split
          · next reached => exact isWeightedMedian_of_reached staking sorted below hasPower reached
          · next notReached =>
              rw [regroup] at sorted someone notReached ⊢
              rw [← nextPower] at notReached ⊢
              apply ih sorted _ someone
              intro _ _ _
              omega

theorem medianFrom_of_nobody {ballot : PriceBallot}
    (nobody : ∀ vote ∈ ballot, vote.getPower staking = none) (totalPower pivot : ℕ) :
    medianFrom staking totalPower pivot ballot = Dec.zero := by
  induction ballot with
  | nil => rfl
  | cons vote ballot ih =>
      simp only [medianFrom, nobody vote List.mem_cons_self]
      exact ih fun other otherMem => nobody other (List.mem_cons_of_mem _ otherMem)

section Result

variable (L : Type) [Sdk L]

/-- `weightedMedian` computes the weighted median of a ballot on which at least
one validator voted. -/
theorem weightedMedian_isWeightedMedian {ballot : PriceBallot}
    (someone : ∃ vote ∈ ballot, (vote.getPower staking).isSome) :
    IsWeightedMedian staking ballot (weightedMedian staking L ballot) := by
  have perm := sortBallot_perm L ballot
  have found : IsWeightedMedian staking ([] ++ sortBallot L ballot)
      (medianFrom staking (power staking ([] ++ sortBallot L ballot)) (power staking [])
        (sortBallot L ballot)) := by
    apply medianFrom_isWeightedMedian staking (sortBallot_sorted L ballot)
    · intro vote voteMem
      cases voteMem
    · rcases someone with ⟨vote, voteMem, hasPower⟩
      exact ⟨vote, perm.mem_iff.mpr voteMem, hasPower⟩
  rw [List.nil_append, power_perm staking perm] at found
  exact found.perm staking perm

theorem weightedMedian_of_nobody {ballot : PriceBallot}
    (nobody : ∀ vote ∈ ballot, vote.getPower staking = none) :
    weightedMedian staking L ballot = Dec.zero := by
  apply medianFrom_of_nobody
  intro vote voteMem
  exact nobody vote ((sortBallot_perm L ballot).mem_iff.mp voteMem)

/-- The weighted median does not depend on the order of the votes. -/
theorem weightedMedian_perm {first second : PriceBallot} (perm : first.Perm second) :
    weightedMedian staking L first = weightedMedian staking L second := by
  by_cases someone : ∃ vote ∈ first, (vote.getPower staking).isSome
  · have firstMedian := weightedMedian_isWeightedMedian staking L someone
    have secondMedian : IsWeightedMedian staking second (weightedMedian staking L second) := by
      apply weightedMedian_isWeightedMedian
      rcases someone with ⟨vote, voteMem, hasPower⟩
      exact ⟨vote, perm.mem_iff.mp voteMem, hasPower⟩
    exact (firstMedian.perm staking perm).unique staking secondMedian
  · have nobody : ∀ vote ∈ first, vote.getPower staking = none := by
      intro vote voteMem
      cases hasPower : vote.getPower staking with
      | none => rfl
      | some bonded => exact absurd ⟨vote, voteMem, by simp [hasPower]⟩ someone
    rw [weightedMedian_of_nobody staking L nobody, weightedMedian_of_nobody staking L
      fun vote voteMem => nobody vote (perm.mem_iff.mpr voteMem)]

end Result

end TerraCore.Oracle
