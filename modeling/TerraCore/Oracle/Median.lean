import TerraCore.Oracle.Ballot

/-!
# The weighted median as a decision

Two questions about the price that a ballot decides on. The first is what it
depends on: only the votes of validators count, in any order. The second is
whether a majority of the power can decide it. The loop stops at half of the
power rounded down, so that with an odd total the votes below a range may
reach the cut-off although they are the smaller part.
-/

namespace TerraCore.Oracle

variable (staking : Staking)

/-- The votes that were cast by validators. -/
def validatorVotes (ballot : PriceBallot) : PriceBallot :=
  ballot.filter fun vote => (vote.getPower staking).isSome

theorem mem_validatorVotes {ballot : PriceBallot} {vote : PriceVote} :
    vote ∈ validatorVotes staking ballot ↔ vote ∈ ballot ∧ (vote.getPower staking).isSome := by
  simp [validatorVotes, List.mem_filter]

/-- Votes of others have no power. -/
theorem power_validatorVotes (ballot : PriceBallot) :
    power staking (validatorVotes staking ballot) = power staking ballot := by
  rw [power_eq_sum, power_eq_sum]
  induction ballot with
  | nil => rfl
  | cons vote ballot ih =>
      simp only [validatorVotes] at ih ⊢
      cases hasPower : vote.getPower staking with
      | none => simpa [hasPower, votePower] using ih
      | some bonded => simpa [hasPower, votePower] using ih

theorem powerUpTo_validatorVotes (ballot : PriceBallot) (price : Dec) :
    powerUpTo staking (validatorVotes staking ballot) price = powerUpTo staking ballot price := by
  have commute : (validatorVotes staking ballot).filter (fun vote => vote.price ≤ price) =
      validatorVotes staking (ballot.filter fun vote => vote.price ≤ price) :=
    List.filter_comm _ _ _
  simp only [powerUpTo]
  rw [commute, power_validatorVotes]

theorem isWeightedMedian_validatorVotes {ballot : PriceBallot} {price : Dec} :
    IsWeightedMedian staking (validatorVotes staking ballot) price ↔
      IsWeightedMedian staking ballot price := by
  constructor
  · intro median
    rcases median.voted with ⟨vote, voteMem, hasPower, priceEq⟩
    refine ⟨⟨vote, ((mem_validatorVotes staking).mp voteMem).1, hasPower, priceEq⟩, ?_, ?_⟩
    · simpa only [power_validatorVotes, powerUpTo_validatorVotes] using median.half
    · intro other otherMem otherPower half
      apply median.least other ((mem_validatorVotes staking).mpr ⟨otherMem, otherPower⟩) otherPower
      simpa only [power_validatorVotes, powerUpTo_validatorVotes] using half
  · intro median
    rcases median.voted with ⟨vote, voteMem, hasPower, priceEq⟩
    refine ⟨⟨vote, (mem_validatorVotes staking).mpr ⟨voteMem, hasPower⟩, hasPower, priceEq⟩, ?_, ?_⟩
    · simpa only [power_validatorVotes, powerUpTo_validatorVotes] using median.half
    · intro other otherMem otherPower half
      apply median.least other ((mem_validatorVotes staking).mp otherMem).1 otherPower
      simpa only [power_validatorVotes, powerUpTo_validatorVotes] using half

section Result

variable (L : Type) [Sdk L]

theorem weightedMedian_validatorVotes (ballot : PriceBallot) :
    weightedMedian staking L (validatorVotes staking ballot) =
      weightedMedian staking L ballot := by
  by_cases someone : ∃ vote ∈ ballot, (vote.getPower staking).isSome
  · have median := weightedMedian_isWeightedMedian staking L someone
    rcases someone with ⟨vote, voteMem, hasPower⟩
    have filtered := weightedMedian_isWeightedMedian staking L
      ⟨vote, (mem_validatorVotes staking).mpr ⟨voteMem, hasPower⟩, hasPower⟩
    exact ((isWeightedMedian_validatorVotes staking).mp filtered).unique staking median
  · have nobody : ∀ vote ∈ ballot, vote.getPower staking = none := by
      intro vote voteMem
      by_contra hasPower
      exact someone ⟨vote, voteMem, Option.isSome_iff_ne_none.mpr hasPower⟩
    rw [weightedMedian_of_nobody staking L nobody]
    apply weightedMedian_of_nobody
    intro vote voteMem
    exact nobody vote ((mem_validatorVotes staking).mp voteMem).1

/-- What `weightedMedian` returns: the least price of a validator's vote at
which half of the power, rounded down, has been counted, or zero when no
validator voted. Neither the order of the votes nor the votes of others matter. -/
theorem weightedMedian_meaning (ballot : PriceBallot) :
    ((∃ vote ∈ ballot, (vote.getPower staking).isSome) →
        IsWeightedMedian staking ballot (weightedMedian staking L ballot)) ∧
      ((∀ vote ∈ ballot, vote.getPower staking = none) →
        weightedMedian staking L ballot = Dec.zero) ∧
      ∀ other, (validatorVotes staking other).Perm (validatorVotes staking ballot) →
        weightedMedian staking L other = weightedMedian staking L ballot := by
  refine ⟨weightedMedian_isWeightedMedian staking L, weightedMedian_of_nobody staking L, ?_⟩
  intro other sameVotes
  calc weightedMedian staking L other
      = weightedMedian staking L (validatorVotes staking other) :=
        (weightedMedian_validatorVotes staking L other).symm
    _ = weightedMedian staking L (validatorVotes staking ballot) :=
        weightedMedian_perm staking L sameVotes
    _ = weightedMedian staking L ballot := weightedMedian_validatorVotes staking L ballot

end Result

/-- The power of the votes whose price lies in a range. -/
def powerWithin (ballot : PriceBallot) (lower upper : Dec) : ℕ :=
  power staking (ballot.filter fun vote => lower ≤ vote.price ∧ vote.price ≤ upper)

/-- The power of the votes whose price is below a bound. -/
def powerBelow (ballot : PriceBallot) (bound : Dec) : ℕ :=
  power staking (ballot.filter fun vote => vote.price < bound)

/-- A part of a ballot has at most the power of another part that contains its
validators' votes. -/
theorem power_filter_le {ballot : PriceBallot} {part whole : PriceVote → Bool}
    (contained : ∀ vote ∈ ballot, (vote.getPower staking).isSome →
      part vote = true → whole vote = true) :
    power staking (ballot.filter part) ≤ power staking (ballot.filter whole) := by
  simp only [power_eq_sum]
  induction ballot with
  | nil => simp
  | cons vote ballot ih =>
      have rest := ih fun other otherMem => contained other (List.mem_cons_of_mem _ otherMem)
      have here := contained vote List.mem_cons_self
      simp only [List.filter_cons]
      cases hasPower : vote.getPower staking with
      | none =>
          have noPower : votePower staking vote = 0 := by simp [votePower, hasPower]
          split <;> split <;> simp [noPower, rest]
      | some bonded =>
          by_cases inPart : part vote = true
          · have inWhole := here (by simp [hasPower]) inPart
            simp only [inPart, inWhole, if_true, List.map_cons, List.sum_cons]
            omega
          · rw [if_neg inPart]
            by_cases inWhole : whole vote = true
            · rw [if_pos inWhole, List.map_cons, List.sum_cons]
              omega
            · rw [if_neg inWhole]
              exact rest

/-- The median is below a bound exactly when validators voted below it and
their votes reach half of the power. -/
theorem IsWeightedMedian.lt_iff {ballot : PriceBallot} {price : Dec}
    (median : IsWeightedMedian staking ballot price) (bound : Dec) :
    price < bound ↔
      (∃ vote ∈ ballot, (vote.getPower staking).isSome ∧ vote.price < bound) ∧
        power staking ballot / 2 ≤ powerBelow staking ballot bound := by
  constructor
  · intro below
    rcases median.voted with ⟨vote, voteMem, hasPower, rfl⟩
    refine ⟨⟨vote, voteMem, hasPower, below⟩, median.half.trans ?_⟩
    apply power_filter_le
    intro other _ _ upTo
    rw [decide_eq_true_eq, Dec.le_def] at upTo
    exact decide_eq_true (lt_of_le_of_lt upTo below)
  · rintro ⟨⟨vote, voteMem, hasPower, voteBelow⟩, reached⟩
    -- The highest vote of a validator below the bound already counts everything below it.
    let candidates := (validatorVotes staking ballot).filter fun other => other.price < bound
    have isCandidate : ∀ other, other ∈ candidates.toFinset ↔
        (other ∈ ballot ∧ (other.getPower staking).isSome) ∧ other.price < bound := by
      simp [candidates, mem_validatorVotes]
    rcases Finset.exists_max_image candidates.toFinset (fun other => other.price.raw)
        ⟨vote, (isCandidate vote).mpr ⟨⟨voteMem, hasPower⟩, voteBelow⟩⟩ with
      ⟨highest, highestMem, isHighest⟩
    rcases (isCandidate highest).mp highestMem with ⟨⟨highestVoted, highestPower⟩, highestBelow⟩
    have counted : powerBelow staking ballot bound ≤ powerUpTo staking ballot highest.price := by
      apply power_filter_le
      intro other otherMem otherPower otherBelow
      rw [decide_eq_true_eq] at otherBelow ⊢
      exact isHighest other ((isCandidate other).mpr ⟨⟨otherMem, otherPower⟩, otherBelow⟩)
    have atMost := median.least highest highestVoted highestPower (reached.trans counted)
    exact lt_of_le_of_lt (Dec.le_def.mp atMost) highestBelow

section Majority

variable (L : Type) [Sdk L]

/-- Somebody with power is among the votes of a majority. -/
theorem exists_vote_within {ballot : PriceBallot} {lower upper : Dec}
    (majority : power staking ballot < 2 * powerWithin staking ballot lower upper) :
    ∃ vote ∈ ballot, (vote.getPower staking).isSome ∧ lower ≤ vote.price ∧
      vote.price ≤ upper := by
  by_contra nobody
  have noPower : powerWithin staking ballot lower upper ≤
      power staking (ballot.filter fun _ => false) := by
    apply power_filter_le
    intro vote voteMem hasPower within
    exact absurd ⟨vote, voteMem, hasPower, of_decide_eq_true within⟩ nobody
  rw [List.filter_false] at noPower
  have empty : power staking [] = 0 := rfl
  omega

/-- Votes that hold more than half of the power keep the median from rising above them. -/
theorem IsWeightedMedian.le_of_majority {ballot : PriceBallot} {price lower upper : Dec}
    (median : IsWeightedMedian staking ballot price)
    (majority : power staking ballot < 2 * powerWithin staking ballot lower upper) :
    price ≤ upper := by
  have belowNext : price < (⟨upper.raw + 1⟩ : Dec) := by
    refine (median.lt_iff staking _).mpr ⟨?_, ?_⟩
    · rcases exists_vote_within staking majority with ⟨vote, voteMem, hasPower, -, atMost⟩
      exact ⟨vote, voteMem, hasPower, Int.lt_add_one_of_le atMost⟩
    · have counted : powerWithin staking ballot lower upper ≤
          powerBelow staking ballot ⟨upper.raw + 1⟩ := by
        apply power_filter_le
        intro vote _ _ within
        rw [decide_eq_true_eq] at within ⊢
        exact Int.lt_add_one_of_le within.2
      omega
  exact Int.lt_add_one_iff.mp belowNext

/-- When more than half of the power votes within a range, the median lies in
it exactly when the validators' votes below the range stay below half of the
power rounded down, or there are none. -/
theorem majority_decides_iff {ballot : PriceBallot} {lower upper : Dec}
    (majority : power staking ballot < 2 * powerWithin staking ballot lower upper) :
    (lower ≤ weightedMedian staking L ballot ∧ weightedMedian staking L ballot ≤ upper) ↔
      powerBelow staking ballot lower < power staking ballot / 2 ∨
        ∀ vote ∈ ballot, (vote.getPower staking).isSome → lower ≤ vote.price := by
  rcases exists_vote_within staking majority with ⟨vote, voteMem, hasPower, -, -⟩
  have median := weightedMedian_isWeightedMedian staking L ⟨vote, voteMem, hasPower⟩
  have atMost := median.le_of_majority staking majority
  have notBelow : lower ≤ weightedMedian staking L ballot ↔
      ¬weightedMedian staking L ballot < lower := Int.not_lt.symm
  rw [and_iff_left atMost, notBelow, median.lt_iff staking]
  constructor
  · intro refuted
    by_cases reached : power staking ballot / 2 ≤ powerBelow staking ballot lower
    · right
      intro other otherMem otherPower
      exact Int.not_lt.mp fun below => refuted ⟨⟨other, otherMem, otherPower, below⟩, reached⟩
    · exact Or.inl (not_le.mp reached)
  · rintro (short | noneBelow) ⟨⟨other, otherMem, otherPower, below⟩, reached⟩
    · omega
    · exact Int.not_lt.mpr (noneBelow other otherMem otherPower) below

end Majority

/-- One validator with a single token and one with two. -/
def unevenStaking : Staking where
  notBondedTokens := 0
  bondedTokens := 3
  validator address :=
    if address = List.replicate 20 1 then some 1
    else if address = List.replicate 20 2 then some 2
    else none
  validator_length := by
    intro address tokens present
    split at present
    · next first => rw [first]; rfl
    · split at present
      · next second => rw [second]; rfl
      · cases present

/-- The validators vote one and two. -/
def unevenBallot : PriceBallot :=
  [⟨Dec.ofInt 1, microSDRDenom, List.replicate 20 1⟩,
    ⟨Dec.ofInt 2, microSDRDenom, List.replicate 20 2⟩]

theorem majority_decides_iff_sample :
    Dec.ofInt 1 ≤ weightedMedian unevenStaking Book unevenBallot ∧
      weightedMedian unevenStaking Book unevenBallot ≤ Dec.ofInt 2 := by
  have majority : power unevenStaking unevenBallot <
      2 * powerWithin unevenStaking unevenBallot (Dec.ofInt 1) (Dec.ofInt 2) := by decide +kernel
  exact (majority_decides_iff unevenStaking Book majority).mpr (by decide +kernel)

/-- Two thirds of the power vote for a price of two, and the median is one. -/
theorem majority_is_outvoted :
    power unevenStaking unevenBallot <
        2 * powerWithin unevenStaking unevenBallot (Dec.ofInt 2) (Dec.ofInt 2) ∧
      weightedMedian unevenStaking Book unevenBallot = Dec.ofInt 1 ∧
      ¬(Dec.ofInt 2 ≤ weightedMedian unevenStaking Book unevenBallot ∧
        weightedMedian unevenStaking Book unevenBallot ≤ Dec.ofInt 2) := by
  decide +kernel

end TerraCore.Oracle
