import PrivatePayments.Planner.Combination

/-!
The scan for two notes sweeps from the outermost pair inwards. It passes over no pair that is
better than the one it returns, and it fails only at a pair whose sum does not fit.
-/

namespace PrivatePayments.Planner
open Client Library

def PairSum (values : List NoteAmount) (i j sum : Nat) : Prop :=
  i ≠ j ∧ ∃ a b, values[i]? = some a ∧ values[j]? = some b ∧ a.toNat + b.toNat = sum

/-- The best answer: a pair that sums to the goal, else the pair with the least excess. -/
def BestPair (values : List NoteAmount) (goal : NoteAmount) : TwoScan → Prop
  | .exact i j => PairSum values i j goal.toNat
  | .overshoot i j excess => 0 < excess.toNat ∧ PairSum values i j (goal.toNat + excess.toNat) ∧
      ∀ i' j' sum, PairSum values i' j' sum → goal.toNat ≤ sum → goal.toNat + excess.toNat ≤ sum
  | .miss => ∀ i j sum, PairSum values i j sum → sum < goal.toNat

def pairWeight (sorted : List Candidate) (low high : Nat) : Nat :=
  weight (sorted.getD low (0, 0)) + weight (sorted.getD high (0, 0))

/-- The pairs whose amounts the scan adds: the outermost one, and from a pair below the goal the one with the
next smaller position moved up, from a pair above it the one with the larger position moved down. -/
inductive TwoScan.Sweeps (sorted : List Candidate) (goal : NoteAmount) : Nat → Nat → Prop
  | start : TwoScan.Sweeps sorted goal 0 (sorted.length - 1)
  | up {low high : Nat} (swept : TwoScan.Sweeps sorted goal low high) (order : low < high)
      (below : pairWeight sorted low high < goal.toNat) : TwoScan.Sweeps sorted goal (low + 1) high
  | down {low high : Nat} (swept : TwoScan.Sweeps sorted goal low high) (order : low < high)
      (above : goal.toNat < pairWeight sorted low high) (fits : pairWeight sorted low high < 2 ^ 128) :
      TwoScan.Sweeps sorted goal low (high - 1)

section Pairs

variable {sorted : List Candidate} {goal : NoteAmount}

theorem pairWeight_eq {low high : Nat} (lower : low < sorted.length) (upper : high < sorted.length) :
    pairWeight sorted low high = weight sorted[low] + weight sorted[high] := by
  rw [pairWeight, List.getD_eq_getElem _ _ lower, List.getD_eq_getElem _ _ upper]

theorem toNat_amounts {low high : Nat} (lower : low < sorted.length) (upper : high < sorted.length) :
    (sorted[low].2).toNat + (sorted[high].2).toNat = pairWeight sorted low high :=
  (pairWeight_eq lower upper).symm

theorem weight_mono (asc : sorted.Pairwise fun a b => weight a ≤ weight b) {p q : Nat} (order : p ≤ q)
    (bound : q < sorted.length) : weight (sorted.getD p (0, 0)) ≤ weight (sorted.getD q (0, 0)) := by
  rw [List.getD_eq_getElem _ _ (order.trans_lt bound), List.getD_eq_getElem _ _ bound]
  rcases order.eq_or_lt with rfl | less
  · exact le_rfl
  · exact List.pairwise_iff_getElem.mp asc p q _ bound less

theorem pairWeight_mono (asc : sorted.Pairwise fun a b => weight a ≤ weight b) {low low' high high' : Nat}
    (lows : low ≤ low') (highs : high ≤ high') (order : low' < high') (bound : high' < sorted.length) :
    pairWeight sorted low high ≤ pairWeight sorted low' high' :=
  Nat.add_le_add (weight_mono asc lows (order.trans bound)) (weight_mono asc highs bound)

def IndicesAt (sorted : List Candidate) (low high i j : Nat) : Prop :=
  low < high ∧ high < sorted.length ∧ (sorted.getD low (0, 0)).1 = i ∧ (sorted.getD high (0, 0)).1 = j

def SortedBest (sorted : List Candidate) (goal : NoteAmount) : TwoScan → Prop
  | .exact i j => ∃ low high, IndicesAt sorted low high i j ∧ pairWeight sorted low high = goal.toNat
  | .overshoot i j excess => 0 < excess.toNat ∧
      (∃ low high, IndicesAt sorted low high i j ∧ pairWeight sorted low high = goal.toNat + excess.toNat) ∧
      ∀ low high, low < high → high < sorted.length → goal.toNat ≤ pairWeight sorted low high →
        goal.toNat + excess.toNat ≤ pairWeight sorted low high
  | .miss => ∀ low high, low < high → high < sorted.length → pairWeight sorted low high < goal.toNat

/-- What the loop knows between its ends: the best pair so far is one, and a pair outside the ends that
reaches the goal is no better. -/
structure TwoScan.Swept (sorted : List Candidate) (goal : NoteAmount) (left right : Nat)
    (best : Option (NoteAmount × Nat × Nat)) : Prop where
  sound : ∀ excess i j, best = some (excess, i, j) → 0 < excess.toNat ∧
    ∃ low high, IndicesAt sorted low high i j ∧ pairWeight sorted low high = goal.toNat + excess.toNat
  passed : ∀ low high, low < high → high < sorted.length → goal.toNat ≤ pairWeight sorted low high →
    (left ≤ low ∧ high ≤ right) ∨
      ∃ excess i j, best = some (excess, i, j) ∧ goal.toNat + excess.toNat ≤ pairWeight sorted low high

theorem improved_le {ρ : Type} (diff : NoteAmount) (x : ρ) (best : Option (NoteAmount × ρ)) : ∃ excess y,
    (if better diff best then some (diff, x) else best) = some (excess, y) ∧ excess.toNat ≤ diff.toNat ∧
      ∀ old, best = some old → excess.toNat ≤ old.1.toNat := by
  cases best with
  | none => exact ⟨diff, x, rfl, le_rfl, nofun⟩
  | some old =>
    obtain ⟨excess, y⟩ := old
    by_cases improves : diff.toNat < excess.toNat
    · refine ⟨diff, x, if_pos (decide_eq_true improves), le_rfl, ?_⟩
      rintro _ ⟨⟩
      exact improves.le
    · refine ⟨excess, y, if_neg (by simp [better, improves]), Nat.le_of_not_lt improves, ?_⟩
      rintro _ ⟨⟩
      exact le_rfl

namespace TwoScan.Swept

variable {left right : Nat} {best : Option (NoteAmount × Nat × Nat)}

/-- The lower end moves up past a note that stays below the goal with every partner left. -/
theorem up (swept : Swept sorted goal left right best) (asc : sorted.Pairwise fun a b => weight a ≤ weight b)
    (order : left < right) (bound : right < sorted.length) (below : pairWeight sorted left right < goal.toNat) :
    Swept sorted goal (left + 1) right best where
  sound := swept.sound
  passed low high ordered inside reach := by
    refine (swept.passed low high ordered inside reach).imp_left fun within => ⟨?_, within.2⟩
    by_contra first
    obtain rfl : low = left := by omega
    have most := pairWeight_mono asc le_rfl within.2 order bound
    omega

theorem down (swept : Swept sorted goal left right best) (asc : sorted.Pairwise fun a b => weight a ≤ weight b)
    (order : left < right) (bound : right < sorted.length) {diff : NoteAmount} (positive : 0 < diff.toNat)
    (sum : pairWeight sorted left right = goal.toNat + diff.toNat) :
    Swept sorted goal left (right - 1)
      (if better diff best then some (diff, (sorted.getD left (0, 0)).1, (sorted.getD right (0, 0)).1) else best) where
  sound excess i j improved := by
    cases improved_cases improved with
    | inl new =>
      rw [Prod.mk.injEq, Prod.mk.injEq] at new
      obtain ⟨rfl, rfl, rfl⟩ := new
      exact ⟨positive, left, right, ⟨order, bound, rfl, rfl⟩, sum⟩
    | inr old => exact swept.sound excess i j old
  passed low high ordered inside reach := by
    obtain ⟨excess, ⟨i, j⟩, noted, least, older⟩ := improved_le diff
      ((sorted.getD left (0, 0)).1, (sorted.getD right (0, 0)).1) best
    rcases swept.passed low high ordered inside reach with within | ⟨before, i', j', rfl, close⟩
    · by_cases last : high = right
      · subst last
        have fewest := pairWeight_mono asc within.1 le_rfl ordered inside
        exact Or.inr ⟨excess, i, j, noted, by omega⟩
      · exact Or.inl ⟨within.1, by omega⟩
    · have kept : excess.toNat ≤ before.toNat := older _ rfl
      exact Or.inr ⟨excess, i, j, noted, by omega⟩

theorem miss (swept : Swept sorted goal left left none) : SortedBest sorted goal .miss := by
  intro low high ordered inside
  by_contra reach
  rcases swept.passed low high ordered inside (Nat.le_of_not_lt reach) with within | ⟨_, _, _, none_, _⟩
  · omega
  · cases none_

theorem overshoot {excess : NoteAmount} {i j : Nat} (swept : Swept sorted goal left left (some (excess, i, j))) :
    SortedBest sorted goal (.overshoot i j excess) := by
  obtain ⟨positive, found⟩ := swept.sound excess i j rfl
  refine ⟨positive, found, fun low high ordered inside reach => ?_⟩
  rcases swept.passed low high ordered inside reach with within | ⟨_, _, _, same, close⟩
  · omega
  · cases same
    exact close

end TwoScan.Swept

section Loop

variable {width left : Nat} (bound : left + (width + 1) < sorted.length) (best : Option (NoteAmount × Nat × Nat))

theorem TwoScan.loop_overflow (overflow : 2 ^ 128 ≤ pairWeight sorted left (left + (width + 1))) :
    TwoScan.loop sorted goal (width + 1) left bound best = .error .inputAmountOverflow := by
  have sum := toNat_amounts (show left < sorted.length by omega) bound
  have none_ : checkedAdd sorted[left].2 sorted[left + (width + 1)].2 = none := if_neg (by omega)
  unfold TwoScan.loop
  simp only [none_]

theorem TwoScan.loop_below (below : pairWeight sorted left (left + (width + 1)) < goal.toNat) :
    TwoScan.loop sorted goal (width + 1) left bound best = TwoScan.loop sorted goal width (left + 1)
      (by omega) best := by
  have sum := toNat_amounts (show left < sorted.length by omega) bound
  have small := goal.isLt
  obtain ⟨added, sum_eq⟩ := checkedAdd_eq (a := sorted[left].2) (b := sorted[left + (width + 1)].2) (by omega)
  have short : checkedSub (sorted[left].2 + sorted[left + (width + 1)].2) goal = none :=
    checkedSub_eq_none.mpr (by omega)
  conv_lhs => unfold TwoScan.loop
  simp only [added, short]

theorem TwoScan.loop_reached (reach : goal.toNat ≤ pairWeight sorted left (left + (width + 1)))
    (fits : pairWeight sorted left (left + (width + 1)) < 2 ^ 128) :
    ∃ diff : NoteAmount, pairWeight sorted left (left + (width + 1)) = goal.toNat + diff.toNat ∧
      TwoScan.loop sorted goal (width + 1) left bound best =
        if diff = 0 then .ok (.exact (sorted.getD left (0, 0)).1 (sorted.getD (left + (width + 1)) (0, 0)).1)
        else TwoScan.loop sorted goal width left (by omega)
          (if better diff best then
            some (diff, (sorted.getD left (0, 0)).1, (sorted.getD (left + (width + 1)) (0, 0)).1) else best) := by
  have sum := toNat_amounts (show left < sorted.length by omega) bound
  obtain ⟨added, sum_eq⟩ := checkedAdd_eq (a := sorted[left].2) (b := sorted[left + (width + 1)].2) (by omega)
  obtain ⟨subbed, diff_eq⟩ := checkedSub_eq (a := sorted[left].2 + sorted[left + (width + 1)].2) (b := goal) (by omega)
  refine ⟨sorted[left].2 + sorted[left + (width + 1)].2 - goal, by omega, ?_⟩
  rw [List.getD_eq_getElem _ _ (show left < sorted.length by omega), List.getD_eq_getElem _ _ bound]
  conv_lhs => unfold TwoScan.loop
  simp only [added, subbed]

end Loop

theorem TwoScan.loop_best (asc : sorted.Pairwise fun a b => weight a ≤ weight b) {width left : Nat}
    {bound : left + width < sorted.length} {best : Option (NoteAmount × Nat × Nat)} {result : TwoScan}
    (swept : TwoScan.Swept sorted goal left (left + width) best)
    (run : TwoScan.loop sorted goal width left bound best = .ok result) : SortedBest sorted goal result := by
  induction width generalizing left best with
  | zero =>
    cases best with
    | none =>
      cases run
      exact swept.miss
    | some best =>
      cases run
      exact swept.overshoot
  | succ width ih =>
    have order : left < left + (width + 1) := by omega
    by_cases overflow : 2 ^ 128 ≤ pairWeight sorted left (left + (width + 1))
    · rw [TwoScan.loop_overflow bound best overflow] at run
      cases run
    by_cases below : pairWeight sorted left (left + (width + 1)) < goal.toNat
    · rw [TwoScan.loop_below bound best below] at run
      have next := swept.up asc order bound below
      rw [show left + (width + 1) = left + 1 + width by omega] at next
      exact ih next run
    obtain ⟨diff, sum, step⟩ := TwoScan.loop_reached bound best (Nat.le_of_not_lt below) (Nat.lt_of_not_le overflow)
    rw [step] at run
    by_cases zero : diff = 0
    · rw [if_pos zero] at run
      cases run
      rw [zero] at sum
      exact ⟨left, left + (width + 1), ⟨order, bound, rfl, rfl⟩, sum⟩
    · rw [if_neg zero] at run
      have positive : 0 < diff.toNat := Nat.pos_of_ne_zero fun none_ => zero (BitVec.eq_of_toNat_eq none_)
      exact ih (swept.down asc order bound positive sum) run

theorem TwoScan.loop_error {width left : Nat} {bound : left + width < sorted.length}
    {best : Option (NoteAmount × Nat × Nat)} {e : PlanError} (swept : TwoScan.Sweeps sorted goal left (left + width))
    (run : TwoScan.loop sorted goal width left bound best = .error e) : e = .inputAmountOverflow ∧
      ∃ low high, TwoScan.Sweeps sorted goal low high ∧ low < high ∧ 2 ^ 128 ≤ pairWeight sorted low high := by
  induction width generalizing left best with
  | zero => cases best <;> cases run
  | succ width ih =>
    have order : left < left + (width + 1) := by omega
    by_cases overflow : 2 ^ 128 ≤ pairWeight sorted left (left + (width + 1))
    · rw [TwoScan.loop_overflow bound best overflow] at run
      cases run
      exact ⟨rfl, left, left + (width + 1), swept, order, overflow⟩
    by_cases below : pairWeight sorted left (left + (width + 1)) < goal.toNat
    · rw [TwoScan.loop_below bound best below] at run
      have next := swept.up order below
      rw [show left + (width + 1) = left + 1 + width by omega] at next
      exact ih next run
    obtain ⟨diff, sum, step⟩ := TwoScan.loop_reached bound best (Nat.le_of_not_lt below) (Nat.lt_of_not_le overflow)
    rw [step] at run
    by_cases zero : diff = 0
    · rw [if_pos zero] at run
      cases run
    · rw [if_neg zero] at run
      have positive : 0 < diff.toNat := Nat.pos_of_ne_zero fun none_ => zero (BitVec.eq_of_toNat_eq none_)
      exact ih (swept.down order (by omega) (Nat.lt_of_not_le overflow)) run

theorem TwoScan.Sweeps.high_le {low high : Nat} (swept : TwoScan.Sweeps sorted goal low high) :
    high ≤ sorted.length - 1 := by
  induction swept with
  | start => exact le_rfl
  | up swept order below ih => exact ih
  | down swept order above fits ih => omega

theorem TwoScan.Sweeps.reached {low high : Nat} (swept : TwoScan.Sweeps sorted goal low high)
    (two : 2 ≤ sorted.length) : ∃ width, low + width = high ∧ ∃ bound best,
      TwoScan.scan sorted goal = TwoScan.loop sorted goal width low bound best := by
  induction swept with
  | start => exact ⟨sorted.length - 1, Nat.zero_add _, by omega, none, dif_neg (by omega)⟩
  | @up low high swept order below ih =>
    obtain ⟨width, rfl, bound, best, run⟩ := ih
    obtain ⟨width, rfl⟩ : ∃ n, width = n + 1 := ⟨width - 1, by omega⟩
    rw [TwoScan.loop_below bound best below] at run
    exact ⟨width, by omega, _, best, run⟩
  | @down low high swept order above fits ih =>
    obtain ⟨width, rfl, bound, best, run⟩ := ih
    obtain ⟨width, rfl⟩ : ∃ n, width = n + 1 := ⟨width - 1, by omega⟩
    obtain ⟨diff, sum, step⟩ := TwoScan.loop_reached bound best above.le fits
    have more : diff ≠ 0 := by
      rintro rfl
      rw [sum] at above
      exact absurd above (Nat.lt_irrefl _)
    rw [step, if_neg more] at run
    exact ⟨width, by omega, _, _, run⟩

end Pairs

section Answer

variable {values : List NoteAmount} {sorted : List Candidate} {goal : NoteAmount}

theorem pairSum_of_indices (perm : sorted.Perm (enumerate values)) {low high i j : Nat}
    (at_ : IndicesAt sorted low high i j) : PairSum values i j (pairWeight sorted low high) := by
  obtain ⟨order, bound, rfl, rfl⟩ := at_
  have indices : (sorted.map Prod.fst).Nodup := (perm.map Prod.fst).nodup_iff.mpr (enumerate_indices values)
  rw [List.getD_eq_getElem _ _ (order.trans bound), List.getD_eq_getElem _ _ bound]
  refine ⟨?_, sorted[low].2, sorted[high].2, ?_, ?_, (pairWeight_eq (order.trans bound) bound).symm⟩
  · intro same
    have apart := (List.pairwise_iff_getElem.mp (List.nodup_iff_pairwise_ne.mp indices)) low high
      (by rw [List.length_map]; omega) (by rw [List.length_map]; omega) order
    rw [List.getElem_map, List.getElem_map] at apart
    exact apart same
  · exact mem_enumerate.mp (perm.mem_iff.mp (List.getElem_mem _))
  · exact mem_enumerate.mp (perm.mem_iff.mp (List.getElem_mem _))

theorem indices_of_pairSum (perm : sorted.Perm (enumerate values)) {i j sum : Nat} (pair : PairSum values i j sum) :
    ∃ low high, low < high ∧ high < sorted.length ∧ pairWeight sorted low high = sum := by
  obtain ⟨apart, a, b, first, second, rfl⟩ := pair
  obtain ⟨p, pBound, isFirst⟩ := List.mem_iff_getElem.mp (perm.mem_iff.mpr (mem_enumerate (c := (i, a)).mpr first))
  obtain ⟨q, qBound, isSecond⟩ := List.mem_iff_getElem.mp (perm.mem_iff.mpr (mem_enumerate (c := (j, b)).mpr second))
  have different : p ≠ q := by
    rintro rfl
    exact apart (congrArg Prod.fst (isFirst.symm.trans isSecond))
  rcases Nat.lt_or_gt_of_ne different with order | order
  · exact ⟨p, q, order, qBound, by rw [pairWeight_eq pBound qBound, isFirst, isSecond]⟩
  · exact ⟨q, p, order, pBound, by rw [pairWeight_eq qBound pBound, isFirst, isSecond, Nat.add_comm]⟩

theorem bestPair_of_sorted (perm : sorted.Perm (enumerate values)) {result : TwoScan}
    (best : SortedBest sorted goal result) : BestPair values goal result := by
  cases result with
  | exact i j =>
    obtain ⟨low, high, at_, sum⟩ := best
    have pair := pairSum_of_indices perm at_
    rwa [sum] at pair
  | overshoot i j excess =>
    obtain ⟨positive, ⟨low, high, at_, sum⟩, least⟩ := best
    have pair := pairSum_of_indices perm at_
    rw [sum] at pair
    refine ⟨positive, pair, fun i' j' other isPair reach => ?_⟩
    obtain ⟨low', high', order, bound, rfl⟩ := indices_of_pairSum perm isPair
    exact least low' high' order bound reach
  | miss =>
    intro i j sum isPair
    obtain ⟨low, high, order, bound, rfl⟩ := indices_of_pairSum perm isPair
    exact best low high order bound

theorem TwoScan.scan_best (perm : sorted.Perm (enumerate values))
    (asc : sorted.Pairwise fun a b => weight a ≤ weight b) {result : TwoScan}
    (run : TwoScan.scan sorted goal = .ok result) : BestPair values goal result := by
  apply bestPair_of_sorted perm
  by_cases short : sorted.length < 2
  · rw [TwoScan.scan, dif_pos short] at run
    cases run
    exact fun low high order bound => by omega
  · rw [TwoScan.scan, dif_neg short] at run
    have start : TwoScan.Swept sorted goal 0 (0 + (sorted.length - 1)) none :=
      ⟨fun _ _ _ none_ => (nomatch none_), fun low high order bound _ => Or.inl ⟨Nat.zero_le _, by omega⟩⟩
    exact TwoScan.loop_best asc start run

/-- The scan returns the best pair of the caller's list, an exact one wherever there is one, and it fails
exactly where the sweep comes to a pair whose sum does not fit. -/
theorem two_scan_best (sorter : UnstableSort) (values : List NoteAmount) (goal : NoteAmount) :
    (∀ result, TwoScan.scan (sorter.sort (enumerate values)) goal = .ok result → BestPair values goal result ∧
      ((∃ i j, result = .exact i j) ↔ ∃ i j, PairSum values i j goal.toNat) ∧
      (result = .miss ↔ ∀ i j sum, PairSum values i j sum → sum < goal.toNat)) ∧
    ∀ e, (TwoScan.scan (sorter.sort (enumerate values)) goal = .error e ↔ e = .inputAmountOverflow ∧
        ∃ low high, TwoScan.Sweeps (sorter.sort (enumerate values)) goal low high ∧ low < high ∧
          2 ^ 128 ≤ pairWeight (sorter.sort (enumerate values)) low high) ∧
      (TwoScan.scan (sorter.sort (enumerate values)) goal = .error e →
        ∃ i j sum, PairSum values i j sum ∧ 2 ^ 128 ≤ sum) := by
  have perm := sorter.perm (enumerate values)
  have asc := sorter.ascending (enumerate values)
  generalize sorter.sort (enumerate values) = sorted at perm asc
  constructor
  · intro result run
    have best : BestPair values goal result := TwoScan.scan_best perm asc run
    refine ⟨best, ⟨?_, ?_⟩, ⟨?_, ?_⟩⟩
    · rintro ⟨i, j, rfl⟩
      exact ⟨i, j, best⟩
    · rintro ⟨i, j, pair⟩
      cases result with
      | exact i' j' => exact ⟨i', j', rfl⟩
      | overshoot i' j' excess =>
        obtain ⟨positive, -, least⟩ := best
        have close := least i j _ pair le_rfl
        omega
      | miss => exact absurd (best i j _ pair) (Nat.lt_irrefl _)
    · rintro rfl
      exact best
    · intro short
      cases result with
      | exact i j => exact absurd (short i j _ best) (Nat.lt_irrefl _)
      | overshoot i j excess =>
        have below := short i j _ best.2.1
        omega
      | miss => rfl
  · intro e
    have failed (run : TwoScan.scan sorted goal = .error e) : e = .inputAmountOverflow ∧
        ∃ low high, TwoScan.Sweeps sorted goal low high ∧ low < high ∧ 2 ^ 128 ≤ pairWeight sorted low high := by
      by_cases short : sorted.length < 2
      · rw [TwoScan.scan, dif_pos short] at run
        cases run
      · rw [TwoScan.scan, dif_neg short] at run
        exact TwoScan.loop_error (by rw [Nat.zero_add]; exact .start) run
    refine ⟨⟨failed, ?_⟩, fun run => ?_⟩
    · rintro ⟨rfl, low, high, swept, order, overflow⟩
      have inside := swept.high_le
      obtain ⟨width, rfl, bound, best, run⟩ := swept.reached (by omega)
      obtain ⟨width, rfl⟩ : ∃ n, width = n + 1 := ⟨width - 1, by omega⟩
      rw [run, TwoScan.loop_overflow bound best overflow]
    · obtain ⟨-, low, high, swept, order, overflow⟩ := failed run
      have inside := swept.high_le
      exact ⟨_, _, _, pairSum_of_indices perm ⟨order, by omega, rfl, rfl⟩, overflow⟩

theorem two_scan_best_sample : BestPair [6, 10, 4] 9 (.overshoot 2 0 1) :=
  ((two_scan_best stableSort [6, 10, 4] 9).1 _ (by decide +kernel)).1

end Answer

end PrivatePayments.Planner
