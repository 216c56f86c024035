import PrivatePayments.Planner.BestPair

/-!
The order of the tiers of a combination. The search for larger sets settles one size before it
looks at the next, so it takes an overshooting set of few notes before an exact one of more.
-/

namespace PrivatePayments.Planner
open Client Library

def SetSum (values : List NoteAmount) (count sum : Nat) : Prop :=
  ∃ picks : List Candidate, picks.Subperm (enumerate values) ∧ picks.length = count ∧ total weight picks = sum

/-- The tiers in the documented order. -/
inductive Tier where
  | exactPair
  | exactSingle
  | overshootingPair
  | overshootingSingle
  | exactLarger
  | overshootingLarger
  deriving DecidableEq

def Tier.rank : Tier → Nat
  | .exactPair => 0
  | .exactSingle => 1
  | .overshootingPair => 2
  | .overshootingSingle => 3
  | .exactLarger => 4
  | .overshootingLarger => 5

def Tier.Available (values : List NoteAmount) (goal : NoteAmount) : Tier → Prop
  | .exactPair => SetSum values 2 goal.toNat
  | .exactSingle => SetSum values 1 goal.toNat
  | .overshootingPair => ∃ sum, goal.toNat < sum ∧ SetSum values 2 sum
  | .overshootingSingle => ∃ sum, goal.toNat < sum ∧ SetSum values 1 sum
  | .exactLarger => ∃ count, 3 ≤ count ∧ count ≤ transactionLimit ∧ SetSum values count goal.toNat
  | .overshootingLarger => ∃ count sum, 3 ≤ count ∧ goal.toNat < sum ∧ SetSum values count sum

/-- The tier of a result; where nothing was found it comes after all of them. -/
def CombinationResult.rank : CombinationResult → Nat
  | .twoExact .. => Tier.exactPair.rank
  | .oneExact .. => Tier.exactSingle.rank
  | .twoOvershoot .. => Tier.overshootingPair.rank
  | .oneOvershoot .. => Tier.overshootingSingle.rank
  | .exactK .. => Tier.exactLarger.rank
  | .overshoot .. => Tier.overshootingLarger.rank
  | .impossible => 6

/-- No combination of an earlier tier exists, and a larger exact set is one of the fewest notes. -/
structure RespectsTiers (values : List NoteAmount) (goal : NoteAmount) (result : CombinationResult) : Prop where
  earlier : ∀ tier : Tier, tier.rank < result.rank → ¬tier.Available values goal
  smallest : ∀ indices, result = .exactK indices → ∀ count, 3 ≤ count → count < indices.length →
    ¬SetSum values count goal.toNat

/-- Where neither a note nor a pair reaches the goal and at most ten notes sum to it, so do some notes that are
as few as reach it at all. -/
def FewestExact (values : List NoteAmount) (goal : NoteAmount) : Prop :=
  (∀ count sum, count ≤ 2 → SetSum values count sum → sum < goal.toNat) →
    ∀ count, count ≤ transactionLimit → SetSum values count goal.toNat →
      ∃ fewest, SetSum values fewest goal.toNat ∧
        ∀ count sum, count < fewest → SetSum values count sum → sum < goal.toNat

/-- No call of the search stops because of the cap on its iterations. -/
def KScan.DfsWithinCap (goal : NoteAmount) (targetK : Nat) : List Candidate → NoteAmount → DfsContext → Prop
  | [], _, _ => True
  | note :: rest, sum, ctx =>
    ctx.path.length = targetK ∨ goal.toNat ≤ sum.toNat ∨
      (ctx.iterationLimit ≠ 0 ∧ ∀ withNote, checkedAdd sum note.2 = some withNote →
        KScan.DfsWithinCap goal targetK rest withNote
          { ctx with iterationLimit := ctx.iterationLimit - 1, path := ctx.path ++ [note.1] } ∧
        ∀ after, KScan.dfs goal targetK rest withNote
            { ctx with iterationLimit := ctx.iterationLimit - 1, path := ctx.path ++ [note.1] } = .ok (false, after) →
          KScan.DfsWithinCap goal targetK rest sum { after with path := after.path.dropLast })

/-- The same of the search for each size that the loop comes to. -/
def KScan.SizesWithinCap (goal : NoteAmount) (candidates : List Candidate) : List Nat → Prop
  | [] => True
  | k :: ks =>
    KScan.DfsWithinCap goal k candidates 0 { iterationLimit := 5000, path := [], bestOvershoot := none } ∧
      ∀ after, KScan.dfs goal k candidates 0 { iterationLimit := 5000, path := [], bestOvershoot := none } =
        .ok (false, after) → after.bestOvershoot = none → KScan.SizesWithinCap goal candidates ks

def KScan.WithinCap (sorted : List Candidate) (goal : NoteAmount) : Prop :=
  let candidatesDesc := (sorted.filter fun c => decide (c.2.toNat < goal.toNat)).reverse
  KScan.SizesWithinCap goal candidatesDesc
    (if 3 ≤ candidatesDesc.length then List.range' 3 (min candidatesDesc.length transactionLimit - 2) else [])

/-- The subset search, where it is come to, stays within its cap. -/
def WithinCap (sorter : UnstableSort) (values : List NoteAmount) (goal : NoteAmount) : Prop :=
  TwoScan.scan (sorter.sort (enumerate values)) goal = .ok .miss →
    OneScan.scan goal (sorter.sort (enumerate values)) = .miss →
      KScan.WithinCap (sorter.sort (enumerate values)) goal

section Cap

variable {goal : NoteAmount} {k : Nat}

/-- Each call uses one iteration, and there are fewer calls than subsets. -/
theorem KScan.dfs_limit {candidates : List Candidate} {sum : NoteAmount} {ctx after : DfsContext} {found : Bool}
    (run : KScan.dfs goal k candidates sum ctx = .ok (found, after)) :
    ctx.iterationLimit ≤ after.iterationLimit + (2 ^ candidates.length - 1) := by
  have kept (sum : NoteAmount) (ctx : DfsContext) :
      (KScan.reached goal sum ctx).2.iterationLimit = ctx.iterationLimit := by
    unfold KScan.reached
    split
    · rfl
    · split
      · rfl
      · simp only
        split <;> rfl
  induction candidates generalizing sum ctx found after with
  | nil =>
    unfold KScan.dfs at run
    split at run
    · have same := congrArg (fun r : Bool × DfsContext => r.2.iterationLimit) (Except.ok.inj run)
      rw [kept] at same
      simp only at same
      omega
    · cases run
      exact Nat.le_add_right _ _
  | cons note rest ih =>
    unfold KScan.dfs at run
    split at run
    · have same := congrArg (fun r : Bool × DfsContext => r.2.iterationLimit) (Except.ok.inj run)
      rw [kept] at same
      simp only at same
      omega
    split at run
    · cases run
      exact Nat.le_add_right _ _
    have double : 2 ^ (note :: rest).length = 2 ^ rest.length + 2 ^ rest.length := by
      rw [List.length_cons, Nat.pow_succ]
      omega
    have positive := Nat.two_pow_pos rest.length
    split at run
    · cases run
    next withNote added =>
      split at run
      · cases run
      next inner taken =>
        cases run
        have first := ih taken
        simp only at first
        omega
      next inner taken =>
        have first := ih taken
        have second := ih run
        simp only at first second
        omega

theorem KScan.dfsWithinCap_of_limit {candidates : List Candidate} {sum : NoteAmount} {ctx : DfsContext}
    (room : 2 ^ candidates.length - 1 ≤ ctx.iterationLimit) : KScan.DfsWithinCap goal k candidates sum ctx := by
  induction candidates generalizing sum ctx with
  | nil => trivial
  | cons note rest ih =>
    have double : 2 ^ (note :: rest).length = 2 ^ rest.length + 2 ^ rest.length := by
      rw [List.length_cons, Nat.pow_succ]
      omega
    have positive := Nat.two_pow_pos rest.length
    refine Or.inr (Or.inr ⟨by omega, fun withNote _ => ⟨ih (by simp only; omega), fun after taken => ih ?_⟩⟩)
    have used := KScan.dfs_limit taken
    simp only at used ⊢
    omega

/-- Twelve notes have fewer subsets than the cap allows iterations. -/
theorem withinCap_of_length_le (sorter : UnstableSort) {values : List NoteAmount} (goal : NoteAmount)
    (few : values.length ≤ 12) : WithinCap sorter values goal := by
  intro _ _
  have length : (sorter.sort (enumerate values)).length ≤ 12 := by
    rw [(sorter.perm (enumerate values)).length_eq, enumerate, List.length_map, List.length_zipIdx]
    exact few
  have sizes (candidates : List Candidate) (short : candidates.length ≤ 12) (ks : List Nat) :
      KScan.SizesWithinCap goal candidates ks := by
    have pow := Nat.pow_le_pow_right (show 0 < 2 by decide) short
    induction ks with
    | nil => trivial
    | cons k ks ih => exact ⟨KScan.dfsWithinCap_of_limit (by simp only; omega), fun _ _ _ => ih⟩
  refine sizes _ ?_ _
  rw [List.length_reverse]
  exact (List.length_filter_le _ _).trans length

end Cap

section Search

variable {goal : NoteAmount} {k : Nat} {desc : List Candidate}

theorem KScan.reached_exact {sum : NoteAmount} (ctx : DfsContext) (exact : sum.toNat = goal.toNat) :
    KScan.reached goal sum ctx = (true, ctx) := by
  obtain ⟨subbed, diff_eq⟩ := checkedSub_eq (a := sum) (b := goal) exact.ge
  have zero : sum - goal = 0 := by
    apply BitVec.eq_of_toNat_eq
    change (sum - goal).toNat = 0
    omega
  unfold KScan.reached
  simp only [subbed]
  exact if_pos zero

/-- Within the cap the search finds an exact set of its size, where fewer notes stay below the goal. -/
theorem KScan.dfs_complete {candidates picks : List Candidate} (sum : NoteAmount) (ctx : DfsContext)
    (fits : sum.toNat + total weight candidates < 2 ^ 128) (within : KScan.DfsWithinCap goal k candidates sum ctx)
    (short : ∀ fewer : List Candidate, fewer.Sublist candidates → ctx.path.length + fewer.length < k →
      sum.toNat + total weight fewer < goal.toNat)
    (sub : picks.Sublist candidates) (size : ctx.path.length + picks.length = k)
    (exact : sum.toNat + total weight picks = goal.toNat) :
    ∃ after, KScan.dfs goal k candidates sum ctx = .ok (true, after) := by
  induction candidates generalizing picks sum ctx with
  | nil =>
    obtain rfl := List.sublist_nil.mp sub
    refine ⟨ctx, ?_⟩
    unfold KScan.dfs
    rw [if_pos ((Nat.add_zero _).symm.trans size), KScan.reached_exact ctx exact]
  | cons note rest ih =>
    by_cases full : ctx.path.length = k
    · obtain rfl : picks = [] := List.eq_nil_of_length_eq_zero (by omega)
      refine ⟨ctx, ?_⟩
      unfold KScan.dfs
      rw [if_pos full, KScan.reached_exact ctx exact]
    have below : sum.toNat < goal.toNat := short [] (List.nil_sublist _) (by simp only [List.length_nil]; omega)
    obtain ⟨room, further⟩ := (within.resolve_left full).resolve_left (by omega)
    have parts : total weight (note :: rest) = note.2.toNat + total weight rest := rfl
    obtain ⟨added, sum_eq⟩ := checkedAdd_eq (a := sum) (b := note.2) (by omega)
    obtain ⟨inner, skipped⟩ := further _ added
    have longer : (ctx.path ++ [note.1]).length = ctx.path.length + 1 := List.length_append
    have withNote (fewer : List Candidate) : (sum + note.2).toNat + total weight fewer =
        sum.toNat + total weight (note :: fewer) := by
      rw [sum_eq, Nat.add_assoc]
      rfl
    obtain ⟨found, after, run, searched⟩ := KScan.dfs_spec goal k rest (sum + note.2)
      { ctx with iterationLimit := ctx.iterationLimit - 1, path := ctx.path ++ [note.1] } (by omega)
    unfold KScan.dfs
    rw [if_neg full, if_neg (by omega)]
    simp only [added, run]
    cases found with
    | true => exact ⟨after, rfl⟩
    | false =>
      have restored : after.path.dropLast = ctx.path := by
        rw [searched.restored rfl, List.dropLast_concat]
      cases sub with
      | cons _ sub =>
        refine ih sum { after with path := after.path.dropLast } (by omega) (skipped after run) ?_ sub
          (by rw [restored]; exact size) exact
        intro fewer inside few
        rw [restored] at few
        exact short fewer (inside.cons _) few
      | @cons_cons picks _ _ sub =>
        rw [List.length_cons] at size
        obtain ⟨last, again⟩ := ih (sum + note.2)
          { ctx with iterationLimit := ctx.iterationLimit - 1, path := ctx.path ++ [note.1] }
          (by omega) inner (fun fewer inside few => by
            rw [withNote]
            refine short (note :: fewer) (inside.cons_cons _) ?_
            rw [List.length_cons]
            simp only [longer] at few
            omega) sub (by simp only [longer]; omega) ((withNote picks).trans exact)
        rw [run] at again
        cases again

theorem total_lt_of_few (order : Descending weight desc) (short : total weight (desc.take (k - 1)) < goal.toNat)
    {fewer : List Candidate} (sub : fewer.Sublist desc) (few : fewer.length < k) : total weight fewer < goal.toNat := by
  have most := total_sublist_le_take sub order
  have grows := total_take_mono weight desc (show fewer.length ≤ k - 1 by omega)
  omega

/-- Where an overshooting set is returned, the search of its size was complete. -/
theorem KScan.sizes_complete (fits : total weight desc < 2 ^ 128) (order : Descending weight desc) (n : Nat)
    (least : 3 ≤ k) (capped : k + n ≤ 5000) (short : total weight (desc.take (k - 1)) < goal.toNat)
    (within : KScan.SizesWithinCap goal desc (List.range' k n)) {path : List Nat} {excess : NoteAmount}
    (run : KScan.sizes goal desc (List.range' k n) = .ok (.overshoot path excess)) {picks : List Candidate}
    (sub : picks.Sublist desc) (size : picks.length = path.length) : total weight picks ≠ goal.toNat := by
  induction n generalizing k with
  | zero => cases run
  | succ n ih =>
    obtain ⟨found, after, searches, searched⟩ := KScan.dfs_spec goal k desc 0
      { iterationLimit := 5000, path := [], bestOvershoot := none } ((Nat.zero_add _).trans_lt fits)
    rw [List.range'_succ] at run within
    unfold KScan.sizes at run
    simp only [searches] at run
    cases found with
    | true => cases run
    | false =>
      obtain ⟨limit, left, best⟩ := after
      cases best with
      | none =>
        have below := KScan.short_of_none fits (by omega) short searches rfl
        exact ih (k := k + 1) (by omega) (by omega) below (within.2 _ searches rfl) run
      | some best =>
        obtain ⟨more, other⟩ := best
        cases run
        intro exact
        obtain ⟨chosen, -, path_eq, length, -⟩ := (searched.overshoot excess path rfl).resolve_left nofun
        have count : path.length = k := by
          rw [path_eq, List.nil_append, List.length_map]
          exact (Nat.zero_add _).symm.trans length
        obtain ⟨last, again⟩ := KScan.dfs_complete 0 _ ((Nat.zero_add _).trans_lt fits) within.1
          (fun fewer inside few => (Nat.zero_add _).trans_lt
            (total_lt_of_few order short inside ((Nat.zero_add _).symm.trans_lt few)))
          sub ((Nat.zero_add _).trans (size.trans count)) ((Nat.zero_add _).trans exact)
        rw [searches] at again
        cases again

/-- An overshooting set of the scan for more notes is no larger than an exact one of at most ten notes could be. -/
theorem KScan.scan_complete {sorted : List Candidate} (asc : sorted.Pairwise fun a b => weight a ≤ weight b)
    (fits : total weight sorted < 2 ^ 128) (below : ∀ c ∈ sorted, weight c < goal.toNat)
    (pairs : total weight (sorted.reverse.take 2) < goal.toNat) (within : KScan.WithinCap sorted goal)
    {path : List Nat} {excess : NoteAmount} (run : KScan.scan sorted goal = .ok (.overshoot path excess))
    {picks : List Candidate} (sub : picks.Sublist sorted.reverse) (size : picks.length = path.length)
    (capped : picks.length ≤ transactionLimit) : total weight picks ≠ goal.toNat := by
  have reversed := total_perm weight (List.reverse_perm sorted)
  have order := descending_reverse asc
  have all : (sorted.filter fun c => decide (c.2.toNat < goal.toNat)).reverse = sorted.reverse := by
    rw [List.filter_eq_self.mpr fun c member => decide_eq_true (below c member)]
  have most := total_sublist_le_take sub order
  have length := sub.length_le
  unfold KScan.WithinCap at within
  unfold KScan.scan at run
  simp only [all] at within run
  by_cases enough : 3 ≤ sorted.reverse.length
  · rw [if_pos enough] at within run
    have limit : transactionLimit = 10 := rfl
    obtain ⟨result, sizes, -, missed⟩ := KScan.sizes_spec goal sorted.reverse (by rwa [reversed])
      (min sorted.reverse.length transactionLimit - 2) 3 le_rfl (by omega) pairs
    rw [sizes] at run
    cases result with
    | exact indices => cases run
    | overshoot indices more =>
      cases run
      exact KScan.sizes_complete (by rwa [reversed]) order _ le_rfl (by omega) pairs within sizes sub size
    | miss =>
      have short := missed rfl
      have grows := total_take_mono weight sorted.reverse
        (show picks.length ≤ 3 + (min sorted.reverse.length transactionLimit - 2) - 1 by omega)
      omega
  · have grows := total_take_mono weight sorted.reverse (show picks.length ≤ 2 by omega)
    omega

theorem OneScan.scan_exact {sorted : List Candidate} (asc : sorted.Pairwise fun a b => weight a ≤ weight b)
    {c : Candidate} (member : c ∈ sorted) (exact : weight c = goal.toNat) :
    ∃ i, OneScan.scan goal sorted = .exact i := by
  induction sorted with
  | nil => cases member
  | cons note rest ih =>
    obtain ⟨idx, x⟩ := note
    obtain ⟨first, later⟩ := List.pairwise_cons.mp asc
    unfold OneScan.scan
    by_cases reached : goal.toNat ≤ x.toNat
    · obtain ⟨subbed, diff_eq⟩ := checkedSub_eq reached
      have least : x.toNat ≤ weight c := by
        rcases List.mem_cons.mp member with rfl | inside
        · exact le_rfl
        · exact first c inside
      have zero : x - goal = 0 := by
        apply BitVec.eq_of_toNat_eq
        change (x - goal).toNat = 0
        omega
      simp only [subbed]
      exact ⟨idx, if_pos zero⟩
    · simp only [checkedSub_eq_none.mpr (Nat.lt_of_not_le reached)]
      refine ih later ((List.mem_cons.mp member).resolve_left ?_)
      rintro rfl
      exact reached exact.ge

end Search

section Sets

variable {values : List NoteAmount} {goal : NoteAmount} {sorted : List Candidate}

theorem setSum_iff (perm : sorted.Perm (enumerate values)) {count sum : Nat} : SetSum values count sum ↔
    ∃ picks : List Candidate, picks.Sublist sorted ∧ picks.length = count ∧ total weight picks = sum := by
  constructor
  · rintro ⟨picks, sub, rfl, rfl⟩
    obtain ⟨inOrder, same, within⟩ := sub.trans perm.symm.subperm
    exact ⟨inOrder, within, same.length_eq, total_perm weight same⟩
  · rintro ⟨picks, sub, size, reach⟩
    exact ⟨picks, sub.subperm.trans perm.subperm, size, reach⟩

theorem setSum_one_iff (perm : sorted.Perm (enumerate values)) {sum : Nat} :
    SetSum values 1 sum ↔ ∃ c ∈ sorted, weight c = sum := by
  rw [setSum_iff perm]
  constructor
  · rintro ⟨picks, sub, one, rfl⟩
    obtain ⟨c, rfl⟩ := List.length_eq_one_iff.mp one
    exact ⟨c, sub.subset (List.mem_singleton_self c), by simp [total]⟩
  · rintro ⟨c, member, rfl⟩
    exact ⟨[c], List.singleton_sublist.mpr member, rfl, by simp [total]⟩

theorem setSum_two_iff {sum : Nat} : SetSum values 2 sum ↔ ∃ i j, PairSum values i j sum := by
  constructor
  · rintro ⟨picks, sub, two, rfl⟩
    obtain ⟨c, d, rfl⟩ := List.length_eq_two.mp two
    have apart : ([c, d].map Prod.fst).Nodup := by
      obtain ⟨inOrder, same, within⟩ := sub
      exact (same.map Prod.fst).nodup ((enumerate_indices values).sublist (within.map Prod.fst))
    refine ⟨c.1, d.1, ?_, c.2, d.2, mem_enumerate.mp (sub.subset List.mem_cons_self),
      mem_enumerate.mp (sub.subset (List.mem_cons_of_mem _ (List.mem_singleton_self d))), by simp [total]⟩
    simpa using apart
  · rintro ⟨i, j, apart, a, b, first, second, rfl⟩
    refine ⟨[(i, a), (j, b)], ?_, rfl, by simp [total]⟩
    apply List.subperm_of_subset
    · simp [apart]
    · intro c member
      rcases List.mem_cons.mp member with rfl | last
      · exact mem_enumerate.mpr first
      · rw [List.mem_singleton.mp last]
        exact mem_enumerate.mpr second

/-- A note or a pair that reaches the goal leaves nothing to ask of larger sets. -/
theorem fewestExact_of_reach {count sum : Nat} (few : count ≤ 2) (set : SetSum values count sum)
    (reach : goal.toNat ≤ sum) : FewestExact values goal :=
  fun short => absurd (short count sum few set) (Nat.not_lt.mpr reach)

theorem SetSum.le_largestSum {count sum : Nat} (set : SetSum values count sum) :
    sum ≤ largestSum count (amounts values) := by
  obtain ⟨picks, sub, rfl, rfl⟩ := set
  rw [← enumerate_weights]
  exact total_le_largestSum weight sub

theorem SetSum.le_sum {count sum : Nat} (set : SetSum values count sum) : sum ≤ (amounts values).sum :=
  set.le_largestSum.trans (largestSum_le count _)

end Sets

section Order

variable {values : List NoteAmount} {goal : NoteAmount} {sorted : List Candidate}

/-- What the scan for larger sets starts from: no note and no pair reaches the goal. -/
structure Below (sorted : List Candidate) (goal : NoteAmount) : Prop where
  single : ∀ c ∈ sorted, weight c < goal.toNat
  pairs : total weight (sorted.reverse.take 2) < goal.toNat

theorem Below.few (under : Below sorted goal) (perm : sorted.Perm (enumerate values))
    (asc : sorted.Pairwise fun a b => weight a ≤ weight b) {count sum : Nat} (few : count ≤ 2)
    (set : SetSum values count sum) : sum < goal.toNat := by
  obtain ⟨picks, sub, rfl, rfl⟩ := (setSum_iff ((List.reverse_perm sorted).trans perm)).mp set
  have most := total_sublist_le_take sub (descending_reverse asc)
  have grows := total_take_mono weight sorted.reverse few
  have pairs := under.pairs
  omega

theorem Below.unavailable (under : Below sorted goal) (perm : sorted.Perm (enumerate values))
    (asc : sorted.Pairwise fun a b => weight a ≤ weight b) {tier : Tier} (early : tier.rank < Tier.exactLarger.rank) :
    ¬tier.Available values goal := by
  have few {count sum : Nat} (small : count ≤ 2) (set : SetSum values count sum) : sum < goal.toNat :=
    under.few perm asc small set
  cases tier with
  | exactPair => exact fun set => absurd (few le_rfl set) (Nat.lt_irrefl _)
  | exactSingle => exact fun set => absurd (few (by omega) set) (Nat.lt_irrefl _)
  | overshootingPair =>
    rintro ⟨sum, over_, set⟩
    have under := few le_rfl set
    omega
  | overshootingSingle =>
    rintro ⟨sum, over_, set⟩
    have under := few (by omega) set
    omega
  | exactLarger => exact absurd early (by decide)
  | overshootingLarger => exact absurd early (by decide)

/-- A set of the fewest notes that reach the goal is settled before any larger one. -/
theorem Fewest.setSum {indices : List Nat} {excess : Nat} (perm : sorted.Perm (enumerate values))
    (asc : sorted.Pairwise fun a b => weight a ≤ weight b) (fewest : Fewest sorted.reverse goal indices excess) :
    SetSum values indices.length (goal.toNat + excess) ∧ 3 ≤ indices.length ∧
      ∀ count sum, count < indices.length → SetSum values count sum → sum < goal.toNat := by
  have rev := (List.reverse_perm sorted).trans perm
  obtain ⟨picks, sub, rfl, reach, size, short⟩ := fewest
  rw [List.length_map]
  refine ⟨(setSum_iff rev).mpr ⟨picks, sub, rfl, reach⟩, size, fun count sum fewer set => ?_⟩
  obtain ⟨others, inside, rfl, rfl⟩ := (setSum_iff rev).mp set
  exact total_lt_of_few (descending_reverse asc) short inside fewer

theorem exactK_tiers {indices : List Nat} (under : Below sorted goal) (perm : sorted.Perm (enumerate values))
    (asc : sorted.Pairwise fun a b => weight a ≤ weight b) (fewest : Fewest sorted.reverse goal indices 0) :
    RespectsTiers values goal (.exactK indices) ∧ FewestExact values goal := by
  obtain ⟨set, -, short⟩ := fewest.setSum perm asc
  refine ⟨⟨fun tier early => under.unavailable perm asc early, ?_⟩, fun _ _ _ _ => ⟨indices.length, set, short⟩⟩
  rintro _ ⟨⟩ count - fewer other
  exact absurd (short count _ fewer other) (Nat.lt_irrefl _)

/-- The defect: an exact set of more notes is not looked for. -/
theorem overshoot_tiers {indices : List Nat} {excess : NoteAmount} (under : Below sorted goal)
    (perm : sorted.Perm (enumerate values)) (asc : sorted.Pairwise fun a b => weight a ≤ weight b)
    (fewest : Fewest sorted.reverse goal indices excess.toNat)
    (complete : indices.length ≤ transactionLimit → ¬SetSum values indices.length goal.toNat) :
    RespectsTiers values goal (.overshoot indices excess) ↔ FewestExact values goal := by
  obtain ⟨set, -, short⟩ := fewest.setSum perm asc
  constructor
  · intro respects short_ count capped exact
    have larger : 3 ≤ count := by
      by_contra few
      exact absurd (short_ count _ (by omega) exact) (Nat.lt_irrefl _)
    exact absurd ⟨count, larger, capped, exact⟩ (respects.earlier .exactLarger (Nat.lt_succ_self 4))
  · intro condition
    have none_ : ¬Tier.exactLarger.Available values goal := by
      rintro ⟨count, -, capped, exact⟩
      obtain ⟨few, exactFew, fewest⟩ := condition (fun _ _ small => under.few perm asc small) count capped exact
      have notFewer : indices.length ≤ few :=
        Nat.le_of_not_lt fun less => absurd (short few _ less exactFew) (Nat.lt_irrefl _)
      have notMore : few ≤ indices.length := Nat.le_of_not_lt fun less => by
        have reach := fewest indices.length _ less set
        omega
      obtain rfl : few = indices.length := Nat.le_antisymm notMore notFewer
      have within : indices.length ≤ count := Nat.le_of_not_lt fun less =>
        absurd (short count _ less exact) (Nat.lt_irrefl _)
      exact complete (within.trans capped) exactFew
    refine ⟨fun tier early => ?_, nofun⟩
    by_cases last : tier = .exactLarger
    · rw [last]
      exact none_
    · refine under.unavailable perm asc ?_
      change tier.rank < 5 at early
      change tier.rank < 4
      revert early last
      cases tier <;> decide

/-- Where the pair scan and the single scan return, no tier before theirs has a combination. -/
theorem respects_of_early {result : CombinationResult} (early : result.rank < Tier.exactLarger.rank)
    (pair : 0 < result.rank → ¬SetSum values 2 goal.toNat) (single : 1 < result.rank → ¬SetSum values 1 goal.toNat)
    (pairs : 2 < result.rank → ∀ sum, SetSum values 2 sum → sum < goal.toNat) : RespectsTiers values goal result where
  earlier tier before := by
    cases tier with
    | exactPair => exact pair before
    | exactSingle => exact single before
    | overshootingPair =>
      rintro ⟨sum, more, set⟩
      exact absurd (pairs before sum set) (Nat.lt_asymm more)
    | overshootingSingle => exact absurd (Nat.lt_of_lt_of_le before (Nat.le_of_lt_succ early)) (Nat.lt_irrefl _)
    | exactLarger => exact absurd (before.trans early) (Nat.lt_irrefl _)
    | overshootingLarger => exact absurd (before.trans early) (by decide)
  smallest indices same := by
    rw [same] at early
    exact absurd early (Nat.lt_irrefl _)

theorem BestPair.not_exact {two : TwoScan} (best : BestPair values goal two) (other : ∀ i j, two ≠ .exact i j) :
    ¬SetSum values 2 goal.toNat := by
  rw [setSum_two_iff]
  rintro ⟨i, j, pair⟩
  cases two with
  | exact i' j' => exact other i' j' rfl
  | overshoot i' j' excess =>
    obtain ⟨positive, -, least⟩ := best
    have close := least i j _ pair le_rfl
    omega
  | miss => exact absurd (best i j _ pair) (Nat.lt_irrefl _)

theorem not_setSum_one (perm : sorted.Perm (enumerate values)) (asc : sorted.Pairwise fun a b => weight a ≤ weight b)
    (other : ∀ i, OneScan.scan goal sorted ≠ .exact i) : ¬SetSum values 1 goal.toNat := by
  rw [setSum_one_iff perm]
  rintro ⟨c, member, exact⟩
  obtain ⟨i, found⟩ := OneScan.scan_exact asc member exact
  exact other i found

/-- A combination keeps the documented order of the tiers exactly where the fewest notes that reach the goal can
also match it, if any larger set matches it at all. -/
theorem tier_order_iff (sorter : UnstableSort) (values : List NoteAmount) (goal : NoteAmount)
    (positive : 0 < goal.toNat)
    (fits : (amounts values).sum < 2 ^ 128) (within : WithinCap sorter values goal) :
    ∃ result, findCombination sorter values goal = .ok result ∧
      (RespectsTiers values goal result ↔ FewestExact values goal) := by
  have nothing (short : (amounts values).sum < goal.toNat) :
      RespectsTiers values goal .impossible ∧ FewestExact values goal := by
    have few {count sum : Nat} (set : SetSum values count sum) : sum < goal.toNat := set.le_sum.trans_lt short
    refine ⟨⟨fun tier _ => ?_, nofun⟩, fun _ count _ set => absurd (few set) (Nat.lt_irrefl _)⟩
    cases tier with
    | exactPair => exact fun set => absurd (few set) (Nat.lt_irrefl _)
    | exactSingle => exact fun set => absurd (few set) (Nat.lt_irrefl _)
    | overshootingPair => exact fun ⟨sum, more, set⟩ => Nat.lt_asymm more (few set)
    | overshootingSingle => exact fun ⟨sum, more, set⟩ => Nat.lt_asymm more (few set)
    | exactLarger => exact fun ⟨count, _, _, set⟩ => absurd (few set) (Nat.lt_irrefl _)
    | overshootingLarger => exact fun ⟨count, sum, _, more, set⟩ => Nat.lt_asymm more (few set)
  have both {result : CombinationResult} (holds : RespectsTiers values goal result ∧ FewestExact values goal) :
      RespectsTiers values goal result ↔ FewestExact values goal := iff_of_true holds.1 holds.2
  by_cases nonempty : values = []
  · rw [nonempty] at nothing ⊢
    exact ⟨.impossible, rfl, iff_of_true (nothing positive).1 (nothing positive).2⟩
  have perm := sorter.perm (enumerate values)
  have asc := sorter.ascending (enumerate values)
  unfold WithinCap at within
  unfold findCombination
  rw [if_neg (by simpa using nonempty)]
  generalize sorter.sort (enumerate values) = sorted at perm asc within
  have weighs : total weight sorted = (amounts values).sum := by
    rw [← enumerate_weights]
    exact total_perm weight perm
  have sorted_fits : total weight sorted < 2 ^ 128 := by rwa [weighs]
  obtain ⟨two, run, -, missed⟩ := TwoScan.scan_spec goal asc sorted_fits
  have best := TwoScan.scan_best perm asc run
  have single := OneScan.scan_spec goal sorted
  simp only [run]
  have one_of {one : OneScan} (is : OneScan.scan goal sorted = one) : OneScan.Sound sorted goal one := is ▸ single
  cases two with
  | exact i j =>
    refine ⟨_, rfl, both ⟨respects_of_early (show 0 < 4 by decide) nofun nofun nofun, ?_⟩⟩
    exact fewestExact_of_reach le_rfl (setSum_two_iff.mpr ⟨i, j, best⟩) le_rfl
  | overshoot i j excess =>
    have reach : FewestExact values goal :=
      fewestExact_of_reach le_rfl (setSum_two_iff.mpr ⟨i, j, best.2.1⟩) (Nat.le_add_right _ _)
    have noPair := best.not_exact fun _ _ => nofun
    cases one : OneScan.scan goal sorted with
    | exact i =>
      exact ⟨_, rfl, both ⟨respects_of_early (show 1 < 4 by decide) (fun _ => noPair) nofun nofun, reach⟩⟩
    | overshoot _ _ =>
      have noSingle := not_setSum_one perm asc fun i => by rw [one]; exact nofun
      exact ⟨_, rfl, both ⟨respects_of_early (show 2 < 4 by decide) (fun _ => noPair) (fun _ => noSingle) nofun, reach⟩⟩
    | miss =>
      have noSingle := not_setSum_one perm asc fun i => by rw [one]; exact nofun
      exact ⟨_, rfl, both ⟨respects_of_early (show 2 < 4 by decide) (fun _ => noPair) (fun _ => noSingle) nofun, reach⟩⟩
  | miss =>
    have noPairs (sum : Nat) (set : SetSum values 2 sum) : sum < goal.toNat := by
      obtain ⟨i, j, pair⟩ := setSum_two_iff.mp set
      exact best i j sum pair
    have noPair := best.not_exact fun _ _ => nofun
    have reached {i : Nat} {excess : Nat} (chosen : Chosen sorted goal [i] excess) : FewestExact values goal := by
      obtain ⟨picks, sub, indices, reach⟩ := chosen
      have size : picks.length = 1 := by rw [← List.length_map (f := Prod.fst), indices, List.length_singleton]
      exact fewestExact_of_reach (show 1 ≤ 2 by decide) ⟨picks, sub.trans perm.subperm, size, reach⟩
        (Nat.le_add_right _ _)
    cases one : OneScan.scan goal sorted with
    | exact i =>
      refine ⟨_, rfl, both ⟨respects_of_early (show 1 < 4 by decide) (fun _ => noPair) nofun nofun, ?_⟩⟩
      exact reached (one_of one)
    | overshoot i excess =>
      have noSingle := not_setSum_one perm asc fun i => by rw [one]; exact nofun
      refine ⟨_, rfl, both ⟨respects_of_early (show 3 < 4 by decide) (fun _ => noPair) (fun _ => noSingle)
        (fun _ => noPairs), ?_⟩⟩
      exact reached (one_of one)
    | miss =>
      have under : Below sorted goal := by
        refine ⟨one_of one, ?_⟩
        rcases missed rfl with short | short
        · match sorted, short with
          | [], _ => exact positive
          | [c], _ => simpa [total] using one_of one c (List.mem_singleton_self c)
        · rwa [largestSum_eq (List.reverse_perm sorted) (descending_reverse asc)] at short
      obtain ⟨result, scan, ok, gone⟩ := KScan.scan_spec sorted_fits under.single under.pairs
      simp only [scan]
      cases result with
      | exact indices => exact ⟨_, rfl, both (exactK_tiers under perm asc ok)⟩
      | overshoot indices excess =>
        refine ⟨_, rfl, overshoot_tiers under perm asc ok fun capped exact_ => ?_⟩
        obtain ⟨picks, sub, size, reach⟩ := (setSum_iff ((List.reverse_perm sorted).trans perm)).mp exact_
        exact KScan.scan_complete asc sorted_fits under.single under.pairs (within run one) scan sub size
          (size.trans_le capped) reach
      | miss => exact ⟨_, rfl, both (nothing (weighs ▸ gone rfl))⟩

theorem tier_order_iff_sample : RespectsTiers [2, 3, 5] 10 (.exactK [2, 1, 0]) := by
  obtain ⟨result, run, respects⟩ := tier_order_iff stableSort [2, 3, 5] 10 (by decide) (by decide)
    (withinCap_of_length_le stableSort 10 (by decide))
  have is : findCombination stableSort [2, 3, 5] 10 = .ok (.exactK [2, 1, 0]) := by decide +kernel
  obtain rfl := Except.ok.inj (is.symm.trans run)
  refine respects.mpr fun short _ _ _ => ⟨3, ⟨_, List.Subperm.refl _, rfl, by decide⟩, fun count sum few set => ?_⟩
  exact short count sum (by omega) set

/-- Four of the notes sum to the goal, but the three largest, which overshoot it, are returned. -/
theorem overshoot_before_exact :
    WithinCap stableSort [4, 4, 4, 1, 1] 10 ∧ 0 < (10 : NoteAmount).toNat ∧ (amounts [4, 4, 4, 1, 1]).sum < 2 ^ 128 ∧
      findCombination stableSort [4, 4, 4, 1, 1] 10 = .ok (.overshoot [2, 1, 0] 2) ∧
      ¬RespectsTiers [4, 4, 4, 1, 1] 10 (.overshoot [2, 1, 0] 2) := by
  refine ⟨withinCap_of_length_le stableSort 10 (by decide), by decide, by decide, by decide +kernel, fun respects => ?_⟩
  have four : [(1, 4), (2, 4), (3, 1), (4, 1)].Subperm (enumerate [4, 4, 4, 1, 1]) :=
    (List.sublist_cons_self (0, 4) _).subperm
  exact respects.earlier .exactLarger (by decide) ⟨4, by decide, by decide, _, four, rfl, by decide⟩

end Order

end PrivatePayments.Planner
