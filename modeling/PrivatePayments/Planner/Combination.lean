import PrivatePayments.Client.PublicAmount
import PrivatePayments.Library.Largest

/-!
Coin selection: a pair, a single note, a capped search for each larger size, and last the
largest notes one after the other. Together they are complete: a selection of three or more
notes is one of as few notes as the goal allows.
-/

namespace PrivatePayments.Planner
open Client Library

inductive PlanError where
  | noSpendableNotes
  | noCombination
  | tooManyNotes (selected maxNotes : Nat)
  | noteIndexOutOfRange (index : Nat)
  | inputAmountOverflow
  | internalError (reason : String)
  | invalidPlan
  | commitmentNotFound (commitment : Bn254.Fr)
  | noteAmountMismatch (commitment : Bn254.Fr) (actual expected : NoteAmount)
  | noNoteForAmount (amount : NoteAmount)
  | ambiguousNoteForAmount (amount : NoteAmount)
  deriving DecidableEq

def checkedAdd (a b : NoteAmount) : Option NoteAmount :=
  if a.toNat + b.toNat < 2 ^ 128 then some (a + b) else none

def checkedSub (a b : NoteAmount) : Option NoteAmount :=
  if b.toNat ≤ a.toNat then some (a - b) else none

theorem checkedAdd_eq {a b : NoteAmount} (fits : a.toNat + b.toNat < 2 ^ 128) :
    checkedAdd a b = some (a + b) ∧ (a + b).toNat = a.toNat + b.toNat :=
  ⟨if_pos fits, BitVec.toNat_add_of_lt fits⟩

theorem checkedSub_eq {a b : NoteAmount} (le : b.toNat ≤ a.toNat) :
    checkedSub a b = some (a - b) ∧ a.toNat = b.toNat + (a - b).toNat := by
  refine ⟨if_pos le, ?_⟩
  rw [BitVec.toNat_sub_of_le (BitVec.le_def.mpr le)]
  omega

theorem checkedSub_eq_none {a b : NoteAmount} : checkedSub a b = none ↔ a.toNat < b.toNat := by
  rw [checkedSub, ← Nat.not_le]
  constructor
  · intro failed le
    rw [if_pos le] at failed
    cases failed
  · intro short
    exact if_neg short

/-- An amount with its index in the wallet. -/
abbrev Candidate := Nat × NoteAmount

abbrev weight (c : Candidate) : Nat := c.2.toNat

def transactionLimit : Nat := 10

inductive CombinationResult where
  | twoExact (i j : Nat)
  | oneExact (i : Nat)
  | twoOvershoot (i j : Nat) (excess : NoteAmount)
  | oneOvershoot (i : Nat) (excess : NoteAmount)
  | exactK (indices : List Nat)
  | overshoot (indices : List Nat) (excess : NoteAmount)
  | impossible
  deriving DecidableEq

/-- `sort_unstable_by_key` on the amounts: where equal amounts go is left open. -/
structure UnstableSort where
  sort : List Candidate → List Candidate
  perm : ∀ values, (sort values).Perm values
  ascending : ∀ values, (sort values).Pairwise fun a b => weight a ≤ weight b

/-- The sort that keeps equal amounts in their order. -/
def stableSort : UnstableSort where
  sort values := values.insertionSort fun a b => weight a ≤ weight b
  perm values := List.perm_insertionSort _ values
  ascending values := by
    have : Std.Total fun a b : Candidate => weight a ≤ weight b := ⟨fun a b => Nat.le_total (weight a) (weight b)⟩
    have : IsTrans Candidate fun a b => weight a ≤ weight b := ⟨fun _ _ _ => Nat.le_trans⟩
    exact List.pairwise_insertionSort _ values

/-- `min_ov.is_none_or(|excess| diff < excess)`. -/
def better {ρ : Type} (diff : NoteAmount) : Option (NoteAmount × ρ) → Bool
  | none => true
  | some (excess, _) => decide (diff.toNat < excess.toNat)

inductive TwoScan where
  | exact (i j : Nat)
  | overshoot (i j : Nat) (excess : NoteAmount)
  | miss
  deriving DecidableEq

/-- The loop of `TwoScan::scan`; `right` is `left + width`. -/
def TwoScan.loop (sorted : List Candidate) (goal : NoteAmount) :
    (width left : Nat) → left + width < sorted.length → Option (NoteAmount × Nat × Nat) → Except PlanError TwoScan
  | 0, _, _, none => .ok .miss
  | 0, _, _, some (excess, i, j) => .ok (.overshoot i j excess)
  | width + 1, left, bound, best =>
    let low := sorted[left]
    let high := sorted[left + (width + 1)]
    match checkedAdd low.2 high.2 with
    | none => .error .inputAmountOverflow
    | some sum =>
      match checkedSub sum goal with
      | none => TwoScan.loop sorted goal width (left + 1) (by omega) best
      | some diff =>
        if diff = 0 then .ok (.exact low.1 high.1)
        else TwoScan.loop sorted goal width left (by omega)
          (if better diff best then some (diff, low.1, high.1) else best)

def TwoScan.scan (sorted : List Candidate) (goal : NoteAmount) : Except PlanError TwoScan :=
  if h : sorted.length < 2 then .ok .miss
  else TwoScan.loop sorted goal (sorted.length - 1) 0 (by omega) none

inductive OneScan where
  | exact (i : Nat)
  | overshoot (i : Nat) (excess : NoteAmount)
  | miss
  deriving DecidableEq

def OneScan.scan (goal : NoteAmount) : List Candidate → OneScan
  | [] => .miss
  | (idx, x) :: rest =>
    match checkedSub x goal with
    | none => OneScan.scan goal rest
    | some diff => if diff = 0 then .exact idx else .overshoot idx diff

inductive KScan where
  | exact (indices : List Nat)
  | overshoot (indices : List Nat) (excess : NoteAmount)
  | miss
  deriving DecidableEq

structure DfsContext where
  iterationLimit : Nat
  path : List Nat
  bestOvershoot : Option (NoteAmount × List Nat)
  deriving DecidableEq

/-- The answer of `KScan::dfs` once the path has its length. -/
def KScan.reached (goal sum : NoteAmount) (ctx : DfsContext) : Bool × DfsContext :=
  match checkedSub sum goal with
  | none => (false, ctx)
  | some diff =>
    if diff = 0 then (true, ctx)
    else (false, if better diff ctx.bestOvershoot then { ctx with bestOvershoot := some (diff, ctx.path) } else ctx)

/-- `KScan::dfs` on the candidates from its index on. -/
def KScan.dfs (goal : NoteAmount) (targetK : Nat) :
    List Candidate → NoteAmount → DfsContext → Except PlanError (Bool × DfsContext)
  | [], sum, ctx => .ok (if ctx.path.length = targetK then KScan.reached goal sum ctx else (false, ctx))
  | note :: rest, sum, ctx =>
    if ctx.path.length = targetK then .ok (KScan.reached goal sum ctx)
    else if goal.toNat ≤ sum.toNat ∨ ctx.iterationLimit = 0 then .ok (false, ctx)
    else
      match checkedAdd sum note.2 with
      | none => .error .inputAmountOverflow
      | some withNote =>
        match KScan.dfs goal targetK rest withNote
          { ctx with iterationLimit := ctx.iterationLimit - 1, path := ctx.path ++ [note.1] } with
        | .error e => .error e
        | .ok (true, ctx) => .ok (true, ctx)
        | .ok (false, ctx) => KScan.dfs goal targetK rest sum { ctx with path := ctx.path.dropLast }

/-- The loop of `KScan::scan` over the sizes. -/
def KScan.sizes (goal : NoteAmount) (candidates : List Candidate) : List Nat → Except PlanError KScan
  | [] => .ok .miss
  | k :: ks =>
    match KScan.dfs goal k candidates 0 { iterationLimit := 5000, path := [], bestOvershoot := none } with
    | .error e => .error e
    | .ok (true, ctx) => .ok (.exact ctx.path)
    | .ok (false, { bestOvershoot := some (excess, path), .. }) => .ok (.overshoot path excess)
    | .ok (false, { bestOvershoot := none, .. }) => KScan.sizes goal candidates ks

/-- `KScan::greedy_impl` on the notes from the largest down. -/
def KScan.greedyImpl (goal : NoteAmount) : List Candidate → NoteAmount → List Nat → Except PlanError KScan
  | [], _, _ => .ok .miss
  | (idx, x) :: rest, total, picks =>
    match checkedAdd total x with
    | none => .error .inputAmountOverflow
    | some total =>
      if goal.toNat ≤ total.toNat then
        match checkedSub total goal with
        | none => .error (.internalError "greedy: excess invariant")
        | some excess => .ok (.overshoot (picks ++ [idx]) excess)
      else KScan.greedyImpl goal rest total (picks ++ [idx])

def KScan.scan (sorted : List Candidate) (goal : NoteAmount) : Except PlanError KScan :=
  let candidatesDesc := (sorted.filter fun c => decide (c.2.toNat < goal.toNat)).reverse
  let sizes := if 3 ≤ candidatesDesc.length then List.range' 3 (min candidatesDesc.length transactionLimit - 2) else []
  match KScan.sizes goal candidatesDesc sizes with
  | .ok .miss => KScan.greedyImpl goal sorted.reverse 0 []
  | found => found

def enumerate (values : List NoteAmount) : List Candidate := values.zipIdx.map Prod.swap

def findCombination (sorter : UnstableSort) (values : List NoteAmount) (goal : NoteAmount) :
    Except PlanError CombinationResult := do
  if values.isEmpty then return .impossible
  let sorted := sorter.sort (enumerate values)
  let two ← TwoScan.scan sorted goal
  let one := OneScan.scan goal sorted
  match two, one with
  | .exact i j, _ => return .twoExact i j
  | _, .exact i => return .oneExact i
  | .overshoot i j excess, _ => return .twoOvershoot i j excess
  | _, .overshoot i excess => return .oneOvershoot i excess
  | .miss, .miss =>
    match ← KScan.scan sorted goal with
    | .exact indices => return .exactK indices
    | .overshoot indices excess => return .overshoot indices excess
    | .miss => return .impossible

/-- The indices are those of candidates that sum to the goal and an excess. -/
def Chosen (candidates : List Candidate) (goal : NoteAmount) (indices : List Nat) (excess : Nat) : Prop :=
  ∃ picks : List Candidate, picks.Subperm candidates ∧ picks.map Prod.fst = indices ∧
    total weight picks = goal.toNat + excess

section Scans

theorem improved_isSome {ρ : Type} (diff : NoteAmount) (x : ρ) (best : Option (NoteAmount × ρ)) :
    (if better diff best then some (diff, x) else best).isSome = true := by
  cases best with
  | none => rfl
  | some best => split <;> rfl

theorem improved_cases {ρ : Type} {diff : NoteAmount} {x : ρ} {best : Option (NoteAmount × ρ)} {y : NoteAmount × ρ}
    (improved : (if better diff best then some (diff, x) else best) = some y) : y = (diff, x) ∨ best = some y := by
  split at improved
  · exact Or.inl (Option.some.inj improved).symm
  · exact Or.inr improved

variable {sorted : List Candidate} {goal : NoteAmount}

theorem pair_sublist {low high : Nat} (order : low < high) (bound : high < sorted.length) :
    [sorted[low], sorted[high]].Sublist sorted := by
  have later : sorted[high] ∈ sorted.drop (low + 1) := by
    rw [List.mem_iff_getElem]
    refine ⟨high - (low + 1), by rw [List.length_drop]; omega, ?_⟩
    rw [List.getElem_drop]
    congr 1
    omega
  have tail : [sorted[low], sorted[high]].Sublist (sorted.drop low) := by
    rw [List.drop_eq_getElem_cons (by omega)]
    exact (List.singleton_sublist.mpr later).cons_cons _
  exact tail.trans (List.drop_sublist low sorted)

def TwoScan.Sound (sorted : List Candidate) (goal : NoteAmount) : TwoScan → Prop
  | .exact i j => Chosen sorted goal [i, j] 0
  | .overshoot i j excess => Chosen sorted goal [i, j] excess.toNat
  | .miss => True

/-- A pair within the two ends that reaches the goal with the upper end is not passed over. -/
theorem TwoScan.loop_spec (goal : NoteAmount) (fits : total weight sorted < 2 ^ 128) (width left : Nat)
    (bound : left + width < sorted.length) (best : Option (NoteAmount × Nat × Nat))
    (sound : ∀ excess i j, best = some (excess, i, j) → Chosen sorted goal [i, j] excess.toNat) :
    ∃ result, TwoScan.loop sorted goal width left bound best = .ok result ∧ TwoScan.Sound sorted goal result ∧
      ((best.isSome ∨ ∃ low, ∃ order : left ≤ low ∧ low < left + width,
        goal.toNat ≤ weight sorted[low] + weight sorted[left + width]) → result ≠ .miss) := by
  induction width generalizing left best with
  | zero =>
    cases best with
    | none =>
      refine ⟨.miss, rfl, trivial, ?_⟩
      rintro (some_best | ⟨low, order, -⟩)
      · cases some_best
      · omega
    | some best =>
      obtain ⟨excess, i, j⟩ := best
      exact ⟨.overshoot i j excess, rfl, sound excess i j rfl, fun _ => by simp⟩
  | succ width ih =>
    have pair := pair_sublist (show left < left + (width + 1) by omega) bound
    have within := total_sublist weight pair
    have pair_total : total weight [sorted[left], sorted[left + (width + 1)]] =
        weight sorted[left] + weight sorted[left + (width + 1)] := by simp [total]
    obtain ⟨added, sum_eq⟩ := checkedAdd_eq (a := sorted[left].2) (b := sorted[left + (width + 1)].2)
      (by simp only [weight] at pair_total; omega)
    unfold TwoScan.loop
    simp only [added]
    by_cases reached : goal.toNat ≤ (sorted[left].2 + sorted[left + (width + 1)].2).toNat
    · obtain ⟨subbed, diff_eq⟩ := checkedSub_eq reached
      simp only [subbed]
      have chosen : Chosen sorted goal [sorted[left].1, sorted[left + (width + 1)].1]
          (sorted[left].2 + sorted[left + (width + 1)].2 - goal).toNat :=
        ⟨_, pair.subperm, rfl, by rw [pair_total, ← diff_eq, sum_eq]⟩
      by_cases zero : sorted[left].2 + sorted[left + (width + 1)].2 - goal = 0
      · rw [if_pos zero]
        rw [zero] at chosen
        exact ⟨_, rfl, chosen, fun _ => by simp⟩
      · rw [if_neg zero]
        obtain ⟨result, run, ok, hit⟩ := ih left (by omega) _ (by
          intro excess i j improved
          cases improved_cases improved with
          | inl new =>
            rw [Prod.mk.injEq, Prod.mk.injEq] at new
            obtain ⟨rfl, rfl, rfl⟩ := new
            exact chosen
          | inr old => exact sound excess i j old)
        exact ⟨result, run, ok, fun _ => hit (Or.inl (improved_isSome ..))⟩
    · simp only [checkedSub_eq_none.mpr (Nat.lt_of_not_le reached)]
      obtain ⟨result, run, ok, hit⟩ := ih (left + 1) (by omega) best sound
      refine ⟨result, run, ok, fun either => hit (either.imp_right ?_)⟩
      rintro ⟨low, order, reach⟩
      have moved : low ≠ left := by
        rintro rfl
        exact reached (by rw [sum_eq]; exact reach)
      refine ⟨low, ⟨by omega, by omega⟩, ?_⟩
      rw [show sorted[left + 1 + width] = sorted[left + (width + 1)] by congr 1; omega]
      exact reach

theorem descending_reverse (asc : sorted.Pairwise fun a b => weight a ≤ weight b) : Descending weight sorted.reverse :=
  List.pairwise_reverse.mpr asc

theorem TwoScan.scan_spec (goal : NoteAmount) (asc : sorted.Pairwise fun a b => weight a ≤ weight b)
    (fits : total weight sorted < 2 ^ 128) :
    ∃ result, TwoScan.scan sorted goal = .ok result ∧ TwoScan.Sound sorted goal result ∧
      (result = .miss → sorted.length < 2 ∨ largestSum 2 (sorted.map weight) < goal.toNat) := by
  by_cases short : sorted.length < 2
  · exact ⟨.miss, dif_pos short, trivial, fun _ => Or.inl short⟩
  obtain ⟨result, run, ok, hit⟩ :=
    TwoScan.loop_spec goal fits (sorted.length - 1) 0 (by omega) none (fun _ _ _ => nofun)
  refine ⟨result, (dif_neg short).trans run, ok, fun missed => Or.inr (Nat.lt_of_not_le fun reach => ?_)⟩
  refine hit (Or.inr ⟨sorted.length - 2, ⟨by omega, by omega⟩, ?_⟩) missed
  rw [largestSum_eq (List.reverse_perm sorted) (descending_reverse asc)] at reach
  have ends : sorted.reverse.take 2 = [sorted[0 + (sorted.length - 1)], sorted[sorted.length - 2]] := by
    apply List.ext_getElem
    · simp only [List.length_take, List.length_reverse, List.length_cons, List.length_nil]
      omega
    · intro i first second
      rw [List.getElem_take, List.getElem_reverse]
      match i with
      | 0 => simp
      | 1 => simp [Nat.sub_sub]
  rw [ends] at reach
  simpa [total, Nat.add_comm] using reach

def OneScan.Sound (sorted : List Candidate) (goal : NoteAmount) : OneScan → Prop
  | .exact i => Chosen sorted goal [i] 0
  | .overshoot i excess => Chosen sorted goal [i] excess.toNat
  | .miss => ∀ c ∈ sorted, weight c < goal.toNat

theorem OneScan.scan_spec (goal : NoteAmount) (sorted : List Candidate) :
    OneScan.Sound sorted goal (OneScan.scan goal sorted) := by
  induction sorted with
  | nil => exact fun _ member => nomatch member
  | cons note rest ih =>
    obtain ⟨idx, x⟩ := note
    unfold OneScan.scan
    by_cases reached : goal.toNat ≤ x.toNat
    · obtain ⟨subbed, diff_eq⟩ := checkedSub_eq reached
      have chosen : Chosen ((idx, x) :: rest) goal [idx] (x - goal).toNat :=
        ⟨[(idx, x)], (List.sublist_append_left [(idx, x)] rest).subperm, rfl, diff_eq⟩
      simp only [subbed]
      by_cases zero : x - goal = 0
      · rw [if_pos zero]
        rw [zero] at chosen
        exact chosen
      · rw [if_neg zero]
        exact chosen
    · simp only [checkedSub_eq_none.mpr (Nat.lt_of_not_le reached)]
      cases result : OneScan.scan goal rest with
      | miss =>
        rw [result] at ih
        exact List.forall_mem_cons.mpr ⟨Nat.lt_of_not_le reached, ih⟩
      | exact i =>
        rw [result] at ih
        obtain ⟨picks, chosen, indices, sum⟩ := ih
        exact ⟨picks, chosen.trans (List.sublist_cons_self ..).subperm, indices, sum⟩
      | overshoot i excess =>
        rw [result] at ih
        obtain ⟨picks, chosen, indices, sum⟩ := ih
        exact ⟨picks, chosen.trans (List.sublist_cons_self ..).subperm, indices, sum⟩

end Scans

section Search

variable {goal : NoteAmount} {k : Nat}

/-- The path grows by the indices of candidates that bring the sum to what it reaches. -/
def Extends (candidates : List Candidate) (k sum : Nat) (path result : List Nat) (reaches : Nat) : Prop :=
  ∃ picks : List Candidate, picks.Sublist candidates ∧ result = path ++ picks.map Prod.fst ∧
    path.length + picks.length = k ∧ sum + total weight picks = reaches

theorem Extends.take {note : Candidate} {rest : List Candidate} {sum reaches : Nat} {path result : List Nat}
    (ext : Extends rest k (sum + weight note) (path ++ [note.1]) result reaches) :
    Extends (note :: rest) k sum path result reaches := by
  obtain ⟨picks, sub, same, size, reach⟩ := ext
  refine ⟨note :: picks, sub.cons_cons _, ?_, ?_, ?_⟩
  · rw [same, List.append_assoc]
    rfl
  · rw [List.length_append, List.length_singleton] at size
    rw [List.length_cons]
    omega
  · rw [← reach, Nat.add_assoc]
    rfl

theorem Extends.skip {note : Candidate} {rest : List Candidate} {sum reaches : Nat} {path result : List Nat}
    (ext : Extends rest k sum path result reaches) : Extends (note :: rest) k sum path result reaches := by
  obtain ⟨picks, sub, same, size, reach⟩ := ext
  exact ⟨picks, sub.cons _, same, size, reach⟩

/-- What the search leaves: the path it found or the path it was given, and as overshoot the one
it was given or one of its own. -/
structure KScan.Searched (candidates : List Candidate) (goal : NoteAmount) (k sum : Nat) (ctx : DfsContext)
    (found : Bool) (after : DfsContext) : Prop where
  exact : found = true → Extends candidates k sum ctx.path after.path goal.toNat
  restored : found = false → after.path = ctx.path
  overshoot : ∀ excess path, after.bestOvershoot = some (excess, path) → ctx.bestOvershoot = some (excess, path) ∨
    Extends candidates k sum ctx.path path (goal.toNat + excess.toNat)
  kept : ctx.bestOvershoot.isSome → after.bestOvershoot.isSome

theorem KScan.searched_stop (candidates : List Candidate) (goal : NoteAmount) (k sum : Nat) (ctx : DfsContext) :
    KScan.Searched candidates goal k sum ctx false ctx :=
  ⟨nofun, fun _ => rfl, fun _ _ => Or.inl, id⟩

theorem KScan.searched_reached (candidates : List Candidate) (goal sum : NoteAmount) (ctx : DfsContext)
    (full : ctx.path.length = k) :
    KScan.Searched candidates goal k sum.toNat ctx (KScan.reached goal sum ctx).1 (KScan.reached goal sum ctx).2 := by
  have here (excess : Nat) (eq : sum.toNat = goal.toNat + excess) :
      Extends candidates k sum.toNat ctx.path ctx.path (goal.toNat + excess) :=
    ⟨[], List.nil_sublist _, (List.append_nil _).symm, full, eq⟩
  unfold KScan.reached
  by_cases enough : goal.toNat ≤ sum.toNat
  · obtain ⟨subbed, diff_eq⟩ := checkedSub_eq enough
    simp only [subbed]
    by_cases zero : sum - goal = 0
    · rw [if_pos zero]
      rw [zero] at diff_eq
      exact ⟨fun _ => here 0 diff_eq, nofun, fun _ _ => Or.inl, id⟩
    · rw [if_neg zero]
      by_cases improves : better (sum - goal) ctx.bestOvershoot = true
      · rw [if_pos improves]
        refine ⟨nofun, fun _ => rfl, ?_, fun _ => rfl⟩
        rintro _ _ ⟨⟩
        exact Or.inr (here _ diff_eq)
      · rw [if_neg improves]
        exact KScan.searched_stop ..
  · simp only [checkedSub_eq_none.mpr (Nat.lt_of_not_le enough)]
    exact KScan.searched_stop ..

theorem KScan.dfs_spec (goal : NoteAmount) (k : Nat) (candidates : List Candidate) (sum : NoteAmount) (ctx : DfsContext)
    (fits : sum.toNat + total weight candidates < 2 ^ 128) :
    ∃ found after, KScan.dfs goal k candidates sum ctx = .ok (found, after) ∧
      KScan.Searched candidates goal k sum.toNat ctx found after := by
  induction candidates generalizing sum ctx with
  | nil =>
    unfold KScan.dfs
    by_cases full : ctx.path.length = k
    · rw [if_pos full]
      exact ⟨_, _, rfl, KScan.searched_reached [] goal sum ctx full⟩
    · rw [if_neg full]
      exact ⟨_, _, rfl, KScan.searched_stop ..⟩
  | cons note rest ih =>
    unfold KScan.dfs
    by_cases full : ctx.path.length = k
    · rw [if_pos full]
      exact ⟨_, _, rfl, KScan.searched_reached _ goal sum ctx full⟩
    rw [if_neg full]
    by_cases stop : goal.toNat ≤ sum.toNat ∨ ctx.iterationLimit = 0
    · rw [if_pos stop]
      exact ⟨_, _, rfl, KScan.searched_stop ..⟩
    rw [if_neg stop]
    have parts : total weight (note :: rest) = note.2.toNat + total weight rest := rfl
    obtain ⟨added, sum_eq⟩ := checkedAdd_eq (a := sum) (b := note.2) (by omega)
    obtain ⟨found, after, run, searched⟩ := ih (sum + note.2)
      { ctx with iterationLimit := ctx.iterationLimit - 1, path := ctx.path ++ [note.1] } (by omega)
    rw [sum_eq] at searched
    simp only [added, run]
    cases found with
    | true =>
      refine ⟨true, after, rfl, fun _ => (searched.exact rfl).take, nofun, ?_, searched.kept⟩
      intro excess path best
      exact (searched.overshoot excess path best).imp_right Extends.take
    | false =>
      have path_eq : after.path.dropLast = ctx.path := by
        rw [searched.restored rfl, List.dropLast_concat]
      obtain ⟨found, last, run, second⟩ := ih sum { after with path := after.path.dropLast } (by omega)
      simp only [path_eq] at second run ⊢
      refine ⟨found, last, run, fun yes => (second.exact yes).skip, second.restored, ?_, ?_⟩
      · intro excess path best
        cases second.overshoot excess path best with
        | inl before => exact (searched.overshoot excess path before).imp_right Extends.take
        | inr own => exact Or.inr own.skip
      · exact fun before => second.kept (searched.kept before)

theorem KScan.reached_of_le {goal sum : NoteAmount} (ctx : DfsContext) (enough : goal.toNat ≤ sum.toNat) :
    (KScan.reached goal sum ctx).1 = true ∨ (KScan.reached goal sum ctx).2.bestOvershoot.isSome := by
  unfold KScan.reached
  simp only [(checkedSub_eq enough).1]
  by_cases zero : sum - goal = 0
  · rw [if_pos zero]
    exact Or.inl rfl
  · rw [if_neg zero]
    have improved := improved_isSome (sum - goal) ctx.path ctx.bestOvershoot
    right
    split at improved <;> rename_i improves
    · rw [if_pos improves]
      rfl
    · rw [if_neg improves]
      exact improved

/-- The first path takes the candidates in their order. Where no shorter one reaches the goal it is
walked to its end, and the cap on the steps only has to cover its length. -/
theorem KScan.dfs_first (goal : NoteAmount) (k m : Nat) (candidates : List Candidate) (sum : NoteAmount)
    (ctx : DfsContext) (fits : sum.toNat + total weight candidates < 2 ^ 128) (size : ctx.path.length + m = k)
    (cap : m ≤ ctx.iterationLimit) (short : ∀ j < m, sum.toNat + total weight (candidates.take j) < goal.toNat)
    (reach : goal.toNat ≤ sum.toNat + total weight (candidates.take m)) :
    ∃ found after, KScan.dfs goal k candidates sum ctx = .ok (found, after) ∧
      (found = true ∨ after.bestOvershoot.isSome) := by
  induction candidates generalizing m sum ctx with
  | nil =>
    have none_left : m = 0 := by
      by_contra more
      have below := short 0 (by omega)
      rw [List.take_nil] at reach below
      omega
    subst none_left
    unfold KScan.dfs
    rw [if_pos ((Nat.add_zero _).symm.trans size)]
    exact ⟨_, _, rfl, KScan.reached_of_le ctx reach⟩
  | cons note rest ih =>
    unfold KScan.dfs
    cases m with
    | zero =>
      rw [if_pos ((Nat.add_zero _).symm.trans size)]
      exact ⟨_, _, rfl, KScan.reached_of_le ctx reach⟩
    | succ m =>
      have below : sum.toNat < goal.toNat := short 0 (by omega)
      rw [if_neg (by omega), if_neg (by omega)]
      have parts : total weight (note :: rest) = note.2.toNat + total weight rest := rfl
      obtain ⟨added, sum_eq⟩ := checkedAdd_eq (a := sum) (b := note.2) (by omega)
      have step (j : Nat) : sum.toNat + total weight ((note :: rest).take (j + 1)) =
          (sum + note.2).toNat + total weight (rest.take j) := by
        rw [sum_eq, Nat.add_assoc]
        rfl
      obtain ⟨found, after, run, hit⟩ := ih m (sum + note.2)
        { ctx with iterationLimit := ctx.iterationLimit - 1, path := ctx.path ++ [note.1] } (by omega)
        (by simp only [List.length_append, List.length_singleton]; omega) (Nat.le_sub_of_add_le cap)
        (fun j less => by rw [← step]; exact short (j + 1) (by omega)) (by rw [← step]; exact reach)
      simp only [added, run]
      cases found with
      | true => exact ⟨true, after, rfl, Or.inl rfl⟩
      | false =>
        have best := hit.resolve_left Bool.false_ne_true
        obtain ⟨found, last, run, searched⟩ := KScan.dfs_spec goal k rest sum
          { after with path := after.path.dropLast } (by omega)
        exact ⟨found, last, run, Or.inr (searched.kept best)⟩

/-- A selection in descending order of as few notes as reach the goal, three at least. -/
def Fewest (desc : List Candidate) (goal : NoteAmount) (indices : List Nat) (excess : Nat) : Prop :=
  ∃ picks : List Candidate, picks.Sublist desc ∧ picks.map Prod.fst = indices ∧
    total weight picks = goal.toNat + excess ∧ 3 ≤ picks.length ∧
    total weight (desc.take (picks.length - 1)) < goal.toNat

def KScan.Sound (desc : List Candidate) (goal : NoteAmount) : KScan → Prop
  | .exact indices => Fewest desc goal indices 0
  | .overshoot indices excess => Fewest desc goal indices excess.toNat
  | .miss => True

/-- Where a search finds nothing, not even an overshooting set, the largest notes of its size stay below. -/
theorem KScan.short_of_none {desc : List Candidate} {after : DfsContext} (fits : total weight desc < 2 ^ 128)
    (capped : k ≤ 5000) (short : total weight (desc.take (k - 1)) < goal.toNat)
    (run : KScan.dfs goal k desc 0 { iterationLimit := 5000, path := [], bestOvershoot := none } = .ok (false, after))
    (none_ : after.bestOvershoot = none) : total weight (desc.take k) < goal.toNat := by
  by_contra enough
  obtain ⟨found, last, again, hit⟩ := KScan.dfs_first goal k k desc 0
    { iterationLimit := 5000, path := [], bestOvershoot := none } ((Nat.zero_add _).trans_lt fits)
    (Nat.zero_add k) capped
    (fun j less => by
      have fewer := total_take_mono weight desc (show j ≤ k - 1 by omega)
      exact (Nat.zero_add _).trans_lt (by omega))
    ((Nat.le_of_not_lt enough).trans_eq (Nat.zero_add _).symm)
  rw [run] at again
  cases again
  rw [none_] at hit
  simp at hit

theorem KScan.sizes_spec (goal : NoteAmount) (desc : List Candidate) (fits : total weight desc < 2 ^ 128) (n k : Nat)
    (least : 3 ≤ k) (capped : k + n ≤ 5000) (short : total weight (desc.take (k - 1)) < goal.toNat) :
    ∃ result, KScan.sizes goal desc (List.range' k n) = .ok result ∧ KScan.Sound desc goal result ∧
      (result = .miss → total weight (desc.take (k + n - 1)) < goal.toNat) := by
  induction n generalizing k with
  | zero => exact ⟨.miss, rfl, trivial, fun _ => short⟩
  | succ n ih =>
    let start : DfsContext := { iterationLimit := 5000, path := [], bestOvershoot := none }
    have zero : (0 : NoteAmount).toNat + total weight desc < 2 ^ 128 := by simpa using fits
    obtain ⟨found, after, run, searched⟩ := KScan.dfs_spec goal k desc 0 start zero
    have fewest {path : List Nat} {excess : Nat}
        (ext : Extends desc k (0 : NoteAmount).toNat start.path path (goal.toNat + excess)) :
        Fewest desc goal path excess := by
      obtain ⟨picks, sub, same, size, reach⟩ := ext
      have size : picks.length = k := (Nat.zero_add _).symm.trans size
      exact ⟨picks, sub, same.symm, (Nat.zero_add _).symm.trans reach, by omega, by rw [size]; exact short⟩
    rw [List.range'_succ]
    unfold KScan.sizes
    simp only [start] at run
    simp only [run]
    cases found with
    | true => exact ⟨_, rfl, fewest (searched.exact rfl), nofun⟩
    | false =>
      obtain ⟨limit, path, best⟩ := after
      cases best with
      | some best =>
        obtain ⟨excess, path⟩ := best
        exact ⟨_, rfl, fewest ((searched.overshoot excess path rfl).resolve_left nofun), nofun⟩
      | none =>
        have below := KScan.short_of_none fits (by omega) short run rfl
        obtain ⟨result, rest, ok, missed⟩ := ih (k + 1) (by omega) (by omega) below
        refine ⟨result, rest, ok, fun miss => ?_⟩
        have last := missed miss
        rwa [show k + 1 + n - 1 = k + (n + 1) - 1 by omega] at last

/-- Note by note from the largest down, the first sum that reaches the goal is taken. -/
theorem KScan.greedyImpl_spec (goal : NoteAmount) (before rest : List Candidate) (sum : NoteAmount)
    (fits : total weight (before ++ rest) < 2 ^ 128) (sum_eq : sum.toNat = total weight before)
    (short : total weight before < goal.toNat) :
    (KScan.greedyImpl goal rest sum (before.map Prod.fst) = .ok .miss ∧ total weight (before ++ rest) < goal.toNat) ∨
    ∃ n excess, KScan.greedyImpl goal rest sum (before.map Prod.fst) =
        .ok (.overshoot (((before ++ rest).take (n + 1)).map Prod.fst) excess) ∧ n < (before ++ rest).length ∧
      total weight ((before ++ rest).take (n + 1)) = goal.toNat + excess.toNat ∧
      total weight ((before ++ rest).take n) < goal.toNat := by
  induction rest generalizing before sum with
  | nil => exact Or.inl ⟨rfl, by rwa [List.append_nil]⟩
  | cons note rest ih =>
    obtain ⟨idx, x⟩ := note
    have grown : before ++ (idx, x) :: rest = (before ++ [(idx, x)]) ++ rest := by
      rw [List.append_assoc]
      rfl
    have parts : total weight (before ++ [(idx, x)]) = total weight before + x.toNat := total_append weight ..
    have whole := total_append weight (before ++ [(idx, x)]) rest
    rw [← grown] at whole
    obtain ⟨added, next_eq⟩ := checkedAdd_eq (a := sum) (b := x) (by omega)
    unfold KScan.greedyImpl
    simp only [added]
    have indices : (before ++ [(idx, x)]).map Prod.fst = before.map Prod.fst ++ [idx] := List.map_append
    by_cases reached : goal.toNat ≤ (sum + x).toNat
    · obtain ⟨subbed, diff_eq⟩ := checkedSub_eq reached
      rw [if_pos reached]
      simp only [subbed]
      have taken : (before ++ (idx, x) :: rest).take (before.length + 1) = before ++ [(idx, x)] := by
        rw [grown, List.take_left' (by simp)]
      refine Or.inr ⟨before.length, sum + x - goal, ?_, by simp, ?_, ?_⟩
      · rw [taken, indices]
      · rw [taken, parts, ← diff_eq, next_eq, sum_eq]
      · rwa [List.take_left]
    · rw [if_neg reached, ← indices, grown]
      exact ih (before ++ [(idx, x)]) (sum + x) (by rw [← grown]; exact fits)
        (by rw [next_eq, sum_eq, parts]) (by omega)

/-- With every note below the goal and no pair that reaches it, the scan only misses where all the notes
together stay below. -/
theorem KScan.scan_spec {sorted : List Candidate} {goal : NoteAmount} (fits : total weight sorted < 2 ^ 128)
    (below : ∀ c ∈ sorted, weight c < goal.toNat) (pairs : total weight (sorted.reverse.take 2) < goal.toNat) :
    ∃ result, KScan.scan sorted goal = .ok result ∧ KScan.Sound sorted.reverse goal result ∧
      (result = .miss → total weight sorted < goal.toNat) := by
  have reversed := total_perm weight (List.reverse_perm sorted)
  have all : (sorted.filter fun c => decide (c.2.toNat < goal.toNat)).reverse = sorted.reverse := by
    rw [List.filter_eq_self.mpr fun c member => decide_eq_true (below c member)]
  have greedy : ∃ result, KScan.greedyImpl goal sorted.reverse 0 [] = .ok result ∧
      KScan.Sound sorted.reverse goal result ∧ (result = .miss → total weight sorted < goal.toNat) := by
    have run := KScan.greedyImpl_spec goal [] sorted.reverse 0 (by simpa [reversed] using fits) rfl
      ((Nat.zero_le _).trans_lt pairs)
    rw [List.nil_append, reversed] at run
    rcases run with ⟨run, small⟩ | ⟨n, excess, run, length, reach, short⟩
    · exact ⟨.miss, run, trivial, fun _ => small⟩
    · have size : (sorted.reverse.take (n + 1)).length = n + 1 := List.length_take_of_le length
      refine ⟨_, run, ⟨_, List.take_sublist .., rfl, reach, ?_, by rwa [size]⟩, nofun⟩
      by_contra few
      have grows := total_take_mono weight sorted.reverse (show n + 1 ≤ 2 by omega)
      omega
  unfold KScan.scan
  simp only [all]
  by_cases enough : 3 ≤ sorted.reverse.length
  · rw [if_pos enough]
    obtain ⟨result, run, ok, -⟩ := KScan.sizes_spec goal sorted.reverse (by rwa [reversed])
      (min sorted.reverse.length transactionLimit - 2) 3 le_rfl (by unfold transactionLimit; omega) pairs
    rw [run]
    cases result with
    | miss => exact greedy
    | exact indices => exact ⟨_, rfl, ok, nofun⟩
    | overshoot indices excess => exact ⟨_, rfl, ok, nofun⟩
  · rw [if_neg enough]
    exact greedy

end Search

section Selection

/-- The indices of a selection and the change it leaves. -/
def CombinationResult.selection : CombinationResult → Option (List Nat × Option NoteAmount)
  | .impossible => none
  | .oneExact i => some ([i], none)
  | .twoExact i j => some ([i, j], none)
  | .oneOvershoot i excess => some ([i], some excess)
  | .twoOvershoot i j excess => some ([i, j], some excess)
  | .exactK indices => some (indices, none)
  | .overshoot indices excess => some (indices, some excess)

abbrev amounts (values : List NoteAmount) : List Nat := values.map (·.toNat)

/-- Notes that reach the goal and the change. Where they are three or more, they come from the
largest down and no smaller number of notes reaches the goal. -/
structure Selected (values : List NoteAmount) (goal : NoteAmount) (indices : List Nat) (change : Option NoteAmount)
    (picks : List Candidate) : Prop where
  chosen : picks.Subperm (enumerate values)
  indices : picks.map Prod.fst = indices
  reach : total weight picks = goal.toNat + (change.getD 0).toNat
  descending : 3 ≤ picks.length → Descending weight picks
  fewest : 3 ≤ picks.length → largestSum (picks.length - 1) (amounts values) < goal.toNat

theorem mem_enumerate {values : List NoteAmount} {c : Candidate} : c ∈ enumerate values ↔ values[c.1]? = some c.2 := by
  rw [enumerate, List.mem_map]
  constructor
  · rintro ⟨pair, member, rfl⟩
    exact List.mem_zipIdx_iff_getElem?.mp member
  · intro here
    exact ⟨c.swap, List.mem_zipIdx_iff_getElem?.mpr here, Prod.swap_swap c⟩

theorem enumerate_indices (values : List NoteAmount) : ((enumerate values).map Prod.fst).Nodup := by
  have indices : (enumerate values).map Prod.fst = List.range' 0 values.length := by
    rw [enumerate, List.map_map, ← List.zipIdx_map_snd 0 values]
    rfl
  rw [indices]
  exact List.nodup_range'

theorem enumerate_weights (values : List NoteAmount) : (enumerate values).map weight = amounts values := by
  calc (enumerate values).map weight = (values.zipIdx.map Prod.fst).map (·.toNat) := by
        rw [enumerate, List.map_map, List.map_map]
        rfl
    _ = amounts values := by rw [List.zipIdx_map_fst]

variable {values : List NoteAmount} {goal : NoteAmount}

theorem selected_of_fewest {desc : List Candidate} {indices : List Nat} (change : Option NoteAmount)
    (perm : desc.Perm (enumerate values)) (order : Descending weight desc)
    (fewest : Fewest desc goal indices (change.getD 0).toNat) :
    ∃ picks, Selected values goal indices change picks := by
  obtain ⟨picks, sub, same, reach, size, short⟩ := fewest
  refine ⟨picks, sub.subperm.trans perm.subperm, same, reach, fun _ => order.sublist sub, fun _ => ?_⟩
  rwa [← enumerate_weights, largestSum_eq perm order]

theorem selected_of_chosen {sorted : List Candidate} {indices : List Nat} (change : Option NoteAmount)
    (perm : sorted.Perm (enumerate values)) (chosen : Chosen sorted goal indices (change.getD 0).toNat)
    (few : indices.length < 3) : ∃ picks, Selected values goal indices change picks := by
  obtain ⟨picks, sub, same, reach⟩ := chosen
  have size : picks.length = indices.length := by rw [← same, List.length_map]
  exact ⟨picks, sub.trans perm.subperm, same, reach, fun many => by omega, fun many => by omega⟩

theorem findCombination_spec (sorter : UnstableSort) (values : List NoteAmount) (goal : NoteAmount)
    (nonempty : values ≠ []) (positive : 0 < goal.toNat)
    (fits : (amounts values).sum < 2 ^ 128) :
    ∃ result, findCombination sorter values goal = .ok result ∧
      ((result = .impossible ∧ (amounts values).sum < goal.toNat) ∨
        ∃ indices change picks, result.selection = some (indices, change) ∧
          Selected values goal indices change picks) := by
  have perm := sorter.perm (enumerate values)
  have asc := sorter.ascending (enumerate values)
  unfold findCombination
  rw [if_neg (by simpa using nonempty)]
  generalize sorter.sort (enumerate values) = sorted at perm asc
  have weighs : total weight sorted = (amounts values).sum := by
    rw [← enumerate_weights]
    exact total_perm weight perm
  have sorted_fits : total weight sorted < 2 ^ 128 := by rwa [weighs]
  have rev := (List.reverse_perm sorted).trans perm
  obtain ⟨two, run, pair, missed⟩ := TwoScan.scan_spec goal asc sorted_fits
  have single := OneScan.scan_spec goal sorted
  simp only [run]
  have one_of {one : OneScan} (is : OneScan.scan goal sorted = one) : OneScan.Sound sorted goal one := is ▸ single
  cases two with
  | exact i j =>
    obtain ⟨picks, sel⟩ := selected_of_chosen none perm pair (by simp)
    exact ⟨_, rfl, Or.inr ⟨_, _, picks, rfl, sel⟩⟩
  | overshoot i j excess =>
    cases one : OneScan.scan goal sorted with
    | exact i =>
      obtain ⟨picks, sel⟩ := selected_of_chosen none perm (one_of one) (by simp)
      exact ⟨_, rfl, Or.inr ⟨_, _, picks, rfl, sel⟩⟩
    | overshoot _ _ =>
      obtain ⟨picks, sel⟩ := selected_of_chosen (some excess) perm pair (by simp)
      exact ⟨_, rfl, Or.inr ⟨_, _, picks, rfl, sel⟩⟩
    | miss =>
      obtain ⟨picks, sel⟩ := selected_of_chosen (some excess) perm pair (by simp)
      exact ⟨_, rfl, Or.inr ⟨_, _, picks, rfl, sel⟩⟩
  | miss =>
    cases one : OneScan.scan goal sorted with
    | exact i =>
      obtain ⟨picks, sel⟩ := selected_of_chosen none perm (one_of one) (by simp)
      exact ⟨_, rfl, Or.inr ⟨_, _, picks, rfl, sel⟩⟩
    | overshoot i excess =>
      obtain ⟨picks, sel⟩ := selected_of_chosen (some excess) perm (one_of one) (by simp)
      exact ⟨_, rfl, Or.inr ⟨_, _, picks, rfl, sel⟩⟩
    | miss =>
      have below : ∀ c ∈ sorted, weight c < goal.toNat := one_of one
      have pairs : total weight (sorted.reverse.take 2) < goal.toNat := by
        rcases missed rfl with short | short
        · match sorted, short with
          | [], _ => exact positive
          | [c], _ => simpa [total] using below c (List.mem_singleton_self c)
        · rwa [largestSum_eq (List.reverse_perm sorted) (descending_reverse asc)] at short
      obtain ⟨result, scan, ok, gone⟩ := KScan.scan_spec sorted_fits below pairs
      simp only [scan]
      cases result with
      | exact indices =>
        obtain ⟨picks, sel⟩ := selected_of_fewest none rev (descending_reverse asc) ok
        exact ⟨_, rfl, Or.inr ⟨_, _, picks, rfl, sel⟩⟩
      | overshoot indices excess =>
        obtain ⟨picks, sel⟩ := selected_of_fewest (some excess) rev (descending_reverse asc) ok
        exact ⟨_, rfl, Or.inr ⟨_, _, picks, rfl, sel⟩⟩
      | miss => exact ⟨_, rfl, Or.inl ⟨rfl, weighs ▸ gone rfl⟩⟩

end Selection

end PrivatePayments.Planner
