import PrivatePayments.Pool.MerkleTreeWithHistory

/-!
The window of known roots: the search walks once around the ring and finds exactly the
ninety most recent roots.
-/

namespace PrivatePayments.Pool.MerkleTreeWithHistory
open Bn254 Poseidon2 Soroban Library FullTree Merkle

section Search

variable {roots : Nat → Option U256} {root : U256} {current : Nat}

/-- The root is in a slot that lies `turn` places or more after the current one. -/
def Ahead (roots : Nat → Option U256) (root : U256) (current turn : Nat) : Prop :=
  ∃ t, turn ≤ t ∧ t < rootHistorySize ∧ roots ((current + t) % rootHistorySize) = some root

theorem not_ahead_end : ¬Ahead roots root current rootHistorySize := by
  rintro ⟨t, far, near, -⟩
  exact Nat.not_lt.mpr far near

theorem ahead_succ {turn : Nat} (missing : roots ((current + turn) % rootHistorySize) ≠ some root) :
    Ahead roots root current turn ↔ Ahead roots root current (turn + 1) := by
  unfold Ahead
  constructor
  · intro ⟨t, far, near, there⟩
    have later : turn ≠ t := by
      intro same
      rw [same] at missing
      exact missing there
    exact ⟨t, by omega, near, there⟩
  · intro ⟨t, far, near, there⟩
    exact ⟨t, by omega, near, there⟩

/-- From the slot `turn` places after the current one, the search looks at the slots that are left
and stops before it comes around. -/
theorem searchRoots_from (low : current < rootHistorySize) (left turn : Nat)
    (whole : turn + (left + 1) = rootHistorySize) :
    ∃ found, searchRoots roots root current (left + 1) ((current + turn) % rootHistorySize) =
      some (.ok found) ∧ (found = true ↔ Ahead roots root current turn) := by
  induction left generalizing turn with
  | zero =>
    have last : turn + 1 = rootHistorySize := whole
    have inside := Nat.mod_lt (current + turn) (show 0 < rootHistorySize by decide)
    have next : checkedAdd 32 ((current + turn) % rootHistorySize) 1 =
        some ((current + turn) % rootHistorySize + 1) :=
      checkedAdd_eq (by simp only [rootHistorySize] at inside ⊢; omega)
    have around : ((current + turn) % rootHistorySize + 1) % rootHistorySize = current := by
      simp only [rootHistorySize] at low last ⊢
      omega
    unfold searchRoots
    by_cases here : roots ((current + turn) % rootHistorySize) = some root
    · rw [if_pos here]
      exact ⟨true, rfl, fun _ => ⟨turn, Nat.le_refl _, by omega, here⟩, fun _ => rfl⟩
    · rw [if_neg here, next]
      simp only [around, if_true]
      refine ⟨false, rfl, ?_⟩
      rw [ahead_succ here, last]
      simp [not_ahead_end]
  | succ left ih =>
    have inside := Nat.mod_lt (current + turn) (show 0 < rootHistorySize by decide)
    have next : checkedAdd 32 ((current + turn) % rootHistorySize) 1 =
        some ((current + turn) % rootHistorySize + 1) :=
      checkedAdd_eq (by simp only [rootHistorySize] at inside ⊢; omega)
    have step : ((current + turn) % rootHistorySize + 1) % rootHistorySize =
        (current + (turn + 1)) % rootHistorySize := by
      rw [Nat.mod_add_mod, Nat.add_assoc]
    have short : ¬(current + (turn + 1)) % rootHistorySize = current := by
      simp only [rootHistorySize] at low whole ⊢
      omega
    unfold searchRoots
    by_cases here : roots ((current + turn) % rootHistorySize) = some root
    · rw [if_pos here]
      exact ⟨true, rfl, fun _ => ⟨turn, Nat.le_refl _, by omega, here⟩, fun _ => rfl⟩
    · rw [if_neg here, next]
      simp only [step, short, if_false]
      rw [ahead_succ here]
      exact ih (turn + 1) (by omega)

theorem ahead_zero (low : current < rootHistorySize) :
    Ahead roots root current 0 ↔ ∃ i, i < rootHistorySize ∧ roots i = some root := by
  constructor
  · intro ⟨t, _, _, there⟩
    exact ⟨_, Nat.mod_lt _ (by decide), there⟩
  · intro ⟨i, below, there⟩
    have slot : (current + (i + rootHistorySize - current) % rootHistorySize) % rootHistorySize = i := by
      simp only [rootHistorySize] at low below ⊢
      omega
    refine ⟨_, Nat.zero_le _, Nat.mod_lt (i + rootHistorySize - current) (by decide), ?_⟩
    rw [slot]
    exact there

theorem searchRoots_eq (low : current < rootHistorySize) :
    ∃ found, searchRoots roots root current rootHistorySize current = some (.ok found) ∧
      (found = true ↔ ∃ i, i < rootHistorySize ∧ roots i = some root) := by
  have start : (current + 0) % rootHistorySize = current := Nat.mod_eq_of_lt low
  obtain ⟨found, searched, exact_⟩ :=
    @searchRoots_from roots root current low 89 0 rfl
  rw [start] at searched
  rw [ahead_zero low] at exact_
  exact ⟨found, searched, exact_⟩

end Search

theorem Good.isKnownRoot {H : Hasher} {levels : Nat} {p : Progress} (good : Good H levels p) (root : U256) :
    (MerkleTreeWithHistory.isKnownRoot root).run p.env =
      .ok (decide (root ≠ 0 ∧ root ∈ (producedRoots H levels (p.leaves.map ofU256)).reverse.take 90), p.env) := by
  have low := Nat.mod_lt (p.leaves.length / 2) (show 0 < rootHistorySize by decide)
  by_cases zero : root = 0
  · simp only [MerkleTreeWithHistory.isKnownRoot, zero, if_true, Host.run_pure, ne_eq, not_true_eq_false, false_and,
      decide_false]
  · have window := good.ring.mem_iff root
    obtain ⟨found, searched, exact_⟩ := @searchRoots_eq p.env.storage.roots root _ low
    have agrees : found = decide (root ≠ 0 ∧ root ∈ (producedRoots H levels
        (p.leaves.map ofU256)).reverse.take 90) := by
      rw [Bool.eq_iff_iff, exact_, window, decide_eq_true_iff]
      exact ⟨fun member => ⟨zero, member⟩, And.right⟩
    simp only [MerkleTreeWithHistory.isKnownRoot, zero, if_false, StateT.run_bind, Host.run_storage, ok_bind,
      good.current, Host.run_okOr_some, searched, Host.run_lift_ok, agrees]

/-- After any calls on an admitted deployment the search for a root ends, and finds it iff it is
not zero and one of the ninety most recent roots; the last root is the newest. -/
theorem is_known_root_window {levels : Nat} (admitted : Admitted levels)
    (calls : List (U256 × U256)) :
    (∀ root, (isKnownRoot root).run (run poseidon2 levels calls).env =
      .ok (decide (root ≠ 0 ∧ root ∈ (producedRoots poseidon2 levels
        ((run poseidon2 levels calls).leaves.map ofU256)).reverse.take 90),
          (run poseidon2 levels calls).env)) ∧
    Host.value? getLastRoot (run poseidon2 levels calls).env =
      (producedRoots poseidon2 levels ((run poseidon2 levels calls).leaves.map ofU256)).getLast? := by
  obtain ⟨positive, bounded⟩ := admitted_iff.mp admitted
  have good := good_run zeroAt_chain positive bounded calls
  constructor
  · exact good.isKnownRoot
  · rw [good.getLastRoot]
    have length : ((run poseidon2 levels calls).leaves.map ofU256).length / 2 * 2 =
        ((run poseidon2 levels calls).leaves.map ofU256).length := by
      have even := good.holds.even
      omega
    unfold producedRoots
    rw [List.range_succ, List.map_append, List.map_singleton, List.getLast?_concat,
      List.take_of_length_le (by omega)]

/-- A pair of leaves and then pairs of zero leaves, which change no root. -/
def lapCalls (n : Nat) : List (U256 × U256) :=
  (toU256 1, toU256 2) :: List.replicate n (toU256 (zeroAt 0), toU256 (zeroAt 0))

theorem leaves_lapCalls {n : Nat} (few : 2 * n + 2 ≤ 2 ^ 8) :
    (run poseidon2 8 (lapCalls n)).leaves.map ofU256 = [1, 2] ++ List.replicate (2 * n) (zeroAt 0) := by
  have next {calls : List (U256 × U256)} (fits : (run poseidon2 8 calls).leaves.length + 2 ≤ 2 ^ 8) (a b : Fr) :
      (run poseidon2 8 (calls ++ [(toU256 a, toU256 b)])).leaves.map ofU256 =
        (run poseidon2 8 calls).leaves.map ofU256 ++ [a, b] := by
    rw [leaves_concat zeroAt_chain (by decide) (by decide) fits, List.map_append, List.map_cons, List.map_singleton,
      ofU256_toU256, ofU256_toU256]
  induction n with
  | zero => exact @next [] (Nat.le_add_left 2 _) 1 2
  | succ n ih =>
    have shorter := ih (by omega)
    have count := congrArg List.length shorter
    rw [List.length_map, List.length_append, List.length_replicate] at count
    have concat : lapCalls (n + 1) = lapCalls n ++ [(toU256 (zeroAt 0), toU256 (zeroAt 0))] := by
      rw [lapCalls, List.replicate_succ']
      rfl
    have two : List.replicate (2 * n) (zeroAt 0) ++ [zeroAt 0, zeroAt 0] = List.replicate (2 * (n + 1)) (zeroAt 0) := by
      rw [Nat.mul_succ, List.replicate_add]
      rfl
    rw [concat, next (by rw [count]; simp; omega), shorter, List.append_assoc, two]

theorem producedRoots_lap (levels n : Nat) (a b : Fr) :
    producedRoots poseidon2 levels ([a, b] ++ List.replicate (2 * n) (zeroAt 0)) =
      toU256 (rootOf poseidon2 levels []) :: List.replicate (n + 1) (toU256 (rootOf poseidon2 levels [a, b])) := by
  have half : ([a, b] ++ List.replicate (2 * n) (zeroAt 0)).length / 2 = n + 1 := by
    rw [List.length_append, List.length_replicate]
    change (2 + 2 * n) / 2 = n + 1
    omega
  rw [producedRoots, half, List.range_succ_eq_map, List.map_cons, List.map_map]
  congr 1
  refine List.eq_replicate_iff.mpr ⟨by rw [List.length_map, List.length_range], fun root member => ?_⟩
  obtain ⟨k, -, rfl⟩ := List.mem_map.mp member
  -- the zero leaves are those of the empty slots
  have same : leafAt (([a, b] ++ List.replicate (2 * n) (zeroAt 0)).take (2 * (k + 1))) = leafAt [a, b] := by
    have taken : ([a, b] ++ List.replicate (2 * n) (zeroAt 0)).take (2 * (k + 1)) =
        a :: b :: List.replicate (min (2 * k) (2 * n)) (zeroAt 0) := by
      rw [Nat.mul_succ, ← List.take_replicate]
      rfl
    rw [taken]
    funext i
    rcases i with _ | _ | i
    · rfl
    · rfl
    · exact (List.getD_eq_getElem?_getD ..).trans
        (List.getElem?_getD_replicate_default_eq (zeroAt 0) (min (2 * k) (2 * n)) i)
  change toU256 (FullTree.node _ (leafAt _) levels 0) = _
  rw [same]

/-- After 91 insertions the ring has been once round: the root of the empty tree is forgotten, the newest is known. -/
theorem is_known_root_window_lap :
    Host.value? (isKnownRoot (toU256 (zeroAt 8))) (run poseidon2 8 (lapCalls 90)).env = some false ∧
      ∃ root, Host.value? getLastRoot (run poseidon2 8 (lapCalls 90)).env = some root ∧
        Host.value? (isKnownRoot root) (run poseidon2 8 (lapCalls 90)).env = some true := by
  have first : Host.value? getLastRoot (run poseidon2 8 (lapCalls 0)).env =
      some (toU256 (rootOf poseidon2 8 [1, 2])) := by
    rw [(good_run zeroAt_chain (by decide) (by decide) _).getLastRoot, leaves_lapCalls (by decide)]
    rfl
  have changed : Host.value? getLastRoot (run poseidon2 8 (lapCalls 0)).env ≠ some 0 ∧
      Host.value? getLastRoot (run poseidon2 8 (lapCalls 0)).env ≠ some (toU256 (zeroAt 8)) := by decide +kernel
  have empty : rootOf poseidon2 8 [] = zeroAt 8 := FullTree.node_padding zeroAt_chain (by decide) fun i _ => rfl
  obtain ⟨known, newest⟩ := is_known_root_window (admitted_iff.mpr (by decide) : Admitted 8) (lapCalls 90)
  rw [leaves_lapCalls (by decide), producedRoots_lap, empty] at known newest
  generalize toU256 (rootOf poseidon2 8 [1, 2]) = newRoot at first known newest
  rw [first, ne_eq, ne_eq, Option.some_inj, Option.some_inj] at changed
  have lap : (toU256 (zeroAt 8) :: List.replicate (90 + 1) newRoot).reverse.take 90 = List.replicate 90 newRoot := by
    rw [List.reverse_cons, List.reverse_replicate,
      List.take_append_of_le_length (by rw [List.length_replicate]; decide),
      List.take_replicate]
    rfl
  rw [lap] at known
  have answer (root : U256) : Host.value? (isKnownRoot root) (run poseidon2 8 (lapCalls 90)).env =
      some (decide (root ≠ 0 ∧ root ∈ List.replicate 90 newRoot)) := Host.value?_eq_some.mpr ⟨_, known root⟩
  refine ⟨?_, newRoot, ?_, ?_⟩
  · rw [answer, decide_eq_false fun found => changed.2 (List.eq_of_mem_replicate found.2).symm]
  · rw [newest, List.getLast?_cons, List.getLast?_replicate]
    rfl
  · rw [answer, decide_eq_true ⟨changed.1, List.mem_replicate.mpr ⟨by decide, rfl⟩⟩]

end PrivatePayments.Pool.MerkleTreeWithHistory
