import PrivatePayments.Merkle.Tree

/-!
The reference root of the circuits crate: the layers of a full list of leaves are hashed
pair by pair until one node is left.
-/

namespace PrivatePayments.Merkle
open Bn254 Poseidon2 Library FullTree

/-- One round of the `while` loop of `merkle_root`. -/
def hashPairs (H : Hasher) : List Fr → List Fr
  | left :: right :: rest => H.compress left right :: hashPairs H rest
  | _ => []

theorem length_hashPairs (H : Hasher) (nodes : List Fr) : (hashPairs H nodes).length = nodes.length / 2 := by
  induction nodes using hashPairs.induct with
  | case1 left right rest ih =>
    simp only [hashPairs, List.length_cons, ih]
    omega
  | case2 nodes short =>
    match nodes, short with
    | [], _ => rfl
    | [_], _ => simp [hashPairs]
    | left :: right :: rest, short => exact absurd rfl (short left right rest)

def reduceLayers (H : Hasher) (nodes : List Fr) : Fr :=
  if nodes.length ≤ 1 then nodes.headD 0 else reduceLayers H (hashPairs H nodes)
termination_by nodes.length
decreasing_by
  rw [length_hashPairs]
  omega

/-- `merkle_root`; it panics unless the number of leaves is a power of two. -/
def merkleRoot (H : Hasher) (leaves : List Fr) : Option Fr :=
  if leaves = [] ∨ leaves.length ≠ 2 ^ Nat.log2 leaves.length then none
  else some (reduceLayers H leaves)

theorem getD_hashPairs (H : Hasher) (nodes : List Fr) (d : Fr) {i : Nat} (low : i < nodes.length / 2) :
    (hashPairs H nodes).getD i 0 = H.compress (nodes.getD (2 * i) d) (nodes.getD (2 * i + 1) d) := by
  induction nodes using hashPairs.induct generalizing i with
  | case1 left right rest ih =>
    cases i with
    | zero => rfl
    | succ i =>
      simp only [List.length_cons] at low
      rw [hashPairs, List.getD_cons_succ, ih (by omega)]
      rfl
  | case2 nodes short =>
    match nodes, short with
    | [], _ => simp at low
    | [_], _ => simp at low
    | left :: right :: rest, short => exact absurd rfl (short left right rest)

theorem node_hashPairs (H : Hasher) {nodes : List Fr} (d : Fr) {i b : Nat}
    (inside : (b + 1) * 2 ^ i ≤ nodes.length / 2) :
    node H.compress (fun i => (hashPairs H nodes).getD i 0) i b =
      node H.compress (fun i => nodes.getD i d) (i + 1) b := by
  calc node H.compress (fun i => (hashPairs H nodes).getD i 0) i b
      = node H.compress (node H.compress (fun i => nodes.getD i d) 1) i b :=
        node_congr _ fun i _ high => getD_hashPairs H nodes d (high.trans_le inside)
    _ = node H.compress (fun i => nodes.getD i d) (i + 1) b := by
        rw [node_node, Nat.add_comm]

theorem reduceLayers_eq_node (H : Hasher) {k : Nat} {nodes : List Fr} (full : nodes.length = 2 ^ k)
    (d : Fr) : reduceLayers H nodes = node H.compress (fun i => nodes.getD i d) k 0 := by
  induction k generalizing nodes d with
  | zero =>
    rw [reduceLayers, if_pos (by simp [full])]
    match nodes, full with
    | [leaf], _ => rfl
  | succ k ih =>
    have many : ¬nodes.length ≤ 1 := by
      rw [full, pow_succ]
      have positive := Nat.two_pow_pos k
      omega
    have half : nodes.length / 2 = 2 ^ k := by
      rw [full, pow_succ]
      omega
    rw [reduceLayers, if_neg many, ih (by rw [length_hashPairs, half]) 0]
    exact node_hashPairs H d (by rw [half]; omega)

/-- The leaves of a full tree: those inserted, then zero leaves. -/
def padLeaves (levels : Nat) (leaves : List Fr) : List Fr :=
  leaves ++ List.replicate (2 ^ levels - leaves.length) (zeroAt 0)

theorem length_padLeaves {levels : Nat} {leaves : List Fr} (room : leaves.length ≤ 2 ^ levels) :
    (padLeaves levels leaves).length = 2 ^ levels := by
  rw [padLeaves, List.length_append, List.length_replicate]
  omega

theorem padLeaves_admitted {levels : Nat} {leaves : List Fr} (room : leaves.length ≤ 2 ^ levels) :
    ¬(padLeaves levels leaves = [] ∨
      (padLeaves levels leaves).length ≠ 2 ^ Nat.log2 (padLeaves levels leaves).length) := by
  have full := length_padLeaves room
  have positive := Nat.two_pow_pos levels
  rw [full, Nat.log2_two_pow]
  rintro (none | apart)
  · rw [none] at full
    simp only [List.length_nil] at full
    omega
  · exact apart rfl

theorem getD_padLeaves (levels : Nat) (leaves : List Fr) (i : Nat) :
    (padLeaves levels leaves).getD i (zeroAt 0) = leafAt leaves i := by
  unfold padLeaves leafAt
  by_cases inside : i < leaves.length
  · rw [List.getD_append _ _ _ _ inside]
  · rw [List.getD_append_right _ _ _ _ (by omega), List.getD_eq_default leaves _ (by omega)]
    by_cases short : i - leaves.length < 2 ^ levels - leaves.length
    · rw [List.getD_replicate _ short]
    · rw [List.getD_eq_default _ _ (by simpa using short)]

theorem merkleRoot_padLeaves (H : Hasher) {levels : Nat} {leaves : List Fr}
    (room : leaves.length ≤ 2 ^ levels) :
    merkleRoot H (padLeaves levels leaves) = some (node H.compress (leafAt leaves) levels 0) := by
  have full := length_padLeaves room
  have admitted := padLeaves_admitted room
  rw [merkleRoot, if_neg admitted, reduceLayers_eq_node H full (zeroAt 0)]
  rw [funext (getD_padLeaves levels leaves)]

/-- The index of the sibling in `merkle_proof`. -/
def sibIndex (index : Nat) : Nat := if index % 2 = 0 then index + 1 else index - 1

/-- The loop of `merkle_proof`: the siblings and the bits of the index, from the leaves up. -/
def proofLayers (H : Hasher) : Nat → List Fr → Nat → Option (List Fr × List Nat)
  | 0, _, _ => some ([], [])
  | levels + 1, nodes, index => do
      let sib ← nodes[sibIndex index]?
      let (elems, bits) ← proofLayers H levels (hashPairs H nodes) (index / 2)
      return (sib :: elems, index % 2 :: bits)

/-- `merkle_proof`; it panics unless the number of leaves is a power of two and the index is one of theirs. -/
def merkleProof (H : Hasher) (leaves : List Fr) (index : Nat) : Option (List Fr × Nat × Nat) := do
  if leaves = [] ∨ leaves.length ≠ 2 ^ Nat.log2 leaves.length then none
  else
    let (elems, bits) ← proofLayers H (Nat.log2 leaves.length) leaves index
    return (elems, bits.zipIdx.foldl (fun indices bit => indices ||| (bit.1 <<< bit.2)) 0, Nat.log2 leaves.length)

theorem foldl_or_bits (index : Nat) (k : Nat) :
    ((List.range k).map fun i => index / 2 ^ i % 2).zipIdx.foldl
      (fun indices bit => indices ||| (bit.1 <<< bit.2)) 0 = index % 2 ^ k := by
  induction k with
  | zero => simp [Nat.mod_one]
  | succ k ih =>
    have small : index % 2 ^ k < 2 ^ k := Nat.mod_lt _ (Nat.two_pow_pos k)
    rw [List.range_succ, List.map_append, List.zipIdx_append, List.foldl_append, ih]
    simp only [List.map_cons, List.map_nil, List.zipIdx_singleton, List.foldl_cons, List.foldl_nil, List.length_map,
      List.length_range, Nat.zero_add]
    rw [Nat.or_comm, ← Nat.shiftLeft_add_eq_or_of_lt small, Nat.shiftLeft_eq, Nat.mod_pow_succ]
    ring

theorem proofLayers_eq (H : Hasher) {k : Nat} {nodes : List Fr} (full : nodes.length = 2 ^ k) (d : Fr) {index : Nat}
    (inside : index < 2 ^ k) : proofLayers H k nodes index =
      some ((List.range k).map (siblingOf H.compress (fun i => nodes.getD i d) index),
        (List.range k).map fun i => index / 2 ^ i % 2) := by
  induction k generalizing nodes index d with
  | zero => rfl
  | succ k ih =>
    have half : nodes.length / 2 = 2 ^ k := by
      rw [full, pow_succ]
      omega
    have sibling : sibIndex index < nodes.length := by
      rw [full, sibIndex]
      rw [pow_succ] at inside ⊢
      split <;> omega
    have first : nodes[sibIndex index]? = some (siblingOf H.compress (fun i => nodes.getD i d) index 0) := by
      rw [List.getElem?_eq_getElem sibling, siblingOf_eq, Nat.pow_zero, Nat.div_one]
      simp only [sibIndex] at sibling ⊢
      split
      next even =>
        simp only [if_pos even] at sibling
        rw [node, List.getD_eq_getElem _ _ sibling]
      next odd =>
        simp only [if_neg odd] at sibling
        rw [node, List.getD_eq_getElem _ _ sibling]
    have above (i : Nat) (low : i < k) : siblingOf H.compress (fun i => (hashPairs H nodes).getD i 0) (index / 2) i =
        siblingOf H.compress (fun i => nodes.getD i d) index (i + 1) := by
      have next : index / 2 / 2 ^ i = index / 2 ^ (i + 1) := by rw [Nat.div_div_eq_div_mul, pow_succ']
      have pow : 2 ^ (k + 1) = 2 ^ (k - i) * 2 ^ (i + 1) := by
        rw [← pow_add]
        congr 1
        omega
      have even : 2 ∣ 2 ^ (k - i) := dvd_pow_self 2 (by omega)
      have below : index / 2 ^ (i + 1) < 2 ^ (k - i) := Nat.div_lt_of_lt_mul (by rwa [Nat.mul_comm, ← pow])
      have room (b : Nat) (inner : b < 2 ^ (k - i)) : (b + 1) * 2 ^ i ≤ nodes.length / 2 := by
        rw [half]
        calc (b + 1) * 2 ^ i ≤ 2 ^ (k - i) * 2 ^ i := Nat.mul_le_mul_right _ inner
          _ = 2 ^ k := by rw [← pow_add, Nat.sub_add_cancel low.le]
      rw [siblingOf_eq, siblingOf_eq, next]
      generalize index / 2 ^ (i + 1) = q at below
      split
      · exact node_hashPairs H d (room (q + 1) (by omega))
      · exact node_hashPairs H d (room (q - 1) (by omega))
    rw [proofLayers, first, ih (by rw [length_hashPairs, half]) 0 (by rw [pow_succ] at inside; omega)]
    change some (_ :: _, _ :: _) = _
    rw [List.range_succ_eq_map, List.map_cons, List.map_cons, List.map_map, List.map_map]
    congr 2
    · exact congrArg _ (List.map_congr_left fun i member => above i (List.mem_range.mp member))
    · rw [Nat.pow_zero, Nat.div_one]
      refine congrArg _ (List.map_congr_left fun i _ => ?_)
      change index / 2 / 2 ^ i % 2 = index / 2 ^ (i + 1) % 2
      rw [Nat.div_div_eq_div_mul, pow_succ']

/-- The reference proof over the padded leaves: the siblings of the position and the position. -/
theorem merkleProof_padLeaves (H : Hasher) {levels : Nat} {leaves : List Fr} (room : leaves.length ≤ 2 ^ levels)
    {index : Nat} (inside : index < 2 ^ levels) : merkleProof H (padLeaves levels leaves) index =
      some ((List.range levels).map (siblingOf H.compress (leafAt leaves) index), index, levels) := by
  have full := length_padLeaves room
  have admitted := padLeaves_admitted room
  rw [merkleProof, if_neg admitted, full, Nat.log2_two_pow, proofLayers_eq H full (zeroAt 0) inside,
    funext (getD_padLeaves levels leaves)]
  change some (_, _, _) = _
  rw [foldl_or_bits, Nat.mod_eq_of_lt inside]

end PrivatePayments.Merkle
