import PrivatePayments.Circuits.MerkleProof
import PrivatePayments.Merkle.Reference
import PrivatePayments.Soroban.Xdr

/-!
The client's tree over a prefix of the leaves: each level holds the nodes above the leaves
there are, and the node of an empty subtree stands for every other one.
-/

namespace PrivatePayments.Client
open Bn254 Poseidon2 Soroban Library FullTree Merkle Circuits

inductive TreeError where
  | depth
  | leafIndexOutOfRange (index leaves : Nat)
  deriving DecidableEq

structure MerkleProof where
  pathElements : List Fr
  pathIndices : Fr
  root : Fr
  levels : Nat
  deriving DecidableEq

structure MerklePrefixTree where
  depth : Nat
  leaves : List Fr
  empty : List Fr
  deriving DecidableEq

structure MerklePrefixTreeBuilt where
  depth : Nat
  empty : List Fr
  levels : List (List Fr)
  deriving DecidableEq

def zeroLeafBytes : List UInt8 :=
  [37, 48, 34, 136, 219, 153, 53, 3, 68, 151, 65, 131, 206, 49, 13, 99, 181, 58, 187, 158, 240, 248, 87, 87, 83, 238,
    211, 110, 1, 24, 249, 206]

def zeroLeaf : Fr := (fromBeBytes zeroLeafBytes : Fr)

namespace MerklePrefixTree

def emptyNodes (H : Hasher) (depth : Nat) : List Fr :=
  (List.range depth).foldl (fun empty i => empty ++ [H.compress (empty.getD i 0) (empty.getD i 0)]) [zeroLeaf]

def new (H : Hasher) (depth : Nat) (leaves : List Fr) : Except TreeError MerklePrefixTree :=
  if depth = 0 ∨ 32 < depth then .error .depth
  else .ok { depth := depth, leaves := leaves, empty := emptyNodes H depth }

def leafCount (tree : MerklePrefixTree) : Nat := tree.leaves.length

/-- `if nodes.is_empty() { nodes.push(empty[level]); }`. -/
def fill (empty : Fr) (nodes : List Fr) : List Fr := if nodes.isEmpty then nodes ++ [empty] else nodes

def nextLevel (H : Hasher) (empty : Fr) (nodes : List Fr) : List Fr :=
  (List.range ((nodes.length + 1) / 2)).map fun i =>
    H.compress (nodes.getD (2 * i) empty) (nodes.getD (2 * i + 1) empty)

/-- One level of the loop of `build_from_parts`. -/
def buildLevel (H : Hasher) (empty : List Fr) (levels : List (List Fr)) (level : Nat) : List (List Fr) :=
  let nodes := fill (empty.getD level 0) (levels.getD level [])
  levels.set level nodes ++ [nextLevel H (empty.getD level 0) nodes]

def buildFromParts (H : Hasher) (depth : Nat) (leaves empty : List Fr) : MerklePrefixTreeBuilt where
  depth := depth
  empty := empty
  levels := (List.range depth).foldl (buildLevel H empty) [leaves]

def build (H : Hasher) (tree : MerklePrefixTree) : MerklePrefixTreeBuilt :=
  buildFromParts H tree.depth tree.leaves tree.empty

def intoBuilt (H : Hasher) (tree : MerklePrefixTree) : MerklePrefixTreeBuilt :=
  buildFromParts H tree.depth tree.leaves tree.empty

def root (H : Hasher) (tree : MerklePrefixTree) : Fr :=
  let nodes := (List.range tree.depth).foldl (fun nodes level =>
    nextLevel H (tree.empty.getD level 0) (fill (tree.empty.getD level 0) nodes)) tree.leaves
  nodes.headD (tree.empty.getD tree.depth 0)

end MerklePrefixTree

namespace MerklePrefixTreeBuilt

def leafCount (built : MerklePrefixTreeBuilt) : Nat := ((built.levels.head?).map List.length).getD 0

def root (built : MerklePrefixTreeBuilt) : Fr :=
  ((built.levels[built.depth]?).bind List.head?).getD (built.empty.getD built.depth 0)

structure PathState where
  pathElements : List Fr
  pathIndicesBits : Nat
  currentIndex : Nat
  deriving DecidableEq

def proofLevel (built : MerklePrefixTreeBuilt) (state : PathState) (level : Nat) : PathState where
  pathElements := state.pathElements ++
    [(built.levels.getD level []).getD (state.currentIndex ^^^ 1) (built.empty.getD level 0)]
  pathIndicesBits :=
    if state.currentIndex % 2 ≠ 0 then state.pathIndicesBits ||| (1 <<< level) else state.pathIndicesBits
  currentIndex := state.currentIndex / 2

def proof (built : MerklePrefixTreeBuilt) (index : Nat) : Except TreeError MerkleProof :=
  if built.leafCount ≤ index then .error (.leafIndexOutOfRange index built.leafCount)
  else
    let path := (List.range built.depth).foldl (proofLevel built)
      { pathElements := [], pathIndicesBits := 0, currentIndex := index }
    .ok
      { pathElements := path.pathElements, pathIndices := path.pathIndicesBits,
        root := built.root, levels := built.depth }

end MerklePrefixTreeBuilt

section Levels

variable {H : Hasher}

def emptyAt (H : Hasher) : Nat → Fr
  | 0 => zeroAt 0
  | k + 1 => H.compress (emptyAt H k) (emptyAt H k)

theorem zeroLeaf_eq : zeroLeaf = zeroAt 0 := by decide +kernel

theorem emptyNodes_eq (depth : Nat) :
    MerklePrefixTree.emptyNodes H depth = (List.range (depth + 1)).map (emptyAt H) := by
  induction depth with
  | zero => exact congrArg (fun x => [x]) zeroLeaf_eq
  | succ depth ih =>
    unfold MerklePrefixTree.emptyNodes at ih ⊢
    rw [List.range_succ, List.foldl_append, ih, List.foldl_cons, List.foldl_nil, List.range_succ (n := depth + 1),
      List.map_append]
    have last : ((List.range (depth + 1)).map (emptyAt H)).getD depth 0 = emptyAt H depth := by
      rw [List.getD_eq_getElem _ _ (by simp), List.getElem_map, List.getElem_range]
    rw [last]
    rfl

theorem getD_emptyNodes {depth level : Nat} (low : level ≤ depth) :
    (MerklePrefixTree.emptyNodes H depth).getD level 0 = emptyAt H level := by
  rw [emptyNodes_eq, List.getD_eq_getElem _ _ (by simpa using Nat.lt_succ_of_le low), List.getElem_map,
    List.getElem_range]

/-- The nodes of a level of the padded tree, the empty ones left out from some node on. -/
def Level (H : Hasher) (leaves : List Fr) (k : Nat) (nodes : List Fr) : Prop :=
  ∀ i, nodes.getD i (emptyAt H k) = node H.compress (leafAt leaves) k i

variable {leaves nodes : List Fr} {k : Nat}

theorem level_leaves (leaves : List Fr) : Level H leaves 0 leaves := fun _ => rfl

theorem Level.fill (level : Level H leaves k nodes) : Level H leaves k (MerklePrefixTree.fill (emptyAt H k) nodes) := by
  intro i
  rw [← level i, MerklePrefixTree.fill]
  cases nodes with
  | nil =>
    cases i with
    | zero => rfl
    | succ i => rfl
  | cons node nodes => rfl

theorem Level.next (level : Level H leaves k nodes) :
    Level H leaves (k + 1) (MerklePrefixTree.nextLevel H (emptyAt H k) nodes) := by
  intro i
  rw [node_succ, ← level (2 * i), ← level (2 * i + 1), MerklePrefixTree.nextLevel]
  by_cases inside : i < (nodes.length + 1) / 2
  · rw [List.getD_eq_getElem _ _ (by simpa using inside), List.getElem_map, List.getElem_range]
  · rw [List.getD_eq_default _ _ (by simpa using inside), List.getD_eq_default nodes _ (by omega),
      List.getD_eq_default nodes _ (by omega)]
    rfl

theorem Level.head (level : Level H leaves k nodes) :
    nodes.headD (emptyAt H k) = node H.compress (leafAt leaves) k 0 := by
  rw [← level 0]
  cases nodes with
  | nil => rfl
  | cons node nodes => rfl

end Levels

section Built

variable {H : Hasher} {depth : Nat} {leaves : List Fr}

theorem root_eq (leaves : List Fr) : MerklePrefixTree.root H ⟨depth, leaves, MerklePrefixTree.emptyNodes H depth⟩ =
    node H.compress (leafAt leaves) depth 0 := by
  have walk (k : Nat) (low : k ≤ depth) : Level H leaves k ((List.range k).foldl (fun nodes level =>
      MerklePrefixTree.nextLevel H ((MerklePrefixTree.emptyNodes H depth).getD level 0)
        (MerklePrefixTree.fill ((MerklePrefixTree.emptyNodes H depth).getD level 0) nodes)) leaves) := by
    induction k with
    | zero => exact level_leaves leaves
    | succ k ih =>
      rw [List.range_succ, List.foldl_append, List.foldl_cons, List.foldl_nil, getD_emptyNodes (by omega)]
      exact (ih (by omega)).fill.next
  unfold MerklePrefixTree.root
  rw [getD_emptyNodes le_rfl]
  exact (walk depth le_rfl).head

structure Levels (H : Hasher) (leaves : List Fr) (k : Nat) (levels : List (List Fr)) : Prop where
  length : levels.length = k + 1
  level : ∀ j, j ≤ k → Level H leaves j (levels.getD j [])
  first : levels.head? = some (if k = 0 then leaves else MerklePrefixTree.fill (zeroAt 0) leaves)

theorem Levels.buildLevel {k : Nat} {levels : List (List Fr)} (inv : Levels H leaves k levels) (low : k ≤ depth) :
    Levels H leaves (k + 1) (MerklePrefixTree.buildLevel H (MerklePrefixTree.emptyNodes H depth) levels k) := by
  have length := inv.length
  have filled := (inv.level k le_rfl).fill
  unfold MerklePrefixTree.buildLevel
  simp only [getD_emptyNodes low]
  constructor
  · simp [length]
  · intro j bound
    rcases Nat.lt_trichotomy j k with before | rfl | last
    · rw [List.getD_append _ _ _ _ (by simp; omega), List.getD_eq_getElem?_getD, List.getElem?_set_ne (by omega),
        ← List.getD_eq_getElem?_getD]
      exact inv.level j (by omega)
    · rw [List.getD_append _ _ _ _ (by simp; omega), List.getD_eq_getElem?_getD, List.getElem?_set_self (by omega)]
      exact filled
    · obtain rfl : j = k + 1 := by omega
      rw [List.getD_append_right _ _ _ _ (by simp; omega), List.length_set, length, Nat.sub_self]
      exact filled.next
  · have first := inv.first
    cases levels with
    | nil => cases first
    | cons nodes levels =>
      cases k with
      | zero =>
        cases first
        rfl
      | succ k => exact first

theorem levels_built (leaves : List Fr) (k : Nat) (low : k ≤ depth) : Levels H leaves k
    ((List.range k).foldl (MerklePrefixTree.buildLevel H (MerklePrefixTree.emptyNodes H depth)) [leaves]) := by
  induction k with
  | zero =>
    refine ⟨rfl, fun j bound => ?_, rfl⟩
    rw [Nat.le_zero.mp bound]
    exact level_leaves leaves
  | succ k ih =>
    rw [List.range_succ, List.foldl_append, List.foldl_cons, List.foldl_nil]
    exact (ih (by omega)).buildLevel (by omega)

abbrev builtOver (H : Hasher) (depth : Nat) (leaves : List Fr) : MerklePrefixTreeBuilt :=
  MerklePrefixTree.buildFromParts H depth leaves (MerklePrefixTree.emptyNodes H depth)

theorem builtOver_root (leaves : List Fr) :
    (builtOver H depth leaves).root = node H.compress (leafAt leaves) depth 0 := by
  have inv : Levels H leaves depth _ := levels_built leaves depth le_rfl
  have last := (inv.level depth le_rfl).head
  rw [List.getD_eq_getElem?_getD] at last
  change ((((List.range depth).foldl _ [leaves])[depth]?).bind List.head?).getD
    ((MerklePrefixTree.emptyNodes H depth).getD depth 0) = _
  rw [getD_emptyNodes le_rfl, ← last, List.getElem?_eq_getElem (by rw [inv.length]; omega), Option.bind_some,
    Option.getD_some, List.headD_eq_head?_getD]

/-- An empty list of leaves is filled up to one. -/
theorem leafCount_builtOver (leaves : List Fr) (positive : 0 < depth) :
    (builtOver H depth leaves).leafCount = max leaves.length 1 := by
  have first := (levels_built (H := H) leaves depth le_rfl).first
  rw [if_neg (by omega)] at first
  change ((((List.range depth).foldl _ [leaves]).head?).map List.length).getD 0 = _
  rw [first, Option.map_some, Option.getD_some, MerklePrefixTree.fill]
  cases leaves with
  | nil => rfl
  | cons leaf leaves =>
    change leaves.length + 1 = max (leaves.length + 1) 1
    omega

theorem proof_path (leaves : List Fr) (index k : Nat) (low : k ≤ depth) :
    (List.range k).foldl (MerklePrefixTreeBuilt.proofLevel (builtOver H depth leaves))
      { pathElements := [], pathIndicesBits := 0, currentIndex := index } =
    { pathElements := (List.range k).map (siblingOf H.compress (leafAt leaves) index)
      pathIndicesBits := index % 2 ^ k
      currentIndex := index / 2 ^ k } := by
  induction k with
  | zero => simp [Nat.mod_one]
  | succ k ih =>
    have small : index % 2 ^ k < 2 ^ k := Nat.mod_lt _ (Nat.two_pow_pos k)
    have level := (levels_built (H := H) leaves depth le_rfl).level k (by omega)
    rw [List.range_succ, List.foldl_append, ih (by omega), List.foldl_cons, List.foldl_nil]
    unfold MerklePrefixTreeBuilt.proofLevel
    rw [MerklePrefixTreeBuilt.PathState.mk.injEq]
    refine ⟨?_, ?_, ?_⟩
    · rw [List.map_append, List.map_singleton, siblingOf, ← level, ← getD_emptyNodes (show k ≤ depth by omega)]
      rfl
    · simp only
      rw [Nat.mod_pow_succ]
      split
      next odd =>
        rw [Nat.or_comm, ← Nat.shiftLeft_add_eq_or_of_lt small, Nat.shiftLeft_eq, Nat.mod_two_ne_zero.mp odd]
        ring
      next even => rw [not_not.mp even, Nat.mul_zero, Nat.add_zero]
    · simp only
      rw [Nat.div_div_eq_div_mul, pow_succ]

def MerkleProof.inputs (proof : MerkleProof) (leaf : Fr) : Circuits.MerkleProof.Inputs where
  leaf := leaf
  pathElements k := proof.pathElements.getD k 0
  pathIndices := proof.pathIndices

theorem proof_eq (leaves : List Fr) {index : Nat} (fits : index < 2 ^ depth) (bounded : depth ≤ 32)
    (inside : index < (builtOver H depth leaves).leafCount) :
    ∃ proof, (builtOver H depth leaves).proof index = .ok proof ∧ proof.levels = depth ∧
      proof.pathElements = (List.range depth).map (siblingOf H.compress (leafAt leaves) index) ∧
      proof.pathIndices.val = index ∧ proof.root = node H.compress (leafAt leaves) depth 0 := by
  have small : index < bn256Modulus :=
    lt_of_lt_of_le fits (le_trans (Nat.pow_le_pow_right (by decide) bounded) (by decide))
  have path := proof_path (H := H) leaves index depth le_rfl
  refine ⟨_, if_neg (Nat.not_le.mpr inside), rfl, ?_, ?_, builtOver_root leaves⟩
  · exact congrArg MerklePrefixTreeBuilt.PathState.pathElements path
  · have bits : _ = index % 2 ^ depth := congrArg MerklePrefixTreeBuilt.PathState.pathIndicesBits path
    rw [Nat.mod_eq_of_lt fits] at bits
    exact (congrArg (fun n : Nat => ZMod.val (n : Fr)) bits).trans (ZMod.val_natCast_of_lt small)

/-- The circuit, given such a proof of a leaf, computes the root of the tree and nothing else. -/
theorem circuit_root {C : Circomlib} (lib : C.Published) (positive : 0 < depth) (bounded : depth ≤ 32) {index : Nat}
    (fits : index < 2 ^ depth) {proof : MerkleProof}
    (elements : proof.pathElements = (List.range depth).map (siblingOf H.compress (leafAt leaves) index))
    (indices : proof.pathIndices.val = index) :
    (∃ w, Circuits.MerkleProof.Satisfied C H depth (proof.inputs (leafAt leaves index)) w) ∧
      ∀ w, Circuits.MerkleProof.Satisfied C H depth (proof.inputs (leafAt leaves index)) w →
        w.root = node H.compress (leafAt leaves) depth 0 := by
  constructor
  · refine ⟨_, Circuits.MerkleProof.honest_satisfied lib H positive ?_⟩
    change proof.pathIndices.val < 2 ^ depth
    rwa [indices]
  · intro w sat
    have small : 2 ^ depth ≤ bn256Modulus := le_trans (Nat.pow_le_pow_right (by decide) bounded) (by decide)
    have ends := (sat.walks lib small).2.1
    have siblings (k : Nat) (low : k < depth) :
        (proof.inputs (leafAt leaves index)).pathElements k = siblingOf H.compress (leafAt leaves) index k := by
      change proof.pathElements.getD k 0 = _
      rw [elements, List.getD_eq_getElem _ _ (by simpa using low), List.getElem_map, List.getElem_range]
    have same := walk_congr H.compress index.testBit (leafAt leaves index) siblings
    change w.root = walk H.compress (proof.pathIndices.val).testBit _ (leafAt leaves index) depth at ends
    rw [ends, indices, same, walk_siblingOf, Nat.div_eq_of_lt fits]

/-- The prefix tree is the full tree padded with zero leaves: all its roots are the reference root of the padded
leaves, and its proofs are the reference proofs, from which the circuit recomputes that root. -/
theorem prefix_tree_padded {C : Circomlib} (lib : C.Published) (H : Hasher) {depth : Nat} (positive : 0 < depth)
    (bounded : depth ≤ 32) {leaves : List Fr} (room : leaves.length ≤ 2 ^ depth) :
    ∃ tree root, MerklePrefixTree.new H depth leaves = .ok tree ∧
      merkleRoot H (padLeaves depth leaves) = some root ∧ tree.root H = root ∧ (tree.intoBuilt H).root = root ∧
      (MerklePrefixTree.buildFromParts H tree.depth tree.leaves tree.empty).root = root ∧
      leaves.length ≤ (tree.intoBuilt H).leafCount ∧
      ∀ index, index < (tree.intoBuilt H).leafCount → ∃ proof, (tree.intoBuilt H).proof index = .ok proof ∧
        merkleProof H (padLeaves depth leaves) index = some (proof.pathElements, proof.pathIndices.val, proof.levels) ∧
        proof.root = root ∧
        (∃ w, Circuits.MerkleProof.Satisfied C H depth (proof.inputs (leafAt leaves index)) w) ∧
        ∀ w, Circuits.MerkleProof.Satisfied C H depth (proof.inputs (leafAt leaves index)) w → w.root = root := by
  have count := leafCount_builtOver (H := H) leaves positive
  have positive_ := Nat.two_pow_pos depth
  refine ⟨⟨depth, leaves, MerklePrefixTree.emptyNodes H depth⟩, node H.compress (leafAt leaves) depth 0,
    if_neg (by omega), merkleRoot_padLeaves H room, root_eq leaves, builtOver_root leaves,
      builtOver_root leaves, ?_, ?_⟩
  · change leaves.length ≤ (builtOver H depth leaves).leafCount
    omega
  · intro index inside
    change index < (builtOver H depth leaves).leafCount at inside
    have fits : index < 2 ^ depth := by omega
    obtain ⟨proof, run, levels, elements, indices, root⟩ := proof_eq leaves fits bounded inside
    refine ⟨proof, run, ?_, root, circuit_root lib positive bounded fits elements indices⟩
    rw [merkleProof_padLeaves H room fits, elements, indices, levels]

theorem prefix_tree_padded_sample : ∃ tree root, MerklePrefixTree.new poseidon2 2 [7, 9, 11] = .ok tree ∧
    merkleRoot poseidon2 (padLeaves 2 [7, 9, 11]) = some root ∧ (tree.intoBuilt poseidon2).root = root := by
  obtain ⟨tree, root, made, padded, -, built, -⟩ := prefix_tree_padded Circomlib.standard_published poseidon2
    (show 0 < 2 by decide) (by decide) (show [(7 : Fr), 9, 11].length ≤ 2 ^ 2 by decide)
  exact ⟨tree, root, made, padded, built⟩

end Built

end PrivatePayments.Client
