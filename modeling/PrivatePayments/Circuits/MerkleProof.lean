import PrivatePayments.Library.FullTree
import PrivatePayments.Circuits.Circomlib
import PrivatePayments.Poseidon2.Hasher

/-!
`MerkleProof` as a system of constraints: its root is where a walk from the leaf, along the
bits of the path indices, ends.
-/

namespace PrivatePayments.Circuits
open Bn254 Poseidon2 Library FullTree

namespace MerkleProof

structure Inputs where
  leaf : Fr
  pathElements : Nat → Fr
  pathIndices : Fr

structure Signals where
  indexBits : Nat → Fr
  outL : Nat → Fr
  outR : Nat → Fr
  hash : Nat → Fr
  root : Fr

structure Satisfied (C : Circomlib) (H : Hasher) (levels : Nat) (x : Inputs) (w : Signals) : Prop where
  compiles : 0 < levels
  indexBits : C.num2Bits levels x.pathIndices w.indexBits
  switcher : ∀ i, i < levels →
    C.switcher (w.indexBits i) (if i = 0 then x.leaf else w.hash (i - 1)) (x.pathElements i) (w.outL i) (w.outR i)
  hasher : ∀ i, i < levels → w.hash i = H.compress (w.outL i) (w.outR i)
  root : w.root = w.hash (levels - 1)

def queries (levels : Nat) (w : Signals) : List Query :=
  (List.range levels).map fun i => .compress (w.outL i) (w.outR i)

def walkTo (H : Hasher) (x : Inputs) (position : Nat) : Nat → Fr :=
  walk H.compress position.testBit x.pathElements x.leaf

variable {C : Circomlib} {H : Hasher} {levels : Nat} {x : Inputs} {w : Signals}

/-- `Switcher` puts the sibling on the side the bit says. -/
theorem switched (lib : C.Published) {bit : Bool} {node sibling outL outR : Fr} :
    C.switcher (if bit then 1 else 0) node sibling outL outR ↔
      (outL, outR) = if bit then (sibling, node) else (node, sibling) := by
  rw [lib.switcher]
  cases bit <;> simp

namespace Satisfied

theorem bit_eq (lib : C.Published) (sat : Satisfied C H levels x w) {i : Nat} (low : i < levels) :
    w.indexBits i = if (bitsValue levels w.indexBits).testBit i then 1 else 0 :=
  testBit_bitsValue ((lib.num2Bits _ _ _).mp sat.indexBits).1 low

theorem hash_eq (sat : Satisfied C H levels x w) {position i : Nat} (low : i < levels)
    (pair : (w.outL i, w.outR i) = walkPair H.compress position.testBit x.pathElements x.leaf i) :
    w.hash i = walkTo H x position (i + 1) := by
  rw [sat.hasher i low, walkTo, walk_succ, ← pair]
  rfl

theorem pair_eq (lib : C.Published) (sat : Satisfied C H levels x w) (i : Nat) (low : i < levels) :
    (w.outL i, w.outR i) =
      walkPair H.compress (bitsValue levels w.indexBits).testBit x.pathElements x.leaf i := by
  have turn := sat.switcher i low
  rw [sat.bit_eq lib low, switched lib] at turn
  induction i with
  | zero => exact turn
  | succ i ih =>
    have before : i < levels := by omega
    have below := sat.switcher i before
    rw [sat.bit_eq lib before, switched lib] at below
    have child := sat.hash_eq before (ih before below)
    rw [if_neg (Nat.succ_ne_zero i), Nat.add_sub_cancel, child] at turn
    exact turn

/-- The root is where the walk along the path indices ends, and the pairs on the way are hashed. -/
theorem walks (lib : C.Published) (sat : Satisfied C H levels x w) (small : 2 ^ levels ≤ bn256Modulus) :
    x.pathIndices.val < 2 ^ levels ∧ w.root = walkTo H x x.pathIndices.val levels ∧
      ∀ i, i < levels →
        .compress (walkPair H.compress x.pathIndices.val.testBit x.pathElements x.leaf i).1
          (walkPair H.compress x.pathIndices.val.testBit x.pathElements x.leaf i).2 ∈ queries levels w := by
  have bits := (lib.num2Bits _ _ _).mp sat.indexBits
  have bound := bitsValue_lt bits.1
  have value := bits.value_eq (bound.trans_le small)
  have positive := sat.compiles
  refine ⟨value ▸ bound, ?_, fun i low => ?_⟩
  · have last : levels - 1 < levels := by omega
    rw [sat.root, sat.hash_eq last (sat.pair_eq lib _ last), Nat.sub_add_cancel positive, value]
  · rw [← value, ← sat.pair_eq lib i low]
    exact List.mem_map.mpr ⟨i, List.mem_range.mpr low, rfl⟩

end Satisfied

def treeQueries (H : Hasher) (levels : Nat) (leaf : Nat → Fr) : Set Query :=
  {q | ∃ k < levels, ∃ b, q = .compress (node H.compress leaf k (2 * b)) (node H.compress leaf k (2 * b + 1))}

/-- Where the root is that of a tree and no queries of the two collide, the leaf is the one of the
tree at the path indices. -/
theorem Satisfied.leaf_eq (lib : C.Published) (sat : Satisfied C H levels x w) (small : 2 ^ levels ≤ bn256Modulus)
    {leaf : Nat → Fr} {inPlay : Set Query} (inj : Set.InjOn H.answer inPlay)
    (treeInPlay : treeQueries H levels leaf ⊆ inPlay) (logged : ∀ q ∈ queries levels w, q ∈ inPlay)
    (root : w.root = node H.compress leaf levels 0) :
    x.pathIndices.val < 2 ^ levels ∧ x.leaf = leaf x.pathIndices.val := by
  obtain ⟨bound, ends, pairs⟩ := sat.walks lib small
  refine ⟨bound, ?_⟩
  have injPairs : Set.InjOn (Function.uncurry H.compress) {p | .compress p.1 p.2 ∈ inPlay} := by
    intro p member p' member' same
    have equal := inj member member' same
    rw [Query.compress.injEq] at equal
    exact Prod.ext equal.1 equal.2
  refine start_eq_leaf injPairs (fun k low b => treeInPlay ⟨k, low, b, rfl⟩) le_rfl
    (fun j below => logged _ (pairs j below)) ?_
  rw [Nat.div_eq_of_lt bound, ← root, ends]
  rfl

def honest (H : Hasher) (levels : Nat) (x : Inputs) : Signals where
  indexBits i := if x.pathIndices.val.testBit i then 1 else 0
  outL i := (walkPair H.compress x.pathIndices.val.testBit x.pathElements x.leaf i).1
  outR i := (walkPair H.compress x.pathIndices.val.testBit x.pathElements x.leaf i).2
  hash i := walkTo H x x.pathIndices.val (i + 1)
  root := walkTo H x x.pathIndices.val levels

theorem honest_satisfied (lib : C.Published) (H : Hasher) (positive : 0 < levels)
    (fits : x.pathIndices.val < 2 ^ levels) : Satisfied C H levels x (honest H levels x) where
  compiles := positive
  indexBits := (lib.num2Bits _ _ _).mpr (bits_of_digits fits).1
  switcher i _ := by
    refine (switched lib).mpr ?_
    cases i with
    | zero => rfl
    | succ i => rfl
  hasher i _ := walk_succ ..
  root := by
    change walkTo H x x.pathIndices.val levels = walkTo H x x.pathIndices.val (levels - 1 + 1)
    rw [Nat.sub_add_cancel positive]

end MerkleProof

end PrivatePayments.Circuits
