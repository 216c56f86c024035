import PrivatePayments.AspNonMembership.Contract
import PrivatePayments.Library.ContentStore
import PrivatePayments.Library.TreeUpdate

/-!
The tree the contract keeps, as a sparse tree over field elements. Nodes are filed
under their hashes, and while no two queries in play collide a hash names one tree.
-/

namespace PrivatePayments.AspNonMembership
open Bn254 Poseidon2 Soroban Library SparseTree TreePath

abbrev KeyTree := SparseTree Fr Fr

def keyBit (k : Fr) (d : Nat) : Bool := k.val.testBit d

namespace KeyTree

variable (H : Hasher)

def hash : KeyTree → Fr
  | .empty => 0
  | .leaf key value => H.hash2 key value 1
  | .node left right => H.compress (hash left) (hash right)

def queries : KeyTree → List Query
  | .empty => []
  | .leaf key value => [.hash2 key value 1]
  | .node left right => .compress (hash H left) (hash H right) :: (queries left ++ queries right)

def nodeKey (t : KeyTree) : U256 := toU256 (hash H t)

def content : KeyTree → List U256
  | .empty => []
  | .leaf key value => [1, toU256 key, toU256 value]
  | .node left right => [nodeKey H left, nodeKey H right]

def branchQuery (b : Bool) (sibling t : KeyTree) : Query :=
  if b then .compress (hash H sibling) (hash H t) else .compress (hash H t) (hash H sibling)

@[simp] theorem nodeKey_empty : nodeKey H .empty = 0 := toU256_zero

theorem content_branch (b : Bool) (sibling t : KeyTree) :
    content H (branch b sibling t) =
      if b then [nodeKey H sibling, nodeKey H t] else [nodeKey H t, nodeKey H sibling] := by
  cases b <;> rfl

theorem mem_queries_branch (q : Query) (b : Bool) (sibling t : KeyTree) :
    q ∈ queries H (branch b sibling t) ↔
      q = branchQuery H b sibling t ∨ q ∈ queries H sibling ∨ q ∈ queries H t := by
  cases b <;> simp [branch, branchQuery, queries, or_comm]

theorem queries_of_mem_subtrees {x t : KeyTree} (member : x ∈ t.subtrees) :
    ∀ q ∈ queries H x, q ∈ queries H t := by
  induction t with
  | empty => simp [subtrees] at member
  | leaf key value =>
    rw [subtrees, List.mem_singleton] at member
    rw [member]
    exact fun q inX => inX
  | node left right ihLeft ihRight =>
    simp only [subtrees, List.mem_cons, List.mem_append] at member
    intro q inX
    rcases member with rfl | inLeft | inRight
    · exact inX
    · exact List.mem_cons_of_mem _ (List.mem_append_left _ (ihLeft inLeft q inX))
    · exact List.mem_cons_of_mem _ (List.mem_append_right _ (ihRight inRight q inX))

variable {H} {inPlay : Set Query}

theorem queries_of_sibling {dir : Nat → Bool} {d : Nat} {siblings : List KeyTree} {s stop : KeyTree}
    (member : s ∈ siblings) : ∀ q ∈ queries H s, q ∈ queries H (plug dir d siblings stop) := by
  by_cases nonempty : s = .empty
  · rw [nonempty]
    simp [queries]
  · exact queries_of_mem_subtrees H
      ((mem_subtrees_plug ..).mpr (Or.inr (Or.inl ⟨s, member, mem_subtrees_self nonempty⟩)))

theorem queries_of_stop {dir : Nat → Bool} {d : Nat} {siblings : List KeyTree} {stop : KeyTree} :
    ∀ q ∈ queries H stop, q ∈ queries H (plug dir d siblings stop) := by
  by_cases nonempty : stop = .empty
  · rw [nonempty]
    simp [queries]
  · exact queries_of_mem_subtrees H
      ((mem_subtrees_plug ..).mpr (Or.inr (Or.inr (mem_subtrees_self nonempty))))

theorem queries_of_drop {dir : Nat → Bool} {siblings : List KeyTree} {stop : KeyTree} (i : Nat) :
    ∀ q ∈ queries H (plug dir i (siblings.drop i) stop), q ∈ queries H (plug dir 0 siblings stop) := by
  intro q member
  by_cases short : i ≤ siblings.length
  · have cut := plug_append dir 0 (siblings.take i) (siblings.drop i) stop
    rw [List.take_append_drop, List.length_take, Nat.min_eq_left short, Nat.zero_add] at cut
    rw [cut]
    exact queries_of_stop q member
  · rw [List.drop_eq_nil_of_le (by omega)] at member
    exact queries_of_stop q member

theorem hash_ne_zero (free : CollisionFree H inPlay) {t : KeyTree} (nonempty : t ≠ .empty)
    (within : ∀ q ∈ queries H t, q ∈ inPlay) : hash H t ≠ 0 := by
  cases t with
  | empty => exact absurd rfl nonempty
  | leaf key value => exact free.ne_zero (.hash2 key value 1) (within _ (List.mem_cons_self ..))
  | node left right =>
    exact free.ne_zero (.compress (hash H left) (hash H right)) (within _ (List.mem_cons_self ..))

theorem nodeKey_ne_zero (free : CollisionFree H inPlay) {t : KeyTree} (nonempty : t ≠ .empty)
    (within : ∀ q ∈ queries H t, q ∈ inPlay) : nodeKey H t ≠ 0 :=
  fun zero => hash_ne_zero free nonempty within (toU256_eq_zero.mp zero)

/-- A hash names one tree. -/
theorem hash_injective (free : CollisionFree H inPlay) {t u : KeyTree}
    (left : ∀ q ∈ queries H t, q ∈ inPlay) (right : ∀ q ∈ queries H u, q ∈ inPlay)
    (same : hash H t = hash H u) : t = u := by
  induction t generalizing u with
  | empty =>
    by_contra different
    exact hash_ne_zero free (Ne.symm different) right same.symm
  | leaf key value =>
    have mine := left (.hash2 key value 1) (List.mem_cons_self ..)
    cases u with
    | empty => exact absurd same (free.ne_zero _ mine)
    | leaf key' value' =>
      have equal := free.eq_of_answer mine (right (.hash2 key' value' 1) (List.mem_cons_self ..)) same
      cases equal
      rfl
    | node l r =>
      have equal := free.eq_of_answer mine
        (right (.compress (hash H l) (hash H r)) (List.mem_cons_self ..)) same
      cases equal
  | node l r ihLeft ihRight =>
    have mine := left (.compress (hash H l) (hash H r)) (List.mem_cons_self ..)
    cases u with
    | empty => exact absurd same (free.ne_zero _ mine)
    | leaf key' value' =>
      have equal := free.eq_of_answer mine (right (.hash2 key' value' 1) (List.mem_cons_self ..)) same
      cases equal
    | node l' r' =>
      have equal := free.eq_of_answer mine
        (right (.compress (hash H l') (hash H r')) (List.mem_cons_self ..)) same
      rw [Query.compress.injEq] at equal
      have below {x y : KeyTree} {q : Query} (inX : q ∈ queries H x ∨ q ∈ queries H y) :
          q ∈ queries H (.node x y) :=
        List.mem_cons_of_mem _ (List.mem_append.mpr inX)
      rw [ihLeft (fun q inL => left q (below (Or.inl inL)))
          (fun q inL => right q (below (Or.inl inL))) equal.1,
        ihRight (fun q inR => left q (below (Or.inr inR)))
          (fun q inR => right q (below (Or.inr inR))) equal.2]

def InPlay (H : Hasher) (inPlay : Set Query) : Set KeyTree :=
  {t | ∀ q ∈ queries H t, q ∈ inPlay}

theorem nodeKey_injOn (free : CollisionFree H inPlay) :
    Set.InjOn (nodeKey H) (InPlay H inPlay) :=
  fun _ left _ right same => hash_injective free left right (toU256_injective same)

end KeyTree

/-- Field elements below `2 ^ 254` are told apart by their first 254 bits. -/
theorem eq_of_keyBits {k k' : Fr} (same : ∀ i, i < 254 → keyBit k i = keyBit k' i) : k = k' := by
  apply ZMod.val_injective
  apply Nat.eq_of_testBit_eq
  intro i
  by_cases low : i < 254
  · exact same i low
  · have bound := bn256Modulus_lt
    have high (x : Fr) : x.val.testBit i = false :=
      Nat.testBit_lt_two_pow (lt_of_lt_of_le (lt_trans (ZMod.val_lt x) bound)
        (Nat.pow_le_pow_right (by decide) (by omega)))
    rw [high k, high k']

theorem splitBitsLoop_eq (n k : Nat) : splitBitsLoop n k = (List.range n).map k.testBit := by
  induction n generalizing k with
  | zero => rfl
  | succ n ih =>
    rw [splitBitsLoop, ih, List.range_succ_eq_map, List.map_cons, List.map_map]
    congr 1
    · simp [Nat.testBit_zero, beq_eq_decide]
    · apply List.map_congr_left
      intro i _
      simp [Nat.testBit_succ]

@[simp] theorem length_splitBits (key : U256) : (splitBits key).length = 256 := by
  simp [splitBits, splitBitsLoop_eq]

theorem getElem?_splitBits (key : U256) {i : Nat} (low : i < 256) :
    (splitBits key)[i]? = some (key.toNat.testBit i) := by
  simp [splitBits, splitBitsLoop_eq, low]

theorem drop_splitBits (key : U256) {d : Nat} (low : d < 256) :
    (splitBits key).drop d = key.toNat.testBit d :: (splitBits key).drop (d + 1) := by
  rw [List.drop_eq_getElem_cons (by simpa using low)]
  congr 1
  simp [splitBits, splitBitsLoop_eq]

end PrivatePayments.AspNonMembership
