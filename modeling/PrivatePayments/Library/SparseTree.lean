import Mathlib.Data.List.Basic
import Mathlib.Tactic.Cases
import Mathlib.Tactic.Common

/-!
Sparse binary trees over keys that are read bit by bit. In canonical form every
key sits under its own bits and every branch has two leaves below it, so a
canonical tree is determined by the finite map it denotes.
-/

namespace PrivatePayments.Library

inductive SparseTree (K V : Type) where
  | empty
  | leaf (key : K) (value : V)
  | node (left right : SparseTree K V)
  deriving DecidableEq, Repr

variable {K V : Type}

namespace SparseTree

/-- A leaf for the key and the value occurs somewhere in the tree. -/
def Has (k : K) (v : V) : SparseTree K V → Prop
  | .empty => False
  | .leaf key value => key = k ∧ value = v
  | .node left right => left.Has k v ∨ right.Has k v

def HasKey (k : K) (t : SparseTree K V) : Prop := ∃ v, t.Has k v

def size : SparseTree K V → Nat
  | .empty => 0
  | .leaf _ _ => 1
  | .node left right => left.size + right.size

def weight : SparseTree K V → Nat
  | .empty => 0
  | .leaf _ _ => 1
  | .node left right => left.weight + right.weight + 1

def subtrees : SparseTree K V → List (SparseTree K V)
  | .empty => []
  | .leaf key value => [.leaf key value]
  | .node left right => .node left right :: (left.subtrees ++ right.subtrees)

/-- The node whose child in direction `b` is `t` and whose other child is `sibling`. -/
def branch (b : Bool) (sibling t : SparseTree K V) : SparseTree K V :=
  if b then .node sibling t else .node t sibling

@[simp] theorem hasKey_empty (k : K) : ¬(empty : SparseTree K V).HasKey k := by
  simp [HasKey, Has]

@[simp] theorem hasKey_leaf (k key : K) (value : V) : (leaf key value).HasKey k ↔ key = k := by
  simp [HasKey, Has]

@[simp] theorem hasKey_node (k : K) (left right : SparseTree K V) :
    (node left right).HasKey k ↔ left.HasKey k ∨ right.HasKey k := by
  simp [HasKey, Has, exists_or]

@[simp] theorem hasKey_branch (k : K) (b : Bool) (sibling t : SparseTree K V) :
    (branch b sibling t).HasKey k ↔ sibling.HasKey k ∨ t.HasKey k := by
  cases b <;> simp [branch, or_comm]

@[simp] theorem size_branch (b : Bool) (sibling t : SparseTree K V) :
    (branch b sibling t).size = sibling.size + t.size := by
  cases b <;> simp [branch, size, Nat.add_comm]

@[simp] theorem weight_branch (b : Bool) (sibling t : SparseTree K V) :
    (branch b sibling t).weight = sibling.weight + t.weight + 1 := by
  cases b <;> simp [branch, weight, Nat.add_comm]

theorem mem_subtrees_branch (x : SparseTree K V) (b : Bool) (sibling t : SparseTree K V) :
    x ∈ (branch b sibling t).subtrees ↔
      x = branch b sibling t ∨ x ∈ sibling.subtrees ∨ x ∈ t.subtrees := by
  cases b <;> simp [branch, subtrees, or_comm]

theorem weight_le_of_mem_subtrees {x t : SparseTree K V} (member : x ∈ t.subtrees) :
    x.weight ≤ t.weight := by
  induction t with
  | empty => simp [subtrees] at member
  | leaf key value =>
    rw [subtrees, List.mem_singleton] at member
    exact Nat.le_of_eq (congrArg weight member)
  | node left right ihLeft ihRight =>
    simp only [subtrees, List.mem_cons, List.mem_append] at member
    rcases member with rfl | inLeft | inRight
    · exact Nat.le_refl _
    · have bound := ihLeft inLeft
      simp only [weight]
      omega
    · have bound := ihRight inRight
      simp only [weight]
      omega

theorem mem_subtrees_trans {x y t : SparseTree K V} (inner : x ∈ y.subtrees) (outer : y ∈ t.subtrees) :
    x ∈ t.subtrees := by
  induction t with
  | empty => simp [subtrees] at outer
  | leaf key value =>
    rw [subtrees, List.mem_singleton] at outer
    exact outer ▸ inner
  | node left right ihLeft ihRight =>
    simp only [subtrees, List.mem_cons, List.mem_append] at outer ⊢
    rcases outer with rfl | inLeft | inRight
    · simpa [subtrees] using inner
    · exact Or.inr (Or.inl (ihLeft inLeft))
    · exact Or.inr (Or.inr (ihRight inRight))

theorem hasKey_of_mem_subtrees {x t : SparseTree K V} {k : K} (member : x ∈ t.subtrees)
    (has : x.HasKey k) : t.HasKey k := by
  induction t with
  | empty => simp [subtrees] at member
  | leaf key value =>
    rw [subtrees, List.mem_singleton] at member
    exact member ▸ has
  | node left right ihLeft ihRight =>
    simp only [subtrees, List.mem_cons, List.mem_append] at member
    rcases member with rfl | inLeft | inRight
    · exact has
    · exact (hasKey_node ..).mpr (Or.inl (ihLeft inLeft))
    · exact (hasKey_node ..).mpr (Or.inr (ihRight inRight))

theorem leaf_mem_subtrees {k : K} {v : V} {t : SparseTree K V} :
    leaf k v ∈ t.subtrees ↔ t.Has k v := by
  induction t with
  | empty => simp [subtrees, Has]
  | leaf key value => simp [subtrees, Has, eq_comm]
  | node left right ihLeft ihRight => simp [subtrees, Has, ihLeft, ihRight]

theorem mem_subtrees_self {t : SparseTree K V} (nonempty : t ≠ empty) : t ∈ t.subtrees := by
  cases t with
  | empty => exact absurd rfl nonempty
  | leaf key value => simp [subtrees]
  | node left right => simp [subtrees]

theorem ne_empty_of_mem_subtrees {x t : SparseTree K V} (member : x ∈ t.subtrees) : x ≠ empty := by
  induction t with
  | empty => simp [subtrees] at member
  | leaf key value =>
    rw [subtrees, List.mem_singleton] at member
    simp [member]
  | node left right ihLeft ihRight =>
    simp only [subtrees, List.mem_cons, List.mem_append] at member
    rcases member with rfl | inLeft | inRight
    · simp
    · exact ihLeft inLeft
    · exact ihRight inRight

theorem exists_hasKey {t : SparseTree K V} (positive : 0 < t.size) : ∃ k, t.HasKey k := by
  induction t with
  | empty => simp [size] at positive
  | leaf key value => exact ⟨key, (hasKey_leaf ..).mpr rfl⟩
  | node left right ihLeft ihRight =>
    by_cases onLeft : 0 < left.size
    · obtain ⟨k, has⟩ := ihLeft onLeft
      exact ⟨k, (hasKey_node ..).mpr (Or.inl has)⟩
    · have onRight : 0 < right.size := by simp only [size] at positive; omega
      obtain ⟨k, has⟩ := ihRight onRight
      exact ⟨k, (hasKey_node ..).mpr (Or.inr has)⟩

end SparseTree

open SparseTree

section Keyed

variable (bit : K → Nat → Bool)

/-- The canonical form of a subtree whose root is at depth `d`. -/
def Canonical : Nat → SparseTree K V → Prop
  | _, .empty => True
  | _, .leaf _ _ => True
  | d, .node left right =>
      (∀ k, left.HasKey k → bit k d = false) ∧ (∀ k, right.HasKey k → bit k d = true) ∧
        Canonical (d + 1) left ∧ Canonical (d + 1) right ∧ 2 ≤ left.size + right.size

theorem canonical_branch (d : Nat) (b : Bool) (sibling t : SparseTree K V) :
    Canonical bit d (branch b sibling t) ↔
      (∀ k, sibling.HasKey k → bit k d = !b) ∧ (∀ k, t.HasKey k → bit k d = b) ∧
        Canonical bit (d + 1) sibling ∧ Canonical bit (d + 1) t ∧ 2 ≤ sibling.size + t.size := by
  cases b
  · simp only [branch, Bool.false_eq_true, ↓reduceIte, Canonical, Bool.not_false]
    constructor
    · rintro ⟨onLeft, onRight, left, right, two⟩
      exact ⟨onRight, onLeft, right, left, by omega⟩
    · rintro ⟨onRight, onLeft, right, left, two⟩
      exact ⟨onLeft, onRight, left, right, by omega⟩
  · simp [branch, Canonical]

theorem Canonical.size_pos {d : Nat} {t : SparseTree K V} (canonical : Canonical bit d t)
    (nonempty : t ≠ .empty) : 0 < t.size := by
  cases t with
  | empty => exact absurd rfl nonempty
  | leaf key value => simp [size]
  | node left right =>
    have two := canonical.2.2.2.2
    simp only [size]
    omega

theorem Canonical.eq_leaf {d : Nat} {t : SparseTree K V} (canonical : Canonical bit d t)
    (one : t.size = 1) : ∃ key value, t = .leaf key value := by
  cases t with
  | empty => simp [size] at one
  | leaf key value => exact ⟨key, value, rfl⟩
  | node left right =>
    have two := canonical.2.2.2.2
    simp only [size] at one
    omega

theorem Canonical.two_keys {d : Nat} {t : SparseTree K V} (canonical : Canonical bit d t)
    (two : 2 ≤ t.size) : ∃ k k', k ≠ k' ∧ t.HasKey k ∧ t.HasKey k' := by
  induction t generalizing d with
  | empty => simp [size] at two
  | leaf key value => simp [size] at two
  | node left right ihLeft ihRight =>
    obtain ⟨onLeft, onRight, canonicalLeft, canonicalRight, -⟩ := canonical
    simp only [size] at two
    by_cases leftEmpty : left.size = 0
    · obtain ⟨k, k', different, has, has'⟩ := ihRight canonicalRight (by omega)
      exact ⟨k, k', different, (hasKey_node ..).mpr (Or.inr has), (hasKey_node ..).mpr (Or.inr has')⟩
    · by_cases rightEmpty : right.size = 0
      · obtain ⟨k, k', different, has, has'⟩ := ihLeft canonicalLeft (by omega)
        exact ⟨k, k', different, (hasKey_node ..).mpr (Or.inl has), (hasKey_node ..).mpr (Or.inl has')⟩
      · obtain ⟨k, has⟩ := exists_hasKey (t := left) (by omega)
        obtain ⟨k', has'⟩ := exists_hasKey (t := right) (by omega)
        refine ⟨k, k', ?_, (hasKey_node ..).mpr (Or.inl has), (hasKey_node ..).mpr (Or.inr has')⟩
        intro same
        have clash := onRight k' has'
        rw [← same, onLeft k has] at clash
        exact Bool.false_ne_true clash

/-- A canonical tree is the only canonical tree of its map. -/
theorem Canonical.ext {d : Nat} {t u : SparseTree K V} (left : Canonical bit d t)
    (right : Canonical bit d u) (same : ∀ k v, t.Has k v ↔ u.Has k v) : t = u := by
  have sameKey (k : K) : t.HasKey k ↔ u.HasKey k := exists_congr (same k)
  induction t generalizing d u with
  | empty =>
    by_contra different
    obtain ⟨k, has⟩ := exists_hasKey (right.size_pos bit (Ne.symm different))
    exact hasKey_empty k ((sameKey k).mpr has)
  | leaf key value =>
    have mine : u.Has key value := (same key value).mp ⟨rfl, rfl⟩
    cases u with
    | empty => exact mine.elim
    | leaf key' value' => rw [mine.1, mine.2]
    | node l r =>
      obtain ⟨k, k', different, has, has'⟩ := right.two_keys bit right.2.2.2.2
      have first := (hasKey_leaf ..).mp ((sameKey k).mpr has)
      have second := (hasKey_leaf ..).mp ((sameKey k').mpr has')
      exact absurd (first.symm.trans second) different
  | node l r ihLeft ihRight =>
    obtain ⟨k, k', different, has, has'⟩ := left.two_keys bit left.2.2.2.2
    cases u with
    | empty => exact absurd ((sameKey k).mp has) (hasKey_empty k)
    | leaf key' value' =>
      have first := (hasKey_leaf ..).mp ((sameKey k).mp has)
      have second := (hasKey_leaf ..).mp ((sameKey k').mp has')
      exact absurd (first.symm.trans second) different
    | node l' r' =>
      obtain ⟨onL, onR, canonicalL, canonicalR, -⟩ := left
      obtain ⟨onL', onR', canonicalL', canonicalR', -⟩ := right
      have sameL (k : K) (v : V) : l.Has k v ↔ l'.Has k v := by
        constructor
        · intro has
          rcases (same k v).mp (Or.inl has) with inLeft | inRight
          · exact inLeft
          · exact absurd ((onL k ⟨v, has⟩).symm.trans (onR' k ⟨v, inRight⟩)) Bool.false_ne_true
        · intro has
          rcases (same k v).mpr (Or.inl has) with inLeft | inRight
          · exact inLeft
          · exact absurd ((onL' k ⟨v, has⟩).symm.trans (onR k ⟨v, inRight⟩)) Bool.false_ne_true
      have sameR (k : K) (v : V) : r.Has k v ↔ r'.Has k v := by
        constructor
        · intro has
          rcases (same k v).mp (Or.inr has) with inLeft | inRight
          · exact absurd ((onL' k ⟨v, inLeft⟩).symm.trans (onR k ⟨v, has⟩)) Bool.false_ne_true
          · exact inRight
        · intro has
          rcases (same k v).mpr (Or.inr has) with inLeft | inRight
          · exact absurd ((onL k ⟨v, inLeft⟩).symm.trans (onR' k ⟨v, has⟩)) Bool.false_ne_true
          · exact inRight
      rw [ihLeft canonicalL canonicalL' sameL (fun k => exists_congr (sameL k)),
        ihRight canonicalR canonicalR' sameR (fun k => exists_congr (sameR k))]

variable [DecidableEq K]

def find? (k : K) : Nat → SparseTree K V → Option V
  | _, .empty => none
  | _, .leaf key value => if key = k then some value else none
  | d, .node left right => if bit k d then find? k (d + 1) right else find? k (d + 1) left

theorem Canonical.find?_of_has {k : K} {d : Nat} {t : SparseTree K V} {v : V}
    (canonical : Canonical bit d t) (has : t.Has k v) : find? bit k d t = some v := by
  induction t generalizing d with
  | empty => exact has.elim
  | leaf key value => simp [find?, has.1, has.2]
  | node left right ihLeft ihRight =>
    obtain ⟨onLeft, onRight, canonicalLeft, canonicalRight, -⟩ := canonical
    rcases has with inLeft | inRight
    · simp [find?, onLeft k ⟨v, inLeft⟩, ihLeft canonicalLeft inLeft]
    · simp [find?, onRight k ⟨v, inRight⟩, ihRight canonicalRight inRight]

end Keyed

end PrivatePayments.Library
