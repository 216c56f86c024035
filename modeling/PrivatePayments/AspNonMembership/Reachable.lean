import PrivatePayments.AspNonMembership.Delete

/-!
The tree as the storage has it: the nodes reachable from the stored root, and the
keys and values at its leaves.
-/

namespace PrivatePayments.AspNonMembership
open Bn254 Poseidon2 Soroban Library SparseTree TreePath KeyTree

/-- The hashes met on the way down from the stored root. -/
inductive Reachable (s : Storage) : U256 → Prop where
  | root {r : U256} (isRoot : s.root = some r) (nonzero : r ≠ 0) : Reachable s r
  | left {h l r : U256} (parent : Reachable s h) (filed : s.node h = some [l, r]) (nonzero : l ≠ 0) :
      Reachable s l
  | right {h l r : U256} (parent : Reachable s h) (filed : s.node h = some [l, r])
      (nonzero : r ≠ 0) : Reachable s r

/-- The stored tree has a leaf with the key and the value. -/
def Blocks (s : Storage) (key value : U256) : Prop :=
  ∃ h, Reachable s h ∧ s.node h = some [1, key, value]

namespace Represents

variable {H : Hasher} {env : Env Storage} {t : KeyTree}

theorem filed (rep : Represents H env t) {x : KeyTree} (member : x ∈ t.subtrees) :
    env.storage.node (nodeKey H x) = some (content H x) := rep.stored x member

theorem within (rep : Represents H env t) {x : KeyTree} (member : x ∈ t.subtrees) :
    ∀ q ∈ queries H x, q ∈ env.hashed :=
  fun q inX => rep.logged q (queries_of_mem_subtrees H member q inX)

theorem nodeKey_ne_zero (rep : Represents H env t) (free : CollisionFree H {q | q ∈ env.hashed})
    {x : KeyTree} (member : x ∈ t.subtrees) : nodeKey H x ≠ 0 :=
  KeyTree.nodeKey_ne_zero free (ne_empty_of_mem_subtrees member) (rep.within member)

/-- A node whose content is a pair of hashes is a branch over those hashes. -/
theorem children (rep : Represents H env t) {x : KeyTree} (member : x ∈ t.subtrees) {l r : U256}
    (filed : env.storage.node (nodeKey H x) = some [l, r]) :
    ∃ left right, x = .node left right ∧ nodeKey H left = l ∧ nodeKey H right = r := by
  rw [rep.filed member, Option.some.injEq] at filed
  cases x with
  | empty => simp [content] at filed
  | leaf k v => simp [content] at filed
  | node left right =>
    simp only [content, List.cons.injEq, and_true] at filed
    exact ⟨left, right, rfl, filed.1, filed.2⟩

theorem reachable_iff (rep : Represents H env t) (free : CollisionFree H {q | q ∈ env.hashed})
    (h : U256) : Reachable env.storage h ↔ ∃ x ∈ t.subtrees, nodeKey H x = h := by
  have below {x left right : KeyTree} (member : x ∈ t.subtrees) (isNode : x = .node left right)
      {y : KeyTree} (child : y = left ∨ y = right) (nonempty : y ≠ .empty) : y ∈ t.subtrees := by
    refine mem_subtrees_trans ?_ member
    subst isNode
    rcases child with rfl | rfl
    · exact List.mem_cons_of_mem _ (List.mem_append_left _ (mem_subtrees_self nonempty))
    · exact List.mem_cons_of_mem _ (List.mem_append_right _ (mem_subtrees_self nonempty))
  constructor
  · intro reachable
    induction reachable with
    | root isRoot nonzero =>
      rw [rep.root, Option.some.injEq] at isRoot
      refine ⟨t, mem_subtrees_self ?_, isRoot⟩
      rintro rfl
      exact nonzero (isRoot ▸ nodeKey_empty H)
    | left parent filed nonzero ih =>
      obtain ⟨x, member, rfl⟩ := ih
      obtain ⟨left, right, isNode, rfl, rfl⟩ := rep.children member filed
      refine ⟨left, below member isNode (Or.inl rfl) ?_, rfl⟩
      rintro rfl
      exact nonzero (nodeKey_empty H)
    | right parent filed nonzero ih =>
      obtain ⟨x, member, rfl⟩ := ih
      obtain ⟨left, right, isNode, rfl, rfl⟩ := rep.children member filed
      refine ⟨right, below member isNode (Or.inr rfl) ?_, rfl⟩
      rintro rfl
      exact nonzero (nodeKey_empty H)
  · rintro ⟨x, member, rfl⟩
    -- walk down from the top to `x`
    have down (y : KeyTree) : y ∈ t.subtrees → Reachable env.storage (nodeKey H y) →
        ∀ x ∈ y.subtrees, Reachable env.storage (nodeKey H x) := by
      induction y with
      | empty => intro _ _ x member; simp [subtrees] at member
      | leaf k v =>
        intro _ top x member
        rw [subtrees, List.mem_singleton] at member
        exact member ▸ top
      | node left right ihLeft ihRight =>
        intro inTree top x member
        have filed := rep.filed inTree
        simp only [subtrees, List.mem_cons, List.mem_append] at member
        rcases member with rfl | inLeft | inRight
        · exact top
        · have nonempty : left ≠ .empty := by
            rintro rfl
            simp [subtrees] at inLeft
          have inTree := below inTree rfl (Or.inl rfl) nonempty
          exact ihLeft inTree (.left top filed (rep.nodeKey_ne_zero free inTree)) x inLeft
        · have nonempty : right ≠ .empty := by
            rintro rfl
            simp [subtrees] at inRight
          have inTree := below inTree rfl (Or.inr rfl) nonempty
          exact ihRight inTree (.right top filed (rep.nodeKey_ne_zero free inTree)) x inRight
    have nonempty : t ≠ .empty := by
      rintro rfl
      simp [subtrees] at member
    have top := mem_subtrees_self nonempty
    exact down t top (.root rep.root (rep.nodeKey_ne_zero free top)) x member

theorem blocks_iff (rep : Represents H env t) (free : CollisionFree H {q | q ∈ env.hashed})
    (key value : U256) :
    Blocks env.storage key value ↔ ∃ k v, key = toU256 k ∧ value = toU256 v ∧ t.Has k v := by
  constructor
  · rintro ⟨h, reachable, filed⟩
    obtain ⟨x, member, rfl⟩ := (rep.reachable_iff free h).mp reachable
    rw [rep.filed member, Option.some.injEq] at filed
    cases x with
    | empty => simp [content] at filed
    | leaf k v =>
      simp only [content, List.cons.injEq, and_true, true_and] at filed
      exact ⟨k, v, filed.1.symm, filed.2.symm, leaf_mem_subtrees.mp member⟩
    | node left right => simp [content] at filed
  · rintro ⟨k, v, rfl, rfl, has⟩
    have member := leaf_mem_subtrees.mpr has
    exact ⟨_, (rep.reachable_iff free _).mpr ⟨_, member, rfl⟩, rep.filed member⟩

theorem stored_iff_reachable (rep : Represents H env t)
    (free : CollisionFree H {q | q ∈ env.hashed})
    (whole : ContentStore.Exact (nodeKey H) (content H) env.storage.node {x | x ∈ t.subtrees})
    (h : U256) : env.storage.node h ≠ none ↔ Reachable env.storage h := by
  rw [rep.reachable_iff free]
  constructor
  · exact whole.2 h
  · rintro ⟨x, member, rfl⟩
    rw [rep.filed member]
    exact Option.some_ne_none _

end Represents

end PrivatePayments.AspNonMembership
