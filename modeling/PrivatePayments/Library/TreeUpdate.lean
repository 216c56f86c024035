import PrivatePayments.Library.TreePath

/-!
Insertion and deletion at the end of a path keep the canonical form: an absent
key goes into the empty slot or is pushed down past the bits it shares with the
leaf it meets, and a deleted key lets a lone sibling leaf rise past empty siblings.
-/

namespace PrivatePayments.Library
open SparseTree TreePath

namespace TreeUpdate

variable {K V : Type} (bit : K → Nat → Bool) (dir : Nat → Bool)

def isEmpty : SparseTree K V → Bool
  | .empty => true
  | _ => false

@[simp] theorem isEmpty_iff (t : SparseTree K V) : isEmpty t = true ↔ t = .empty := by
  cases t <;> simp [isEmpty]

theorem siblings_append (d : Nat) (front back : List (SparseTree K V)) :
    Siblings bit dir d (front ++ back) ↔
      Siblings bit dir d front ∧ (∀ s ∈ back, Follows bit dir d front.length s) ∧
        Siblings bit dir (d + front.length) back := by
  induction front generalizing d with
  | nil =>
    simp only [List.nil_append, List.length_nil, Siblings, Follows]
    constructor
    · exact fun away => ⟨trivial, fun s _ k _ j low high => by omega, away⟩
    · exact fun parts => parts.2.2
  | cons s rest ih =>
    have depth : d + 1 + rest.length = d + (rest.length + 1) := by omega
    simp only [List.cons_append, Siblings, ih, List.length_cons, follows_succ, depth]
    constructor
    · rintro ⟨canonical, turned, toward, away, follows, later⟩
      refine ⟨⟨canonical, turned, fun s' member => toward s' (List.mem_append_left _ member), away⟩,
        fun s' member => ⟨toward s' (List.mem_append_right _ member), follows s' member⟩, later⟩
    · rintro ⟨⟨canonical, turned, toward, away⟩, follows, later⟩
      refine ⟨canonical, turned, ?_, away, fun s' member => (follows s' member).2, later⟩
      intro s' member
      rcases List.mem_append.mp member with inFront | inBack
      · exact toward s' inFront
      · exact (follows s' inBack).1

/-- The end of a path may be replaced by any subtree that belongs there and leaves
no node with fewer than two leaves. -/
theorem canonical_replace {d : Nat} {siblings : List (SparseTree K V)} {t u : SparseTree K V}
    (canonical : Canonical bit d (plug dir d siblings t))
    (follows : Follows bit dir d siblings.length u) (fits : Canonical bit (d + siblings.length) u)
    (large : t.size ≤ u.size ∨ 2 ≤ u.size) : Canonical bit d (plug dir d siblings u) := by
  obtain ⟨away, -, -, full⟩ := (canonical_plug ..).mp canonical
  refine (canonical_plug ..).mpr ⟨away, follows, fits, ?_⟩
  intro last isLast
  have two := full last isLast
  omega

theorem follows_leaf (d n : Nat) (k : K) (v : V) : Follows bit (bit k) d n (.leaf k v) := by
  intro k' has j _ _
  rw [(hasKey_leaf ..).mp has]

theorem canonical_insert_empty {siblings : List (SparseTree K V)} {k : K} (v : V)
    (canonical : Canonical bit 0 (plug (bit k) 0 siblings .empty)) :
    Canonical bit 0 (plug (bit k) 0 siblings (.leaf k v)) :=
  canonical_replace bit _ canonical (follows_leaf bit _ _ k v) trivial (Or.inl (by simp [size]))

/-- Two leaves separated below `n` shared bits. -/
theorem canonical_pushed (d n : Nat) (k old : K) (v oldValue : V)
    (shared : ∀ j, d ≤ j → j < d + n → bit old j = bit k j)
    (apart : bit old (d + n) ≠ bit k (d + n)) :
    Canonical bit d (plug (bit k) d
      (List.replicate n .empty ++ [.leaf old oldValue]) (.leaf k v)) := by
  induction n generalizing d with
  | zero =>
    simp only [List.replicate_zero, List.nil_append, plug, canonical_branch, Canonical,
      hasKey_leaf, forall_eq', size]
    exact ⟨by simpa [Bool.eq_not] using apart, trivial, trivial, trivial, by omega⟩
  | succ n ih =>
    have later := ih (d + 1) (fun j low high => shared j (by omega) (by omega))
      (by rw [show d + 1 + n = d + (n + 1) by omega]; exact apart)
    have below := size_last_le (bit k) (d + 1)
      (List.replicate n .empty ++ [.leaf old oldValue]) (.leaf k v) (.leaf old oldValue) (by simp)
    simp only [List.replicate_succ, List.cons_append, plug, canonical_branch, hasKey_empty,
      false_imp_iff, implies_true, true_and, Canonical]
    refine ⟨?_, later, by simpa [size] using below⟩
    intro key has
    rcases (hasKey_plug ..).mp has with ⟨s, member, inS⟩ | inLeaf
    · rcases List.mem_append.mp member with inFront | inBack
      · rw [List.eq_of_mem_replicate inFront] at inS
        exact absurd inS (hasKey_empty key)
      · rw [List.mem_singleton.mp inBack] at inS
        rw [← (hasKey_leaf ..).mp inS]
        exact shared d (Nat.le_refl d) (by omega)
    · rw [← (hasKey_leaf ..).mp inLeaf]

theorem canonical_insert_collision {siblings : List (SparseTree K V)} {k old : K} {oldValue : V}
    (v : V) (n : Nat)
    (canonical : Canonical bit 0 (plug (bit k) 0 siblings (.leaf old oldValue)))
    (shared : ∀ j, siblings.length ≤ j → j < siblings.length + n → bit old j = bit k j)
    (apart : bit old (siblings.length + n) ≠ bit k (siblings.length + n)) :
    Canonical bit 0 (plug (bit k) 0
      (siblings ++ (List.replicate n .empty ++ [.leaf old oldValue])) (.leaf k v)) := by
  rw [plug_append]
  have pushed := canonical_pushed bit (0 + siblings.length) n k old v oldValue
    (by simpa using shared) (by simpa using apart)
  have two := size_last_le (bit k) (0 + siblings.length)
    (List.replicate n .empty ++ [.leaf old oldValue]) (.leaf k v) (.leaf old oldValue) (by simp)
  refine canonical_replace bit _ canonical ?_ pushed (Or.inr (by simpa [size] using two))
  obtain ⟨-, follows, -, -⟩ := (canonical_plug ..).mp canonical
  intro key has j low high
  rcases (hasKey_plug ..).mp has with ⟨s, member, inS⟩ | inLeaf
  · rcases List.mem_append.mp member with inFront | inBack
    · rw [List.eq_of_mem_replicate inFront] at inS
      exact absurd inS (hasKey_empty key)
    · rw [List.mem_singleton.mp inBack] at inS
      exact follows key inS j low high
  · rw [(hasKey_leaf ..).mp inLeaf]

/-- Deleting a leaf whose sibling is not a leaf leaves its slot empty. -/
theorem canonical_delete_slot {siblings : List (SparseTree K V)} {t : SparseTree K V}
    (canonical : Canonical bit 0 (plug dir 0 siblings t))
    (large : ∀ last, siblings.getLast? = some last → 2 ≤ last.size) :
    Canonical bit 0 (plug dir 0 siblings .empty) := by
  obtain ⟨away, -, -, -⟩ := (canonical_plug ..).mp canonical
  refine (canonical_plug ..).mpr ⟨away, fun k has => absurd has (hasKey_empty k), trivial, ?_⟩
  intro last isLast
  simpa [size] using large last isLast

/-- Deleting a leaf whose sibling is a leaf lets that leaf rise to the nearest
nonempty sibling. -/
theorem canonical_delete_promote {front : List (SparseTree K V)} {t : SparseTree K V} {k : K} {v : V}
    (canonical : Canonical bit 0 (plug dir 0 (front ++ [.leaf k v]) t)) :
    Canonical bit 0 (plug dir 0 (front.rdropWhile isEmpty) (.leaf k v)) := by
  obtain ⟨away, -, -, -⟩ := (canonical_plug ..).mp canonical
  obtain ⟨awayFront, follows, -⟩ := (siblings_append ..).mp away
  obtain ⟨dropped, split⟩ := List.rdropWhile_prefix isEmpty (l := front)
  have awayKept : Siblings bit dir 0 (front.rdropWhile isEmpty) := by
    rw [← split] at awayFront
    exact ((siblings_append ..).mp awayFront).1
  refine (canonical_plug ..).mpr ⟨awayKept, ?_, trivial, ?_⟩
  · intro key has j low high
    have shorter := (List.rdropWhile_prefix isEmpty (l := front)).length_le
    exact follows _ (List.mem_singleton.mpr rfl) key has j low (by omega)
  · intro last isLast
    have kept : front.rdropWhile isEmpty ≠ [] := by
      intro none
      simp [none] at isLast
    have nonempty := List.rdropWhile_last_not isEmpty front kept
    rw [List.getLast?_eq_some_getLast kept, Option.some.injEq] at isLast
    rw [isLast, isEmpty_iff] at nonempty
    have member : last ∈ front.rdropWhile isEmpty := isLast ▸ List.getLast_mem kept
    obtain ⟨before, after, cut⟩ := List.append_of_mem member
    rw [cut] at awayKept
    have inPlace := ((siblings_append ..).mp awayKept).2.2.1
    have positive := inPlace.size_pos bit nonempty
    simp only [size]
    omega

/-- Only a leaf or an empty slot ends a path, so the last sibling is not empty. -/
theorem last_ne_empty {d : Nat} {siblings : List (SparseTree K V)} {stop : SparseTree K V}
    (canonical : Canonical bit d (plug dir d siblings stop))
    (kind : stop = .empty ∨ ∃ k v, stop = .leaf k v) {last : SparseTree K V}
    (isLast : siblings.getLast? = some last) : last ≠ .empty := by
  obtain ⟨-, -, -, full⟩ := (canonical_plug ..).mp canonical
  have two := full last isLast
  rintro rfl
  rcases kind with rfl | ⟨k', v', rfl⟩ <;> simp [SparseTree.size] at two

theorem length_le {siblings : List (SparseTree K V)} {t : SparseTree K V} (n : Nat)
    (canonical : Canonical bit 0 (plug dir 0 siblings t))
    (separated : ∀ k k', (plug dir 0 siblings t).HasKey k → (plug dir 0 siblings t).HasKey k' →
      (∀ i, i < n → bit k i = bit k' i) → k = k') : siblings.length ≤ n := by
  by_contra long
  rcases List.eq_nil_or_concat siblings with none | ⟨front, last, cut⟩
  · simp [none] at long
  · rw [List.concat_eq_append] at cut
    subst cut
    have deep : n ≤ front.length := by
      rw [List.length_append, List.length_singleton] at long
      omega
    rw [plug_append] at canonical separated
    obtain ⟨-, follows, fits, -⟩ := (canonical_plug ..).mp canonical
    have two := ((canonical_branch ..).mp fits).2.2.2.2
    obtain ⟨k, k', different, has, has'⟩ := fits.two_keys bit (by simpa [plug] using two)
    refine different (separated k k' ((hasKey_plug ..).mpr (Or.inr has))
      ((hasKey_plug ..).mpr (Or.inr has')) ?_)
    intro i below
    rw [follows k has i (Nat.zero_le i) (by omega), follows k' has' i (Nat.zero_le i) (by omega)]

end TreeUpdate

end PrivatePayments.Library
