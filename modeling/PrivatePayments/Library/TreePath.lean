import Mathlib.Data.List.DropRight
import PrivatePayments.Library.SparseTree

/-!
Paths into sparse trees. A tree is cut along a sequence of turns into the
siblings met on the way and the subtree the path ends at; updates replace the end
and keep the siblings.
-/

namespace PrivatePayments.Library
open SparseTree

namespace TreePath

variable {K V : Type} (bit : K → Nat → Bool) (dir : Nat → Bool)

/-- The tree at depth `d` with `t` at the end of the path through `siblings`. -/
def plug : Nat → List (SparseTree K V) → SparseTree K V → SparseTree K V
  | _, [], t => t
  | d, s :: rest, t => branch (dir d) s (plug (d + 1) rest t)

def pathNodes : Nat → List (SparseTree K V) → SparseTree K V → List (SparseTree K V)
  | _, [], _ => []
  | d, s :: rest, t => plug dir d (s :: rest) t :: pathNodes (d + 1) rest t

theorem exists_plug (d : Nat) (t : SparseTree K V) :
    ∃ siblings stop, t = plug dir d siblings stop ∧
      (stop = .empty ∨ ∃ key value, stop = .leaf key value) := by
  induction t generalizing d with
  | empty => exact ⟨[], .empty, rfl, Or.inl rfl⟩
  | leaf key value => exact ⟨[], .leaf key value, rfl, Or.inr ⟨key, value, rfl⟩⟩
  | node left right ihLeft ihRight =>
    cases turn : dir d with
    | false =>
      obtain ⟨siblings, stop, cut, kind⟩ := ihLeft (d + 1)
      exact ⟨right :: siblings, stop, by simp [plug, turn, branch, ← cut], kind⟩
    | true =>
      obtain ⟨siblings, stop, cut, kind⟩ := ihRight (d + 1)
      exact ⟨left :: siblings, stop, by simp [plug, turn, branch, ← cut], kind⟩

theorem plug_append (d : Nat) (front back : List (SparseTree K V)) (t : SparseTree K V) :
    plug dir d (front ++ back) t = plug dir d front (plug dir (d + front.length) back t) := by
  induction front generalizing d with
  | nil => rfl
  | cons s rest ih =>
    simp only [List.cons_append, plug, ih, List.length_cons]
    rw [show d + 1 + rest.length = d + (rest.length + 1) by omega]

/-- The path from depth `i` on starts with the sibling at `i`. -/
theorem plug_drop {siblings : List (SparseTree K V)} {i : Nat} (below : i < siblings.length)
    (t : SparseTree K V) :
    plug dir i (siblings.drop i) t =
      branch (dir i) siblings[i] (plug dir (i + 1) (siblings.drop (i + 1)) t) := by
  rw [List.drop_eq_getElem_cons below, plug]

theorem pathNodes_drop {siblings : List (SparseTree K V)} {i : Nat} (below : i < siblings.length)
    (t : SparseTree K V) :
    pathNodes dir i (siblings.drop i) t =
      plug dir i (siblings.drop i) t :: pathNodes dir (i + 1) (siblings.drop (i + 1)) t := by
  rw [List.drop_eq_getElem_cons below, pathNodes]

theorem has_branch (b : Bool) (s t : SparseTree K V) (k : K) (v : V) :
    (branch b s t).Has k v ↔ s.Has k v ∨ t.Has k v := by
  cases b <;> simp [branch, Has, or_comm]

theorem has_plug (d : Nat) (siblings : List (SparseTree K V)) (t : SparseTree K V) (k : K) (v : V) :
    (plug dir d siblings t).Has k v ↔ (∃ s ∈ siblings, s.Has k v) ∨ t.Has k v := by
  induction siblings generalizing d with
  | nil => simp [plug]
  | cons s rest ih =>
    simp only [plug, has_branch, ih, List.exists_mem_cons_iff, or_assoc]

theorem hasKey_plug (d : Nat) (siblings : List (SparseTree K V)) (t : SparseTree K V) (k : K) :
    (plug dir d siblings t).HasKey k ↔ (∃ s ∈ siblings, s.HasKey k) ∨ t.HasKey k := by
  induction siblings generalizing d with
  | nil => simp [plug]
  | cons s rest ih =>
    simp only [plug, hasKey_branch, ih, List.exists_mem_cons_iff, or_assoc]

theorem size_last_le (d : Nat) (siblings : List (SparseTree K V)) (t last : SparseTree K V)
    (isLast : siblings.getLast? = some last) :
    last.size + t.size ≤ (plug dir d siblings t).size := by
  induction siblings generalizing d with
  | nil => simp at isLast
  | cons s rest ih =>
    simp only [plug, size_branch]
    cases rest with
    | nil =>
      have same : s = last := by simpa using isLast
      simp [plug, same]
    | cons s' rest' =>
      have bound := ih (d + 1) (by simpa using isLast)
      omega

/-- What a canonical tree says of the siblings along a path: each is canonical at
its depth, and its keys turn away from the path exactly there. -/
def Siblings : Nat → List (SparseTree K V) → Prop
  | _, [] => True
  | d, s :: rest =>
      Canonical bit (d + 1) s ∧ (∀ k, s.HasKey k → bit k d = !dir d) ∧
        (∀ s' ∈ rest, ∀ k, s'.HasKey k → bit k d = dir d) ∧ Siblings (d + 1) rest

theorem Siblings.not_hasKey {k : K} {d : Nat} {siblings : List (SparseTree K V)}
    (away : Siblings bit (bit k) d siblings) {s : SparseTree K V} (member : s ∈ siblings) :
    ¬s.HasKey k := by
  induction siblings generalizing d with
  | nil => simp at member
  | cons first rest ih =>
    obtain ⟨-, turned, -, away⟩ := away
    rcases List.mem_cons.mp member with rfl | later
    · intro has
      have clash := turned k has
      simp at clash
    · exact ih away later

/-- The keys of `t` take the `n` turns from depth `d` on. -/
def Follows (d n : Nat) (t : SparseTree K V) : Prop :=
  ∀ k, t.HasKey k → ∀ j, d ≤ j → j < d + n → bit k j = dir j

theorem follows_succ (d n : Nat) (t : SparseTree K V) :
    Follows bit dir d (n + 1) t ↔
      (∀ k, t.HasKey k → bit k d = dir d) ∧ Follows bit dir (d + 1) n t := by
  constructor
  · intro follows
    exact ⟨fun k has => follows k has d (Nat.le_refl d) (by omega),
      fun k has j low high => follows k has j (by omega) (by omega)⟩
  · rintro ⟨first, rest⟩ k has j low high
    by_cases same : j = d
    · exact same ▸ first k has
    · exact rest k has j (by omega) (by omega)

theorem canonical_plug (d : Nat) (siblings : List (SparseTree K V)) (t : SparseTree K V) :
    Canonical bit d (plug dir d siblings t) ↔
      Siblings bit dir d siblings ∧ Follows bit dir d siblings.length t ∧
        Canonical bit (d + siblings.length) t ∧
        ∀ last, siblings.getLast? = some last → 2 ≤ last.size + t.size := by
  induction siblings generalizing d with
  | nil =>
    simp only [plug, Siblings, Follows, List.length_nil, List.getLast?_nil]
    constructor
    · exact fun canonical => ⟨trivial, fun k has j low high => by omega, canonical, by simp⟩
    · exact fun parts => parts.2.2.1
  | cons s rest ih =>
    have depth : d + 1 + rest.length = d + (rest.length + 1) := by omega
    simp only [plug, canonical_branch, ih, Siblings, List.length_cons, follows_succ, depth]
    constructor
    · rintro ⟨away, toward, canonicalS, ⟨siblings, follows, canonicalT, full⟩, two⟩
      refine ⟨⟨canonicalS, away, ?_, siblings⟩, ⟨?_, follows⟩, canonicalT, ?_⟩
      · exact fun s' member k has =>
          toward k ((hasKey_plug dir _ _ _ k).mpr (Or.inl ⟨s', member, has⟩))
      · exact fun k has => toward k ((hasKey_plug dir _ _ _ k).mpr (Or.inr has))
      · intro last isLast
        cases rest with
        | nil =>
          have same : s = last := by simpa using isLast
          simpa [plug, same] using two
        | cons s' rest' => exact full last (by simpa using isLast)
    · rintro ⟨⟨canonicalS, away, toward, siblings⟩, ⟨first, follows⟩, canonicalT, full⟩
      refine ⟨away, ?_, canonicalS, ⟨siblings, follows, canonicalT, ?_⟩, ?_⟩
      · intro k has
        rcases (hasKey_plug dir _ _ _ k).mp has with ⟨s', member, inS'⟩ | inT
        · exact toward s' member k inS'
        · exact first k inT
      · intro last isLast
        cases rest with
        | nil => simp at isLast
        | cons s' rest' => exact full last (by simpa using isLast)
      · cases rest with
        | nil => simpa [plug] using full s (by simp)
        | cons s' rest' =>
          have isLast := List.getLast?_eq_some_getLast (List.cons_ne_nil s' rest')
          have two := full _ (by simpa using isLast)
          have bound := size_last_le dir (d + 1) _ t _ isLast
          omega

theorem mem_subtrees_plug (d : Nat) (siblings : List (SparseTree K V)) (t x : SparseTree K V) :
    x ∈ (plug dir d siblings t).subtrees ↔
      x ∈ pathNodes dir d siblings t ∨ (∃ s ∈ siblings, x ∈ s.subtrees) ∨ x ∈ t.subtrees := by
  induction siblings generalizing d with
  | nil => simp [plug, pathNodes]
  | cons s rest ih =>
    simp only [plug, mem_subtrees_branch, ih, pathNodes, List.mem_cons, exists_eq_or_imp,
      or_assoc]
    constructor
    · rintro (top | inS | inPath | inRest | inT) <;> simp_all
    · rintro (top | inPath | inS | inRest | inT) <;> simp_all

theorem hasKey_of_mem_pathNodes {d : Nat} {siblings : List (SparseTree K V)}
    {t x : SparseTree K V} {k : K} (member : x ∈ pathNodes dir d siblings t) (has : t.HasKey k) :
    x.HasKey k := by
  induction siblings generalizing d with
  | nil => simp [pathNodes] at member
  | cons s rest ih =>
    rcases List.mem_cons.mp member with rfl | later
    · exact (hasKey_plug ..).mpr (Or.inr has)
    · exact ih later

theorem hasKey_plug_of_mem_pathNodes {d : Nat} {siblings : List (SparseTree K V)}
    {t x : SparseTree K V} {k : K} (member : x ∈ pathNodes dir d siblings t) (has : x.HasKey k) :
    (plug dir d siblings t).HasKey k :=
  hasKey_of_mem_subtrees ((mem_subtrees_plug ..).mpr (Or.inl member)) has

theorem size_pos_of_mem_pathNodes {d : Nat} {siblings : List (SparseTree K V)}
    {t x : SparseTree K V} (full : ∀ last, siblings.getLast? = some last → 0 < last.size + t.size)
    (member : x ∈ pathNodes dir d siblings t) : 0 < x.size := by
  induction siblings generalizing d with
  | nil => simp [pathNodes] at member
  | cons s rest ih =>
    rcases List.mem_cons.mp member with rfl | later
    · have isLast := List.getLast?_eq_some_getLast (List.cons_ne_nil s rest)
      have bound := size_last_le dir d _ t _ isLast
      have positive := full _ isLast
      omega
    · apply ih _ later
      intro last isLast
      cases rest with
      | nil => simp at isLast
      | cons s' rest' => exact full last (by simpa using isLast)

theorem weight_le_plug {d : Nat} {siblings : List (SparseTree K V)} {t y : SparseTree K V}
    (below : y ∈ siblings ∨ y = t) : y.weight ≤ (plug dir d siblings t).weight := by
  induction siblings generalizing d with
  | nil => simpa [plug] using (congrArg weight (below.resolve_left (by simp))).le
  | cons s rest ih =>
    rw [plug, weight_branch]
    rcases below with inList | same
    · rcases List.mem_cons.mp inList with rfl | later
      · omega
      · have bound := ih (d := d + 1) (Or.inl later)
        omega
    · have bound := ih (d := d + 1) (Or.inr same)
      omega

/-- The top node of a nonempty path outweighs all that hangs off the path. -/
theorem weight_lt_plug {d : Nat} {s : SparseTree K V} {rest : List (SparseTree K V)}
    {t y : SparseTree K V} (below : y ∈ s :: rest ∨ y = t) :
    y.weight < (plug dir d (s :: rest) t).weight := by
  rw [plug, weight_branch]
  rcases below with inList | same
  · rcases List.mem_cons.mp inList with rfl | later
    · omega
    · have bound := weight_le_plug dir (d := d + 1) (t := t) (Or.inl later)
      omega
  · have bound : y.weight ≤ (plug dir (d + 1) rest t).weight := weight_le_plug dir (Or.inr same)
    omega

/-- A node on the path is a subtree neither of a sibling nor of the end. -/
theorem pathNodes_disjoint {d : Nat} {siblings : List (SparseTree K V)} {t x : SparseTree K V}
    (away : Siblings bit dir d siblings) (follows : Follows bit dir d siblings.length t)
    (full : ∀ last, siblings.getLast? = some last → 0 < last.size + t.size)
    (member : x ∈ pathNodes dir d siblings t) :
    (∀ s ∈ siblings, x ∉ s.subtrees) ∧ x ∉ t.subtrees := by
  induction siblings generalizing d with
  | nil => simp [pathNodes] at member
  | cons s rest ih =>
    obtain ⟨-, turned, toward, away⟩ := away
    obtain ⟨first, follows⟩ := (follows_succ bit dir d rest.length t).mp follows
    have restFull : ∀ last, rest.getLast? = some last → 0 < last.size + t.size := by
      intro last isLast
      cases rest with
      | nil => simp at isLast
      | cons s' rest' => exact full last (by simpa using isLast)
    rcases List.mem_cons.mp member with rfl | later
    · constructor
      · intro y inList inside
        exact absurd (weight_le_of_mem_subtrees inside)
          (Nat.not_le.mpr (weight_lt_plug dir (Or.inl inList)))
      · intro inside
        exact absurd (weight_le_of_mem_subtrees inside)
          (Nat.not_le.mpr (weight_lt_plug dir (Or.inr rfl)))
    · obtain ⟨apart, apartEnd⟩ := ih away follows restFull later
      refine ⟨?_, apartEnd⟩
      intro y inList inside
      rcases List.mem_cons.mp inList with rfl | inRest
      · -- a key of the path node takes the turn that no key of the sibling takes
        obtain ⟨k, has⟩ := exists_hasKey (size_pos_of_mem_pathNodes dir restFull later)
        have taken : bit k d = dir d := by
          rcases (hasKey_plug ..).mp (hasKey_plug_of_mem_pathNodes dir later has) with
            ⟨s', inRest, inS'⟩ | inT
          · exact toward s' inRest k inS'
          · exact first k inT
        have avoided := turned k (hasKey_of_mem_subtrees inside has)
        simp [taken] at avoided
      · exact apart y inRest inside

end TreePath

end PrivatePayments.Library
