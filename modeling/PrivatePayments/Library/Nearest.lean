import PrivatePayments.Library.TreeUpdate

/-!
Which key of a sparse tree lies nearest to a sequence of turns. The shape of the
tree around the end of a path is decided by whether one key is nearer than all others.
-/

namespace PrivatePayments.Library
open SparseTree TreePath

namespace Nearest

variable {K V : Type} (bit : K → Nat → Bool) (dir : Nat → Bool)

/-- `near` keeps to the turns beyond the first place where `far` leaves them. -/
def Nearer (near far : K) : Prop := ∃ i, bit far i ≠ dir i ∧ ∀ j, j ≤ i → bit near j = dir j

/-- `near` keeps to the turns at least two turns longer than `far`. -/
def Outlasts (near far : K) : Prop := ∃ i, bit far i ≠ dir i ∧ ∀ j, j ≤ i + 1 → bit near j = dir j

variable {bit dir}

theorem Outlasts.nearer {near far : K} (outlasts : Outlasts bit dir near far) : Nearer bit dir near far := by
  obtain ⟨i, leaves, keeps⟩ := outlasts
  exact ⟨i, leaves, fun j early => keeps j (by omega)⟩

theorem exists_turn {d : Nat} {siblings : List (SparseTree K V)} (away : Siblings bit dir d siblings)
    {s : SparseTree K V} (member : s ∈ siblings) {k : K} (has : s.HasKey k) :
    ∃ i, i < siblings.length ∧ bit k (d + i) ≠ dir (d + i) ∧
      ∀ j, j < i → bit k (d + j) = dir (d + j) := by
  induction siblings generalizing d with
  | nil => simp at member
  | cons first rest ih =>
    obtain ⟨-, turned, toward, away⟩ := away
    rcases List.mem_cons.mp member with rfl | later
    · refine ⟨0, by simp, ?_, fun j none => by omega⟩
      have turn := turned k has
      simp [turn]
    · obtain ⟨i, below, leaves, keeps⟩ := ih away later
      refine ⟨i + 1, by simpa using below, ?_, ?_⟩
      · rw [show d + (i + 1) = d + 1 + i by omega]
        exact leaves
      · intro j earlier
        rcases Nat.eq_zero_or_pos j with rfl | positive
        · exact toward s later k has
        · have shifted := keeps (j - 1) (by omega)
          rwa [show d + 1 + (j - 1) = d + j by omega] at shifted

/-- No key that leaves the path is nearer than a key that keeps to it up to its last turn. -/
theorem not_nearer {siblings : List (SparseTree K V)} (away : Siblings bit dir 0 siblings)
    {s : SparseTree K V} (member : s ∈ siblings) {near far : K} (has : s.HasKey near)
    (keeps : ∀ j, j + 1 < siblings.length → bit far j = dir j) : ¬Nearer bit dir near far := by
  rintro ⟨i, leaves, agrees⟩
  obtain ⟨turn, below, turned, -⟩ := exists_turn away member has
  simp only [Nat.zero_add] at turned
  have late : siblings.length ≤ i + 1 := by
    by_contra early
    exact leaves (keeps i (by omega))
  exact turned (agrees turn (by omega))

/-- A key that keeps to the path longer than a sibling's key does is nearer. -/
theorem nearer_of_follows {siblings : List (SparseTree K V)} (away : Siblings bit dir 0 siblings)
    {s : SparseTree K V} (member : s ∈ siblings) {near far : K} (has : s.HasKey far)
    (keeps : ∀ j, j < siblings.length → bit near j = dir j) : Nearer bit dir near far := by
  obtain ⟨turn, below, turned, -⟩ := exists_turn away member has
  simp only [Nat.zero_add] at turned
  exact ⟨turn, turned, fun j early => keeps j (by omega)⟩

/-- Of the keys off a path one is nearest iff the last sibling is its leaf. -/
theorem nearest_iff_last {siblings : List (SparseTree K V)} {t : SparseTree K V}
    (canonical : Canonical bit 0 (plug dir 0 siblings t)) (lone : t.size ≤ 1) (near : K) :
    ((∃ s ∈ siblings, s.HasKey near) ∧
      ∀ far, (∃ s ∈ siblings, s.HasKey far) → far ≠ near → Nearer bit dir near far) ↔
    ∃ value, siblings.getLast? = some (.leaf near value) := by
  obtain ⟨away, -, -, full⟩ := (canonical_plug ..).mp canonical
  constructor
  · rintro ⟨⟨s, member, has⟩, nearest⟩
    rcases List.eq_nil_or_concat siblings with rfl | ⟨front, last, cut⟩
    · simp at member
    · rw [List.concat_eq_append] at cut
      subst cut
      obtain ⟨-, follows, here⟩ := (TreeUpdate.siblings_append ..).mp away
      have isLast : (front ++ [last]).getLast? = some last := List.getLast?_concat
      have inList : last ∈ front ++ [last] := by simp
      -- the last sibling has no key but `near`
      have only (k : K) (inLast : last.HasKey k) : k = near := by
        by_contra different
        refine not_nearer away member has ?_ (nearest k ⟨last, inList, inLast⟩ different)
        intro j early
        rw [List.length_append, List.length_singleton] at early
        exact follows last (List.mem_singleton.mpr rfl) k inLast j (Nat.zero_le j) (by omega)
      have small : ¬2 ≤ last.size := by
        intro two
        obtain ⟨k, k', different, inLast, inLast'⟩ := here.1.two_keys bit two
        exact different ((only k inLast).trans (only k' inLast').symm)
      have two := full last isLast
      obtain ⟨key, value, isLeaf⟩ := here.1.eq_leaf bit (by omega)
      refine ⟨value, ?_⟩
      rw [isLast, isLeaf, only key (isLeaf ▸ (hasKey_leaf ..).mpr rfl)]
  · rintro ⟨value, isLast⟩
    have inList := List.mem_of_getLast? isLast
    refine ⟨⟨_, inList, (hasKey_leaf ..).mpr rfl⟩, ?_⟩
    rintro far ⟨s, member, has⟩ different
    obtain ⟨front, cut⟩ := List.getLast?_eq_some_iff.mp isLast
    subst cut
    obtain ⟨awayFront, follows, -⟩ := (TreeUpdate.siblings_append ..).mp away
    rcases List.mem_append.mp member with inFront | inBack
    · refine nearer_of_follows awayFront inFront has fun j early => ?_
      exact follows _ (List.mem_singleton.mpr rfl) near ((hasKey_leaf ..).mpr rfl) j (Nat.zero_le j)
        (by omega)
    · rw [List.mem_singleton.mp inBack] at has
      exact absurd ((hasKey_leaf ..).mp has).symm different

/-- The path ends at a leaf iff its key is nearer than all others. -/
theorem nearest_iff_stop {siblings : List (SparseTree K V)} {stop : SparseTree K V}
    (canonical : Canonical bit 0 (plug dir 0 siblings stop))
    (kind : stop = .empty ∨ ∃ k v, stop = .leaf k v) (near : K) :
    ((plug dir 0 siblings stop).HasKey near ∧
      ∀ far, (plug dir 0 siblings stop).HasKey far → far ≠ near → Nearer bit dir near far) ↔
    ∃ value, stop = .leaf near value := by
  obtain ⟨away, keeps, -, full⟩ := (canonical_plug ..).mp canonical
  constructor
  · rintro ⟨has, nearest⟩
    rcases (hasKey_plug ..).mp has with ⟨s, member, inS⟩ | inStop
    · exfalso
      rcases kind with rfl | ⟨k, v, rfl⟩
      · rcases List.eq_nil_or_concat siblings with rfl | ⟨front, last, cut⟩
        · simp at member
        · rw [List.concat_eq_append] at cut
          subst cut
          obtain ⟨-, follows, here⟩ := (TreeUpdate.siblings_append ..).mp away
          have two := full last List.getLast?_concat
          obtain ⟨k, k', different, inLast, inLast'⟩ :=
            here.1.two_keys bit (by simpa [SparseTree.size] using two)
          have clash (far : K) (inLast : last.HasKey far) : far = near := by
            by_contra apart
            refine not_nearer away member inS ?_ (nearest far
              ((hasKey_plug ..).mpr (Or.inl ⟨last, by simp, inLast⟩)) apart)
            intro j early
            rw [List.length_append, List.length_singleton] at early
            exact follows last (List.mem_singleton.mpr rfl) far inLast j (Nat.zero_le j) (by omega)
          exact different ((clash k inLast).trans (clash k' inLast').symm)
      · have atEnd : SparseTree.HasKey k (.leaf k v : SparseTree K V) := (hasKey_leaf ..).mpr rfl
        have follows (j : Nat) (early : j < siblings.length) : bit k j = dir j :=
          keeps k atEnd j (Nat.zero_le j) (by omega)
        by_cases same : k = near
        · obtain ⟨turn, below, turned, -⟩ := exists_turn away member inS
          simp only [Nat.zero_add] at turned
          exact turned (same ▸ follows turn below)
        · exact not_nearer away member inS (fun j early => follows j (by omega))
            (nearest k ((hasKey_plug ..).mpr (Or.inr atEnd)) same)
    · rcases kind with rfl | ⟨k, v, rfl⟩
      · exact absurd inStop (hasKey_empty near)
      · exact ⟨v, by rw [(hasKey_leaf ..).mp inStop]⟩
  · rintro ⟨value, rfl⟩
    refine ⟨(hasKey_plug ..).mpr (Or.inr ((hasKey_leaf ..).mpr rfl)), fun far has different => ?_⟩
    rcases (hasKey_plug ..).mp has with ⟨s, member, inS⟩ | inStop
    · exact nearer_of_follows away member inS fun j early =>
        keeps near ((hasKey_leaf ..).mpr rfl) j (Nat.zero_le j) (by omega)
    · exact absurd ((hasKey_leaf ..).mp inStop).symm different

/-- The path ends at a leaf that would take its next turn as well iff the leaf's key outlasts all
others, and takes the first turn where there is no other. -/
theorem outlasts_iff_stop {siblings : List (SparseTree K V)} {stop : SparseTree K V}
    (canonical : Canonical bit 0 (plug dir 0 siblings stop))
    (kind : stop = .empty ∨ ∃ k v, stop = .leaf k v) (near : K) :
    ((plug dir 0 siblings stop).HasKey near ∧ bit near 0 = dir 0 ∧
      ∀ far, (plug dir 0 siblings stop).HasKey far → far ≠ near → Outlasts bit dir near far) ↔
    ∃ value, stop = .leaf near value ∧ bit near siblings.length = dir siblings.length := by
  obtain ⟨away, keeps, -, -⟩ := (canonical_plug ..).mp canonical
  constructor
  · rintro ⟨has, first, outlasts⟩
    obtain ⟨value, isLeaf⟩ := (nearest_iff_stop canonical kind near).mp
      ⟨has, fun far inTree different => (outlasts far inTree different).nearer⟩
    refine ⟨value, isLeaf, ?_⟩
    rcases List.eq_nil_or_concat siblings with rfl | ⟨front, last, cut⟩
    · exact first
    · rw [List.concat_eq_append] at cut
      subst cut
      -- a key of the deepest sibling keeps to the path up to its last turn
      obtain ⟨-, follows, here⟩ := (TreeUpdate.siblings_append ..).mp away
      have positive := here.1.size_pos bit (TreeUpdate.last_ne_empty bit dir canonical kind List.getLast?_concat)
      obtain ⟨far, inLast⟩ := exists_hasKey positive
      have turned := here.2.1 far inLast
      have lower : SparseTree.HasKey near stop := isLeaf ▸ (hasKey_leaf ..).mpr rfl
      have different : far ≠ near := by
        rintro rfl
        have taken := keeps far lower front.length (Nat.zero_le _) (by simp)
        rw [Nat.zero_add] at turned
        rw [taken] at turned
        simp at turned
      obtain ⟨i, leaves, kept⟩ := outlasts far ((hasKey_plug ..).mpr (Or.inl ⟨last, by simp, inLast⟩)) different
      have late : front.length ≤ i := by
        by_contra early
        exact leaves (follows last (List.mem_singleton.mpr rfl) far inLast i (Nat.zero_le i) (by omega))
      rw [List.length_append, List.length_singleton]
      exact kept _ (by omega)
  · rintro ⟨value, rfl, next⟩
    have here : SparseTree.HasKey near (.leaf near value : SparseTree K V) := (hasKey_leaf ..).mpr rfl
    have takes (j : Nat) (early : j ≤ siblings.length) : bit near j = dir j := by
      rcases Nat.lt_or_eq_of_le early with below | rfl
      · exact keeps near here j (Nat.zero_le j) (by omega)
      · exact next
    refine ⟨(hasKey_plug ..).mpr (Or.inr here), takes 0 (Nat.zero_le _), ?_⟩
    intro far has different
    rcases (hasKey_plug ..).mp has with ⟨s, member, inS⟩ | inStop
    · obtain ⟨turn, below, turned, -⟩ := exists_turn away member inS
      rw [Nat.zero_add] at turned
      exact ⟨turn, turned, fun j early => takes j (by omega)⟩
    · exact absurd ((hasKey_leaf ..).mp inStop).symm different

end Nearest

end PrivatePayments.Library
