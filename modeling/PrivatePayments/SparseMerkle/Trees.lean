import PrivatePayments.AspNonMembership.Insert
import PrivatePayments.Library.Nearest
import PrivatePayments.SparseMerkle.Prover

/-!
The sparse tree that both programs keep in their maps: the path of a key in it, what an operation
makes of it, and the answers read off it.
-/

namespace PrivatePayments.SparseMerkle
open Bn254 Poseidon2 Library SparseTree TreePath
open AspNonMembership (KeyTree keyBit Extension grown eq_of_keyBits exists_extension)
open AspNonMembership.KeyTree

section Bits

def keyBits (k : Fr) : List Bool := (List.range 256).map (keyBit k)

theorem getElem?_keyBits (k : Fr) {i : Nat} (low : i < 256) : (keyBits k)[i]? = some (keyBit k i) := by
  simp [keyBits, low]

theorem drop_keyBits (k : Fr) {d : Nat} (low : d < 256) :
    (keyBits k).drop d = keyBit k d :: (keyBits k).drop (d + 1) := by
  rw [List.drop_eq_getElem_cons (by simpa [keyBits] using low)]
  congr 1
  simp [keyBits]

/-- The zeros pushed are as many as the bits the keys share from level `i` on. -/
theorem pushShared_eq {N : Type} [Zero N] (old new : Fr) {i n : Nat} (siblings : List N) (low : i + n < 256)
    (shared : ∀ j, i ≤ j → j < i + n → keyBit old j = keyBit new j)
    (apart : keyBit old (i + n) ≠ keyBit new (i + n)) :
    pushShared ((keyBits old).drop i) ((keyBits new).drop i) siblings = siblings ++ List.replicate n 0 := by
  induction n generalizing i siblings with
  | zero =>
    have different : (keyBit old i == keyBit new i) = false := by simpa using apart
    rw [drop_keyBits old (by omega), drop_keyBits new (by omega), pushShared, different]
    simp
  | succ n ih =>
    have same : (keyBit old i == keyBit new i) = true := by simpa using shared i (Nat.le_refl i) (by omega)
    rw [drop_keyBits old (by omega), drop_keyBits new (by omega), pushShared, if_pos same,
      ih (i := i + 1) _ (by omega) (fun j low high => shared j (by omega) (by omega))
        (by rw [show i + 1 + n = i + (n + 1) by omega]; exact apart)]
    simp [List.replicate_succ]

end Bits

section Trimming

variable {N : Type} [Zero N] [DecidableEq N]

theorem trimZeros_append_replicate (l : List N) (n : Nat) : trimZeros (l ++ List.replicate n 0) = trimZeros l := by
  induction n with
  | zero => rw [List.replicate_zero, List.append_nil]
  | succ n ih =>
    rw [List.replicate_succ', ← List.append_assoc, trimZeros, List.reverse_append, List.reverse_singleton,
      List.singleton_append, List.dropWhile_cons, if_pos (by simp), ← trimZeros, ih]

theorem trimZeros_eq_self {l : List N} (ends : ∀ last, l.getLast? = some last → last ≠ 0) : trimZeros l = l := by
  rcases List.eq_nil_or_concat l with rfl | ⟨front, last, rfl⟩
  · rfl
  · have nonzero := ends last (by simp)
    rw [List.concat_eq_append, trimZeros, List.reverse_append, List.reverse_singleton, List.singleton_append,
      List.dropWhile_cons, if_neg (by simpa using nonzero), List.reverse_cons, List.reverse_reverse]

end Trimming

structure PathTo (t : KeyTree) (k : Fr) (siblings : List KeyTree) (stop : KeyTree) : Prop where
  cut : t = plug (keyBit k) 0 siblings stop
  kind : stop = .empty ∨ ∃ key value, stop = .leaf key value
  canonical : Canonical keyBit 0 t

theorem exists_pathTo {t : KeyTree} (canonical : Canonical keyBit 0 t) (k : Fr) :
    ∃ siblings stop, PathTo t k siblings stop := by
  obtain ⟨siblings, stop, cut, kind⟩ := exists_plug (keyBit k) 0 t
  exact ⟨siblings, stop, cut, kind, canonical⟩

namespace PathTo

variable {t : KeyTree} {k : Fr} {siblings : List KeyTree} {stop : KeyTree}

theorem canonical_plug (path : PathTo t k siblings stop) : Canonical keyBit 0 (plug (keyBit k) 0 siblings stop) :=
  path.cut ▸ path.canonical

theorem length_le (path : PathTo t k siblings stop) : siblings.length ≤ 254 :=
  TreeUpdate.length_le keyBit (keyBit k) 254 path.canonical_plug (fun _ _ _ _ => eq_of_keyBits)

theorem stop_eq_leaf (path : PathTo t k siblings stop) {v : Fr} (has : t.Has k v) : stop = .leaf k v := by
  obtain ⟨away, -⟩ := (TreePath.canonical_plug ..).mp path.canonical_plug
  rw [path.cut] at has
  rcases (has_plug ..).mp has with ⟨s, member, inS⟩ | inStop
  · exact absurd ⟨v, inS⟩ (away.not_hasKey keyBit member)
  · rcases path.kind with rfl | ⟨k', v', rfl⟩
    · exact inStop.elim
    · rw [inStop.1, inStop.2]

theorem not_hasKey_stop (path : PathTo t k siblings stop) (absent : ¬t.HasKey k) : ¬stop.HasKey k := by
  intro has
  apply absent
  rw [path.cut]
  exact (hasKey_plug ..).mpr (Or.inr has)

theorem canonical_replaced {old : Fr} (path : PathTo t k siblings (.leaf k old)) (v : Fr) :
    Canonical keyBit 0 (plug (keyBit k) 0 siblings (.leaf k v)) :=
  TreeUpdate.canonical_replace keyBit _ path.canonical_plug (TreeUpdate.follows_leaf keyBit _ _ k v) trivial
    (Or.inl (Nat.le_refl _))

/-- The nodes that hang off the path of a key are none of the path, nor its leaf. -/
theorem off_path {old : Fr} (path : PathTo t k siblings (.leaf k old)) {s x : KeyTree} (member : s ∈ siblings)
    (inS : x ∈ s.subtrees) : x ∉ pathNodes (keyBit k) 0 siblings (.leaf k old) ∧ x ≠ .leaf k old := by
  obtain ⟨away, follows, -, full⟩ := (TreePath.canonical_plug ..).mp path.canonical_plug
  constructor
  · intro onPath
    exact (pathNodes_disjoint keyBit (keyBit k) away follows
      (fun last isLast => by have two := full last isLast; omega) onPath).1 s member inS
  · rintro rfl
    exact away.not_hasKey keyBit member (hasKey_of_mem_subtrees inS ((hasKey_leaf ..).mpr rfl))

/-- Every node of the tree with the other value is on the new path or was there before. -/
theorem source {old : Fr} (path : PathTo t k siblings (.leaf k old)) (v : Fr) :
    ∀ x ∈ (plug (keyBit k) 0 siblings (.leaf k v)).subtrees,
      (x = .leaf k v ∨ x ∈ pathNodes (keyBit k) 0 siblings (.leaf k v)) ∨ x ∈ t.subtrees := by
  intro x member
  rcases (mem_subtrees_plug ..).mp member with onPath | off | atEnd
  · exact Or.inl (Or.inr onPath)
  · rw [path.cut]
    exact Or.inr ((mem_subtrees_plug ..).mpr (Or.inr (Or.inl off)))
  · exact Or.inl (Or.inl (List.mem_singleton.mp atEnd))

end PathTo

inductive Op where
  | insert (key value : Fr)
  | update (key newValue : Fr)
  | find (key : Fr)

abbrev Contents := Fr → Option Fr

def Op.apply (m : Contents) : Op → Contents
  | .insert key value => Function.update m key (some value)
  | .update key newValue => Function.update m key (some newValue)
  | .find _ => m

/-- Absent keys are inserted and present ones updated. -/
def Op.Legal (m : Contents) : Op → Prop
  | .insert key _ => m key = none
  | .update key _ => m key ≠ none
  | .find _ => True

/-- What is stored after a sequence of operations from the empty tree. -/
def contents (ops : List Op) : Contents := ops.foldl Op.apply fun _ => none

def Legal (ops : List Op) : Prop := ∀ before op after, ops = before ++ op :: after → op.Legal (contents before)

theorem contents_append (ops : List Op) (op : Op) : contents (ops ++ [op]) = op.apply (contents ops) := by
  rw [contents, List.foldl_append]
  rfl

/-- Of every operation and what came before it: of the earlier ones and of the last one. -/
theorem forall_splits_append {P : List Op → Op → Prop} {ops : List Op} {op : Op} :
    (∀ before o after, ops ++ [op] = before ++ o :: after → P before o) ↔
      (∀ before o after, ops = before ++ o :: after → P before o) ∧ P ops op := by
  constructor
  · intro every
    refine ⟨fun before o after cut => ?_, every ops op [] rfl⟩
    exact every before o (after ++ [op]) (by rw [cut, List.append_assoc, List.cons_append])
  · rintro ⟨earlier, last⟩ before o after cut
    rcases List.eq_nil_or_concat after with rfl | ⟨front, final, rfl⟩
    · obtain ⟨rfl, same⟩ := List.append_inj' cut rfl
      cases same
      exact last
    · rw [List.concat_eq_append, ← List.cons_append, ← List.append_assoc] at cut
      exact earlier before o front (List.append_inj' cut rfl).1

structure Denotes (t : KeyTree) (m : Contents) : Prop where
  canonical : Canonical keyBit 0 t
  has : ∀ k v, t.Has k v ↔ m k = some v

namespace Denotes

variable {t : KeyTree} {m : Contents} {k : Fr} {siblings extra : List KeyTree} {stop : KeyTree}

theorem empty : Denotes .empty (contents []) where
  canonical := trivial
  has := fun k v => iff_of_false id (by simp [contents])

theorem hasKey_iff (denotes : Denotes t m) (k : Fr) : t.HasKey k ↔ m k ≠ none := by
  rw [Option.ne_none_iff_exists']
  exact exists_congr (denotes.has k)

theorem unique {t' : KeyTree} (denotes : Denotes t m) (denotes' : Denotes t' m) : t = t' :=
  denotes.canonical.ext keyBit denotes'.canonical fun k v => (denotes.has k v).trans (denotes'.has k v).symm

theorem inserted (denotes : Denotes t m) (path : PathTo t k siblings stop)
    (extension : Extension k siblings stop extra) (absent : m k = none) (v : Fr) :
    Denotes (grown k v siblings extra) ((Op.insert k v).apply m) where
  canonical := extension.canonical v path.canonical_plug
  has := by
    intro k' v'
    rw [extension.has_grown, ← path.cut, denotes.has, Op.apply]
    by_cases same : k' = k
    · subst same
      simp [absent]
    · simp [Function.update_of_ne same, Ne.symm same]

theorem replaced {old : Fr} (denotes : Denotes t m) (path : PathTo t k siblings (.leaf k old)) (v : Fr) :
    Denotes (plug (keyBit k) 0 siblings (.leaf k v)) ((Op.update k v).apply m) where
  canonical := path.canonical_replaced v
  has := by
    intro k' v'
    obtain ⟨away, -⟩ := (TreePath.canonical_plug ..).mp path.canonical_plug
    have before := denotes.has k' v'
    rw [path.cut, has_plug] at before
    rw [has_plug, Op.apply]
    by_cases same : k' = k
    · subst same
      have none : ¬∃ s ∈ siblings, s.Has k' v' := by
        rintro ⟨s, member, has⟩
        exact away.not_hasKey keyBit member ⟨v', has⟩
      simp [none, Has]
    · rw [Function.update_of_ne same, ← before]
      simp [Has, Ne.symm same]

end Denotes

def FindResult.map {N M : Type} (f : N → M) (r : FindResult N) : FindResult M where
  found := r.found
  siblings := r.siblings.map f
  foundValue := f r.foundValue
  notFoundKey := f r.notFoundKey
  notFoundValue := f r.notFoundValue
  isOld0 := r.isOld0

def SMTResult.map {N M : Type} (f : N → M) (r : SMTResult N) : SMTResult M where
  oldRoot := f r.oldRoot
  newRoot := f r.newRoot
  siblings := r.siblings.map f
  oldKey := f r.oldKey
  oldValue := f r.oldValue
  newKey := f r.newKey
  newValue := f r.newValue
  isOld0 := r.isOld0

section Answers

variable (H : Hasher)

def endAnswer (k : Fr) : KeyTree → FindResult Fr
  | .leaf key value =>
      if key = k then
        { found := true, siblings := [], foundValue := value, notFoundKey := 0, notFoundValue := 0, isOld0 := false }
      else
        { found := false, siblings := [], foundValue := 0, notFoundKey := key, notFoundValue := value, isOld0 := false }
  | _ => { found := false, siblings := [], foundValue := 0, notFoundKey := k, notFoundValue := 0, isOld0 := true }

def findAnswer (k : Fr) (siblings : List KeyTree) (stop : KeyTree) : FindResult Fr :=
  { endAnswer k stop with siblings := siblings.map (hash H) }

def insertAnswer (k v : Fr) (siblings extra : List KeyTree) (stop : KeyTree) (reported : List KeyTree) :
    SMTResult Fr where
  oldRoot := hash H (plug (keyBit k) 0 siblings stop)
  newRoot := hash H (grown k v siblings extra)
  siblings := reported.map (hash H)
  oldKey := (endAnswer k stop).notFoundKey
  oldValue := (endAnswer k stop).notFoundValue
  newKey := k
  newValue := v
  isOld0 := (endAnswer k stop).isOld0

def updateAnswer (k old v : Fr) (siblings : List KeyTree) : SMTResult Fr where
  oldRoot := hash H (plug (keyBit k) 0 siblings (.leaf k old))
  newRoot := hash H (plug (keyBit k) 0 siblings (.leaf k v))
  siblings := siblings.map (hash H)
  oldKey := k
  oldValue := old
  newKey := k
  newValue := v
  isOld0 := false

theorem endAnswer_leaf_of_ne {k old oldValue : Fr} (different : old ≠ k) :
    endAnswer k (.leaf old oldValue) =
      { found := false, siblings := [], foundValue := 0, notFoundKey := old, notFoundValue := oldValue,
        isOld0 := false } := by
  rw [endAnswer, if_neg different]

theorem endAnswer_leaf_self (k v : Fr) : endAnswer k (.leaf k v) =
    { found := true, siblings := [], foundValue := v, notFoundKey := 0, notFoundValue := 0, isOld0 := false } := by
  rw [endAnswer, if_pos rfl]

theorem found_endAnswer {k : Fr} {stop : KeyTree} (missing : ¬stop.HasKey k) : (endAnswer k stop).found = false := by
  cases stop with
  | leaf key value => rw [endAnswer, if_neg fun same => missing ((hasKey_leaf ..).mpr same)]
  | empty => rfl
  | node left right => rfl

/-- The hashes of the siblings end in no zero. -/
theorem last_hash_ne_zero {inPlay : Set Query} (free : CollisionFree H inPlay) {k : Fr} {siblings : List KeyTree}
    {stop : KeyTree} (canonical : Canonical keyBit 0 (plug (keyBit k) 0 siblings stop))
    (kind : stop = .empty ∨ ∃ key value, stop = .leaf key value)
    (within : ∀ q ∈ queries H (plug (keyBit k) 0 siblings stop), q ∈ inPlay) :
    ∀ last, (siblings.map (hash H)).getLast? = some last → last ≠ 0 := by
  intro last isLast
  rw [List.getLast?_map, Option.map_eq_some_iff] at isLast
  obtain ⟨sibling, isLast, rfl⟩ := isLast
  have nonempty := TreeUpdate.last_ne_empty keyBit _ canonical kind isLast
  exact hash_ne_zero free nonempty fun q member =>
    within q (queries_of_sibling (List.mem_of_getLast? isLast) q member)

end Answers

end PrivatePayments.SparseMerkle
