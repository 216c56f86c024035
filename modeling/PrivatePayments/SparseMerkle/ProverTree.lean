import PrivatePayments.SparseMerkle.Trees

/-!
The client's tree follows the sparse tree: its map holds every node, and each operation answers
with the hashes along the path.
-/

namespace PrivatePayments.SparseMerkle.Prover
open Bn254 Poseidon2 Library SparseTree TreePath ContentStore
open AspNonMembership (KeyTree keyBit Extension grown)
open AspNonMembership.KeyTree

section Bits

theorem limb_bits (v i : Nat) : ((List.range 64).map fun j => (v / 2 ^ (64 * i) % 2 ^ 64) >>> j &&& 1 == 1) =
    (List.range 64).map fun j => v.testBit (64 * i + j) := by
  apply List.map_congr_left
  intro j low
  have bit (x : Nat) : ((x >>> j &&& 1) == 1) = x.testBit j := by
    rw [Nat.testBit_eq_decide_div_mod_eq, Nat.and_one_is_mod, Nat.shiftRight_eq_div_pow, beq_eq_decide]
  rw [bit, Nat.testBit_mod_two_pow, Nat.testBit_div_two_pow, decide_eq_true (List.mem_range.mp low), Bool.true_and,
    Nat.add_comm]

theorem map_range_mul {β : Type} (f : Nat → β) (m n : Nat) : (List.range (m * n)).map f =
    (List.range m).flatMap fun i => (List.range n).map fun j => f (n * i + j) := by
  induction m with
  | zero => simp
  | succ m ih =>
    rw [Nat.succ_mul, List.range_add, List.map_append, ih, List.range_succ, List.flatMap_append, List.map_map,
      List.flatMap_singleton, Nat.mul_comm m n]
    rfl

theorem fieldToBits_eq (k : Fr) : fieldToBits k = keyBits k := by
  have pieces : (List.range 256).map (keyBit k) =
      (List.range 4).flatMap fun i => (List.range 64).map fun j => k.val.testBit (64 * i + j) :=
    map_range_mul (keyBit k) 4 64
  rw [keyBits, pieces, fieldToBits, limbs, List.flatMap_map]
  simp only [limb_bits]
  rw [List.take_of_length_le (by simp)]

end Bits

variable {H : Hasher} {inPlay : Set Query}

def nodeOf (H : Hasher) : KeyTree → Node
  | .empty => .empty
  | .leaf key value => .leaf key value
  | .node left right => .internal (hash H left) (hash H right)

theorem nodeOf_branch (b : Bool) (sibling t : KeyTree) : nodeOf H (branch b sibling t) =
    .internal (if b then hash H sibling else hash H t) (if b then hash H t else hash H sibling) := by
  cases b <;> rfl

theorem hash_branch (b : Bool) (sibling t : KeyTree) : hash H (branch b sibling t) =
    H.compress (if b then hash H sibling else hash H t) (if b then hash H t else hash H sibling) := by
  cases b <;> rfl

abbrev Stored (H : Hasher) (db : Fr → Option Node) (t : KeyTree) : Prop :=
  Holds (hash H) (nodeOf H) db {x | x ∈ t.subtrees}

structure Keeps (H : Hasher) (s : SparseMerkleTree) (t : KeyTree) : Prop where
  root : s.root = hash H t
  stored : Stored H s.db t

theorem keeps_new : Keeps H .new .empty where
  root := rfl
  stored := fun x member => by cases member

section Find

variable {s : SparseMerkleTree} {t : KeyTree} {k : Fr} {siblings : List KeyTree} {stop : KeyTree}

theorem findInternal_end (free : CollisionFree H inPlay) (bit : Bool) (bits : List Bool)
    (kind : stop = .empty ∨ ∃ key value, stop = .leaf key value) (stored : Stored H s.db stop)
    (within : ∀ q ∈ queries H stop, q ∈ inPlay) :
    s.findInternal k (bit :: bits) (hash H stop) = .ok (endAnswer k stop) := by
  rcases kind with rfl | ⟨key, value, rfl⟩
  · rw [SparseMerkleTree.findInternal, if_pos (show hash H .empty = 0 from rfl), endAnswer]
    intro key value impossible
    cases impossible
  · have nonzero := hash_ne_zero free (t := .leaf key value) (by simp) within
    have filed : s.db (hash H (.leaf key value)) = some (.leaf key value) :=
      stored (.leaf key value) (List.mem_singleton.mpr rfl)
    rw [SparseMerkleTree.findInternal, if_neg nonzero, SparseMerkleTree.getNode, if_neg nonzero, filed]
    by_cases same : key = k <;> simp [endAnswer, same]

/-- `find_internal` follows the key's bits and returns the siblings it passes, the deepest first. -/
theorem findInternal_plug (free : CollisionFree H inPlay) (d : Nat)
    (kind : stop = .empty ∨ ∃ key value, stop = .leaf key value) (short : d + siblings.length < 256)
    (stored : Stored H s.db (plug (keyBit k) d siblings stop))
    (within : ∀ q ∈ queries H (plug (keyBit k) d siblings stop), q ∈ inPlay) :
    s.findInternal k ((keyBits k).drop d) (hash H (plug (keyBit k) d siblings stop)) =
      .ok { endAnswer k stop with siblings := (siblings.map (hash H)).reverse } := by
  induction siblings generalizing d with
  | nil =>
    have last : (endAnswer k stop).siblings = [] := by
      rcases kind with rfl | ⟨key, value, rfl⟩
      · rfl
      · rw [endAnswer]
        split <;> rfl
    rw [drop_keyBits k (by simpa using short), plug, findInternal_end free _ _ kind stored within]
    rw [List.map_nil, List.reverse_nil, ← last]
  | cons sibling rest ih =>
    rw [List.length_cons] at short
    have nonempty : plug (keyBit k) d (sibling :: rest) stop ≠ .empty := by
      cases turn : keyBit k d <;> simp [plug, branch, turn]
    have nonzero := hash_ne_zero free nonempty within
    have filed := stored _ (mem_subtrees_self nonempty)
    have later := ih (d + 1) (by omega)
      (fun x member => stored x ((mem_subtrees_branch ..).mpr (Or.inr (Or.inr member))))
      (fun q member => within q ((mem_queries_branch ..).mpr (Or.inr (Or.inr member))))
    rw [drop_keyBits k (by omega), SparseMerkleTree.findInternal, if_neg nonzero, SparseMerkleTree.getNode,
      if_neg nonzero, filed, plug, nodeOf_branch]
    cases turn : keyBit k d with
    | false =>
      simp only [Bool.false_eq_true, ↓reduceIte, later]
      simp [bind, pure, Except.bind, Except.pure]
    | true =>
      simp only [↓reduceIte, later]
      simp [bind, pure, Except.bind, Except.pure]

theorem find_eq (free : CollisionFree H inPlay) (keeps : Keeps H s t) (path : PathTo t k siblings stop)
    (within : ∀ q ∈ queries H t, q ∈ inPlay) : s.find k = .ok (findAnswer H k siblings stop) := by
  have short := path.length_le
  have stored := keeps.stored
  rw [path.cut] at stored within
  have answer := findInternal_plug free 0 path.kind (by omega) stored within
  rw [SparseMerkleTree.find, keeps.root, fieldToBits_eq, path.cut]
  rw [List.drop_zero] at answer
  rw [answer]
  simp only [bind, pure, Except.bind, Except.pure, List.reverse_reverse, findAnswer]

end Find

section Build

variable {db : Fr → Option Node} {root : Fr} {k : Fr} {stop : KeyTree}

abbrev filePath (H : Hasher) (db : Fr → Option Node) (nodes : List KeyTree) : Fr → Option Node :=
  applyAll (hash H) (nodeOf H) db (nodes.reverse.map Edit.add)

theorem filePath_cons (db : Fr → Option Node) (x : KeyTree) (nodes : List KeyTree) :
    filePath H db (x :: nodes) = Function.update (filePath H db nodes) (hash H x) (some (nodeOf H x)) := by
  rw [filePath, List.reverse_cons, List.map_append, applyAll_append]
  rfl

theorem buildPath_eq (free : CollisionFree H inPlay) (d : Nat) (siblings : List KeyTree)
    (short : d + siblings.length ≤ 256) (within : ∀ q ∈ queries H (plug (keyBit k) d siblings stop), q ∈ inPlay) :
    ((siblings.map (hash H)).zipIdx d).foldrM (SparseMerkleTree.buildStep H (keyBits k)) (⟨db, root⟩, hash H stop) =
      .ok (⟨filePath H db (pathNodes (keyBit k) d siblings stop), root⟩, hash H (plug (keyBit k) d siblings stop)) := by
  induction siblings generalizing d with
  | nil => rfl
  | cons sibling rest ih =>
    rw [List.length_cons] at short
    have later := ih (d + 1) (by omega)
      (fun q member => within q ((mem_queries_branch ..).mpr (Or.inr (Or.inr member))))
    have nonempty : plug (keyBit k) d (sibling :: rest) stop ≠ .empty := by
      cases turn : keyBit k d <;> simp [plug, branch, turn]
    have nonzero := hash_ne_zero free nonempty within
    rw [plug, hash_branch] at nonzero
    rw [List.map_cons, List.zipIdx_cons, List.foldrM_cons, later, pathNodes, filePath_cons, plug, nodeOf_branch,
      hash_branch]
    change SparseMerkleTree.buildStep H (keyBits k) (hash H sibling, d) _ = _
    rw [SparseMerkleTree.buildStep, getElem?_keyBits k (by omega)]
    simp only [SparseMerkleTree.putNode, ne_eq, nonzero, not_false_eq_true, if_true]

end Build

section Operations

variable {s : SparseMerkleTree} {t : KeyTree} {k : Fr} {siblings extra : List KeyTree} {stop : KeyTree}

abbrev leafFiled (H : Hasher) (db : Fr → Option Node) (k v : Fr) (siblings : List KeyTree) : Fr → Option Node :=
  filePath H (Function.update db (hash H (.leaf k v)) (some (nodeOf H (.leaf k v))))
    (pathNodes (keyBit k) 0 siblings (.leaf k v))

theorem buildPath_leaf (free : CollisionFree H inPlay) (s : SparseMerkleTree) (v : Fr) (siblings : List KeyTree)
    (short : siblings.length ≤ 254)
    (within : ∀ q ∈ queries H (plug (keyBit k) 0 siblings (.leaf k v)), q ∈ inPlay) :
    SparseMerkleTree.buildPath H (keyBits k) (siblings.map (hash H))
        (s.putNode (poseidon2HashLeaf H k v) (.leaf k v)) (poseidon2HashLeaf H k v) =
      .ok (⟨leafFiled H s.db k v siblings, s.root⟩, hash H (plug (keyBit k) 0 siblings (.leaf k v))) := by
  have nonzero : poseidon2HashLeaf H k v ≠ 0 :=
    hash_ne_zero free (t := .leaf k v) (by simp) fun q member => within q (queries_of_stop q member)
  rw [SparseMerkleTree.putNode, if_pos nonzero]
  exact buildPath_eq free 0 siblings (by omega) within

/-- The map holds the tree with the new leaf if what is not on its path was held before. -/
theorem Keeps.leafFiled (free : CollisionFree H inPlay) (keeps : Keeps H s t) {v : Fr}
    (source : ∀ x ∈ (plug (keyBit k) 0 siblings (.leaf k v)).subtrees,
      (x = .leaf k v ∨ x ∈ pathNodes (keyBit k) 0 siblings (.leaf k v)) ∨ x ∈ t.subtrees)
    (within : ∀ q ∈ queries H (plug (keyBit k) 0 siblings (.leaf k v)), q ∈ inPlay) :
    Stored H (leafFiled H s.db k v siblings) (plug (keyBit k) 0 siblings (.leaf k v)) := by
  have inj : Set.InjOn (hash H) (InPlay H inPlay) := fun _ left _ right same => hash_injective free left right same
  have inside (x : KeyTree) (member : x ∈ (plug (keyBit k) 0 siblings (.leaf k v)).subtrees) : x ∈ InPlay H inPlay :=
    fun q asked => within q (queries_of_mem_subtrees H member q asked)
  have added (x : KeyTree) : .add x ∈ (Edit.add (.leaf k v : KeyTree) ::
      (pathNodes (keyBit k) 0 siblings (.leaf k v)).reverse.map Edit.add) ↔
        x = .leaf k v ∨ x ∈ pathNodes (keyBit k) 0 siblings (.leaf k v) := by
    simp
  have edits : Prover.leafFiled H s.db k v siblings = applyAll (hash H) (nodeOf H) s.db (Edit.add (.leaf k v) ::
      (pathNodes (keyBit k) 0 siblings (.leaf k v)).reverse.map Edit.add) := rfl
  rw [edits]
  apply keeps.stored.applyAll inj
  · intro edit touched
    have isAdd : ∃ x, edit = .add x := by
      rcases List.mem_cons.mp touched with rfl | later
      · exact ⟨_, rfl⟩
      · obtain ⟨x, -, rfl⟩ := List.mem_map.mp later
        exact ⟨x, rfl⟩
    obtain ⟨x, rfl⟩ := isAdd
    apply inside x
    rcases (added x).mp touched with rfl | onPath
    · exact (mem_subtrees_plug ..).mpr (Or.inr (Or.inr (List.mem_singleton.mpr rfl)))
    · exact (mem_subtrees_plug ..).mpr (Or.inl onPath)
  · exact inside
  · intro x member
    exact (source x member).imp_left (added x).mpr
  · intro x _
    simp

theorem extendedSiblings_eq (extension : Extension k siblings stop extra) :
    SparseMerkleTree.extendedSiblings H (keyBits k) (findAnswer H k siblings stop) =
      (siblings ++ extra).map (hash H) := by
  rcases extension.shape with ⟨rfl, rfl⟩ | ⟨old, oldValue, n, rfl, different, rfl, low, shared, apart⟩
  · rw [List.append_nil]
    rfl
  · rw [SparseMerkleTree.extendedSiblings, findAnswer, endAnswer_leaf_of_ne different]
    simp only [Bool.not_false, if_true, fieldToBits_eq, List.length_map,
      pushShared_eq old k (siblings.map (hash H)) (show siblings.length + n < 256 by omega) shared apart]
    simp [KeyTree.hash, poseidon2HashLeaf]

/-- The siblings an insertion reports: trimming before popping keeps the zeros pushed. -/
theorem reported_eq (free : CollisionFree H inPlay) (path : PathTo t k siblings stop)
    (extension : Extension k siblings stop extra) (v : Fr)
    (within : ∀ q ∈ queries H (grown k v siblings extra), q ∈ inPlay) :
    (if !(endAnswer k stop).isOld0 && !(trimZeros ((siblings ++ extra).map (hash H))).isEmpty then
        (trimZeros ((siblings ++ extra).map (hash H))).dropLast
      else trimZeros ((siblings ++ extra).map (hash H))) = (siblings ++ extra.dropLast).map (hash H) := by
  rw [trimZeros_eq_self (last_hash_ne_zero H free (extension.canonical v path.canonical_plug)
    (Or.inr ⟨k, v, rfl⟩) within)]
  rcases extension.shape with ⟨rfl, rfl⟩ | ⟨old, oldValue, n, rfl, different, rfl, -, -, -⟩
  · rfl
  · rw [endAnswer_leaf_of_ne different, ← List.append_assoc, List.dropLast_concat, List.map_append, List.map_singleton,
      List.dropLast_concat]
    simp

theorem insert_eq (free : CollisionFree H inPlay) (keeps : Keeps H s t) (path : PathTo t k siblings stop)
    (extension : Extension k siblings stop extra) (absent : ¬t.HasKey k) (v : Fr)
    (within : ∀ q ∈ queries H t, q ∈ inPlay) (within' : ∀ q ∈ queries H (grown k v siblings extra), q ∈ inPlay) :
    ∃ s', s.insert H k v = .ok (insertAnswer H k v siblings extra stop (siblings ++ extra.dropLast), s') ∧
      Keeps H s' (grown k v siblings extra) := by
  have found := find_eq free keeps path within
  have missing : (findAnswer H k siblings stop).found = false := found_endAnswer (path.not_hasKey_stop absent)
  have built := buildPath_leaf free s v (siblings ++ extra) (extension.length_le path.length_le) within'
  have source := extension.source v
  rw [← path.cut] at source
  refine ⟨⟨leafFiled H s.db k v (siblings ++ extra), hash H (grown k v siblings extra)⟩, ?_, rfl,
    keeps.leafFiled free source within'⟩
  rw [SparseMerkleTree.insert, found]
  simp only [bind, Except.bind, missing, Bool.false_eq_true, if_false, pure, Except.pure, fieldToBits_eq,
    extendedSiblings_eq extension, built, keeps.root]
  have ended : (findAnswer H k siblings stop).isOld0 = (endAnswer k stop).isOld0 := rfl
  rw [ended, reported_eq free path extension v within', path.cut]
  rfl

theorem update_eq (free : CollisionFree H inPlay) (keeps : Keeps H s t) {old : Fr}
    (path : PathTo t k siblings (.leaf k old)) (v : Fr) (within : ∀ q ∈ queries H t, q ∈ inPlay)
    (within' : ∀ q ∈ queries H (plug (keyBit k) 0 siblings (.leaf k v)), q ∈ inPlay) :
    ∃ s', s.update H k v = .ok (updateAnswer H k old v siblings, s') ∧
      Keeps H s' (plug (keyBit k) 0 siblings (.leaf k v)) := by
  have found := find_eq free keeps path within
  have built := buildPath_leaf free s v siblings path.length_le within'
  have present : (findAnswer H k siblings (.leaf k old)).found = true := by
    rw [findAnswer, endAnswer_leaf_self]
  have reported : (findAnswer H k siblings (.leaf k old)).siblings = siblings.map (hash H) := rfl
  refine ⟨⟨leafFiled H s.db k v siblings, hash H (plug (keyBit k) 0 siblings (.leaf k v))⟩, ?_, rfl,
    keeps.leafFiled free (path.source v) within'⟩
  rw [SparseMerkleTree.update, found]
  simp only [bind, Except.bind, present, Bool.not_true, Bool.false_eq_true, if_false, pure, Except.pure, fieldToBits_eq,
    reported, built, keeps.root]
  rw [path.cut, findAnswer, endAnswer_leaf_self]
  rfl

end Operations

end PrivatePayments.SparseMerkle.Prover
