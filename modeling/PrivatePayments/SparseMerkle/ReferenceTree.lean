import PrivatePayments.SparseMerkle.Reference
import PrivatePayments.SparseMerkle.Trees

/-!
The reference tree follows the sparse tree too, in big integers: old paths are removed from its map,
and nothing of them is part of the new tree.
-/

namespace PrivatePayments.SparseMerkle.Reference
open Bn254 Poseidon2 Library SparseTree TreePath ContentStore
open AspNonMembership (KeyTree keyBit Extension grown)
open AspNonMembership.KeyTree

section Numbers

@[simp] theorem fpBn256ToBigInt_zero : fpBn256ToBigInt 0 = 0 := rfl

theorem fpBn256ToBigInt_injective : Function.Injective fpBn256ToBigInt :=
  fun _ _ same => ZMod.val_injective _ (Int.ofNat_inj.mp same)

theorem fpBn256ToBigInt_eq_zero {x : Fr} : fpBn256ToBigInt x = 0 ↔ x = 0 :=
  ⟨fun zero => fpBn256ToBigInt_injective zero, fun zero => zero ▸ rfl⟩

theorem cast_fpBn256ToBigInt (x : Fr) : ((fpBn256ToBigInt x : Int) : Fr) = x := by
  rw [fpBn256ToBigInt, Int.cast_natCast, ZMod.natCast_zmod_val]

theorem poseidon2CompressionSparse_eq (H : Hasher) (left right : Fr) :
    poseidon2CompressionSparse H (fpBn256ToBigInt left) (fpBn256ToBigInt right) =
      fpBn256ToBigInt (H.compress left right) := by
  rw [poseidon2CompressionSparse, cast_fpBn256ToBigInt, cast_fpBn256ToBigInt]

theorem poseidon2Hash3Sparse_eq (H : Hasher) (key value : Fr) :
    poseidon2Hash3Sparse H (fpBn256ToBigInt key) (fpBn256ToBigInt value) = fpBn256ToBigInt (H.hash2 key value 1) := by
  rw [poseidon2Hash3Sparse, cast_fpBn256ToBigInt, cast_fpBn256ToBigInt]

theorem splitBitsLoop_eq (n v : Nat) : splitBitsLoop n (v : BigInt) = (List.range n).map v.testBit := by
  induction n generalizing v with
  | zero => rfl
  | succ n ih =>
    have half : (v : BigInt) / 2 = ((v / 2 : Nat) : BigInt) := by norm_num
    have odd : (v : Int) % 2 = 1 ↔ v % 2 = 1 := by omega
    have lowest : ((v : BigInt) % 2 == 1) = v.testBit 0 := by
      rw [Nat.testBit_zero, beq_eq_decide]
      exact decide_eq_decide.mpr odd
    rw [splitBitsLoop, half, ih, lowest, List.range_succ_eq_map, List.map_cons, List.map_map]
    congr 1
    apply List.map_congr_left
    intro i _
    simp [Nat.testBit_succ]

theorem splitBits_eq (k : Fr) : splitBits (fpBn256ToBigInt k) = keyBits k :=
  splitBitsLoop_eq 256 k.val

end Numbers

variable {H : Hasher} {inPlay : Set Query}

def hashOf (H : Hasher) (t : KeyTree) : BigInt := fpBn256ToBigInt (hash H t)

def recordOf (H : Hasher) : KeyTree → List BigInt
  | .empty => []
  | .leaf key value => [1, fpBn256ToBigInt key, fpBn256ToBigInt value]
  | .node left right => [hashOf H left, hashOf H right]

@[simp] theorem hashOf_empty : hashOf H .empty = 0 := rfl

theorem hashOf_eq_zero {t : KeyTree} : hashOf H t = 0 ↔ hash H t = 0 := fpBn256ToBigInt_eq_zero

theorem hashOf_injOn (free : CollisionFree H inPlay) : Set.InjOn (hashOf H) (InPlay H inPlay) :=
  fun _ left _ right same => hash_injective free left right (fpBn256ToBigInt_injective same)

theorem hash3_leaf (H : Hasher) (k v : Fr) :
    poseidon2Hash3Sparse H (fpBn256ToBigInt k) (fpBn256ToBigInt v) = hashOf H (.leaf k v) :=
  poseidon2Hash3Sparse_eq H k v

theorem parentNode_eq (b : Bool) (sibling t : KeyTree) :
    SparseMerkleTree.parentNode H b (hashOf H sibling) (hashOf H t) =
      (hashOf H (branch b sibling t), recordOf H (branch b sibling t)) := by
  cases b
  · rw [SparseMerkleTree.parentNode, if_neg Bool.false_ne_true, hashOf, hashOf, poseidon2CompressionSparse_eq]
    rfl
  · rw [SparseMerkleTree.parentNode, if_pos rfl, hashOf, hashOf, poseidon2CompressionSparse_eq]
    rfl

abbrev Stored (H : Hasher) (db : Records) (t : KeyTree) : Prop :=
  Holds (hashOf H) (recordOf H) db {x | x ∈ t.subtrees}

structure Keeps (H : Hasher) (s : SparseMerkleTree) (t : KeyTree) : Prop where
  root : s.root = hashOf H t
  stored : Stored H s.db t

theorem keeps_new : Keeps H .new .empty where
  root := rfl
  stored := fun x member => by cases member

section Find

variable {s : SparseMerkleTree} {t : KeyTree} {k : Fr} {siblings : List KeyTree} {stop : KeyTree}

theorem findFrom_end (free : CollisionFree H inPlay) {db : Records} (bits : List Bool)
    (kind : stop = .empty ∨ ∃ key value, stop = .leaf key value) (stored : Stored H db stop)
    (within : ∀ q ∈ queries H stop, q ∈ inPlay) :
    SparseMerkleTree.findFrom db (fpBn256ToBigInt k) bits (hashOf H stop) =
      .ok ((endAnswer k stop).map fpBn256ToBigInt) := by
  rcases kind with rfl | ⟨key, value, rfl⟩
  · rw [SparseMerkleTree.findFrom, if_pos hashOf_empty, endAnswer]
    · rfl
    · intro key value impossible
      cases impossible
  · have nonzero : hashOf H (.leaf key value) ≠ 0 :=
      fun zero => hash_ne_zero free (t := .leaf key value) (by simp) within (hashOf_eq_zero.mp zero)
    have filed : db (hashOf H (.leaf key value)) = some (recordOf H (.leaf key value)) :=
      stored (.leaf key value) (List.mem_singleton.mpr rfl)
    rw [SparseMerkleTree.findFrom, if_neg nonzero, filed, recordOf]
    by_cases same : key = k
    · subst same
      simp [endAnswer_leaf_self, FindResult.map]
    · have apart : fpBn256ToBigInt key ≠ fpBn256ToBigInt k := fun equal => same (fpBn256ToBigInt_injective equal)
      simp [endAnswer_leaf_of_ne same, apart, FindResult.map]

theorem findFrom_plug (free : CollisionFree H inPlay) {db : Records} (d : Nat)
    (kind : stop = .empty ∨ ∃ key value, stop = .leaf key value) (short : d + siblings.length ≤ 256)
    (stored : Stored H db (plug (keyBit k) d siblings stop))
    (within : ∀ q ∈ queries H (plug (keyBit k) d siblings stop), q ∈ inPlay) :
    SparseMerkleTree.findFrom db (fpBn256ToBigInt k) ((keyBits k).drop d) (hashOf H (plug (keyBit k) d siblings stop)) =
      .ok ((findAnswer H k siblings stop).map fpBn256ToBigInt) := by
  induction siblings generalizing d with
  | nil =>
    have last : (endAnswer k stop).siblings = [] := by
      rcases kind with rfl | ⟨key, value, rfl⟩
      · rfl
      · rw [endAnswer]
        split <;> rfl
    rw [plug, findFrom_end free _ kind stored within, findAnswer, List.map_nil, ← last]
  | cons sibling rest ih =>
    rw [List.length_cons] at short
    have nonempty : plug (keyBit k) d (sibling :: rest) stop ≠ .empty := by
      cases turn : keyBit k d <;> simp [plug, branch, turn]
    have nonzero : hashOf H (plug (keyBit k) d (sibling :: rest) stop) ≠ 0 :=
      fun zero => hash_ne_zero free nonempty within (hashOf_eq_zero.mp zero)
    have filed := stored _ (mem_subtrees_self nonempty)
    have later := ih (d + 1) (by omega)
      (fun x member => stored x ((mem_subtrees_branch ..).mpr (Or.inr (Or.inr member))))
      (fun q member => within q ((mem_queries_branch ..).mpr (Or.inr (Or.inr member))))
    rw [drop_keyBits k (by omega), SparseMerkleTree.findFrom, if_neg nonzero, filed, plug]
    cases turn : keyBit k d with
    | false =>
      simp only [branch, Bool.false_eq_true, ↓reduceIte, recordOf, Bool.not_false, later]
      rfl
    | true =>
      simp only [branch, ↓reduceIte, recordOf, Bool.not_true, Bool.false_eq_true, later]
      rfl

theorem find_eq (free : CollisionFree H inPlay) (keeps : Keeps H s t) (path : PathTo t k siblings stop)
    (within : ∀ q ∈ queries H t, q ∈ inPlay) :
    s.find (fpBn256ToBigInt k) = .ok ((findAnswer H k siblings stop).map fpBn256ToBigInt) := by
  have short := path.length_le
  have stored := keeps.stored
  rw [path.cut] at stored within
  rw [SparseMerkleTree.find, keeps.root, splitBits_eq, path.cut]
  exact findFrom_plug free 0 path.kind (by omega) stored within

theorem map_hash (nodes : List KeyTree) : (nodes.map (hash H)).map fpBn256ToBigInt = nodes.map (hashOf H) :=
  List.map_map

end Find

section Records

variable {db : Records}

/-- What is handed to `multi_ins` for a node. -/
def filing (H : Hasher) (x : KeyTree) : BigInt × List BigInt := (hashOf H x, recordOf H x)

theorem multiIns_eq (db : Records) (nodes : List KeyTree) :
    multiIns db (nodes.map (filing H)) = applyAll (hashOf H) (recordOf H) db (nodes.map Edit.add) := by
  rw [multiIns, applyAll, List.foldl_map, List.foldl_map]
  rfl

theorem multiDel_eq (db : Records) (nodes : List KeyTree) :
    multiDel db (nodes.map (hashOf H)) = applyAll (hashOf H) (recordOf H) db (nodes.map Edit.drop) := by
  rw [multiDel, applyAll, List.foldl_map, List.foldl_map]
  rfl

theorem holds_multiIns (free : CollisionFree H inPlay) {live : Set KeyTree} (live' : Set KeyTree) {nodes : List KeyTree}
    (holds : Holds (hashOf H) (recordOf H) db live) (touched : ∀ x ∈ nodes, x ∈ InPlay H inPlay)
    (within : live' ⊆ InPlay H inPlay) (source : ∀ x ∈ live', x ∈ nodes ∨ x ∈ live) :
    Holds (hashOf H) (recordOf H) (multiIns db (nodes.map (filing H))) live' := by
  rw [multiIns_eq]
  apply holds.applyAll (hashOf_injOn free)
  · intro edit listed
    obtain ⟨x, member, rfl⟩ := List.mem_map.mp listed
    exact touched x member
  · exact within
  · intro x member
    exact (source x member).imp_left fun listed => List.mem_map_of_mem listed
  · intro x _ listed
    obtain ⟨y, -, impossible⟩ := List.mem_map.mp listed
    cases impossible

theorem holds_multiDel (free : CollisionFree H inPlay) {live : Set KeyTree} (live' : Set KeyTree) {nodes : List KeyTree}
    (holds : Holds (hashOf H) (recordOf H) db live) (touched : ∀ x ∈ nodes, x ∈ InPlay H inPlay)
    (within : live' ⊆ InPlay H inPlay) (source : live' ⊆ live) (kept : ∀ x ∈ live', x ∉ nodes) :
    Holds (hashOf H) (recordOf H) (multiDel db (nodes.map (hashOf H))) live' := by
  rw [multiDel_eq]
  apply holds.applyAll (hashOf_injOn free)
  · intro edit listed
    obtain ⟨x, member, rfl⟩ := List.mem_map.mp listed
    exact touched x member
  · exact within
  · exact fun x member => Or.inr (source member)
  · intro x member listed
    obtain ⟨y, among, same⟩ := List.mem_map.mp listed
    cases same
    exact kept x member among

end Records

section Update

variable {s : SparseMerkleTree} {t : KeyTree} {k old v : Fr} {siblings : List KeyTree}

/-- The nodes from a leaf up along a path, in the order in which the loops compute them. -/
abbrev upwards (k v : Fr) (d : Nat) (siblings : List KeyTree) : List KeyTree :=
  .leaf k v :: (pathNodes (keyBit k) d siblings (.leaf k v)).reverse

theorem updateLoop_eq (H : Hasher) (k old v : Fr) (d : Nat) (siblings : List KeyTree)
    (short : d + siblings.length ≤ 256) :
    ((siblings.map (hashOf H)).zipIdx d).foldrM (SparseMerkleTree.updateStep H (keyBits k)) {
        currentRtOld := hashOf H (.leaf k old)
        currentRtNew := hashOf H (.leaf k v)
        inserts := [filing H (.leaf k v)]
        deletes := [hashOf H (.leaf k old)] } =
      .ok {
        currentRtOld := hashOf H (plug (keyBit k) d siblings (.leaf k old))
        currentRtNew := hashOf H (plug (keyBit k) d siblings (.leaf k v))
        inserts := (upwards k v d siblings).map (filing H)
        deletes := (upwards k old d siblings).map (hashOf H) } := by
  induction siblings generalizing d with
  | nil => rfl
  | cons sibling rest ih =>
    rw [List.length_cons] at short
    rw [List.map_cons, List.zipIdx_cons, List.foldrM_cons, ih (d + 1) (by omega)]
    change SparseMerkleTree.updateStep H (keyBits k) (hashOf H sibling, d) _ = _
    rw [SparseMerkleTree.updateStep, getElem?_keyBits k (by omega)]
    simp only [parentNode_eq, plug, pathNodes, upwards, List.map_cons, List.reverse_cons, List.map_append,
      List.map_nil, List.cons_append, filing]

theorem upwards_inPlay {inPlay : Set Query} {v : Fr}
    (within : ∀ q ∈ queries H (plug (keyBit k) 0 siblings (.leaf k v)), q ∈ inPlay) :
    ∀ x ∈ upwards k v 0 siblings, x ∈ InPlay H inPlay := by
  intro x listed q asked
  apply within
  apply queries_of_mem_subtrees H ?_ q asked
  rcases List.mem_cons.mp listed with rfl | onPath
  · exact (mem_subtrees_plug ..).mpr (Or.inr (Or.inr (List.mem_singleton.mpr rfl)))
  · exact (mem_subtrees_plug ..).mpr (Or.inl (List.mem_reverse.mp onPath))

/-- Removing the old path and filing the new one, in this order. -/
theorem Keeps.replaced (free : CollisionFree H inPlay) (keeps : Keeps H s t) (path : PathTo t k siblings (.leaf k old))
    (within : ∀ q ∈ queries H t, q ∈ inPlay)
    (within' : ∀ q ∈ queries H (plug (keyBit k) 0 siblings (.leaf k v)), q ∈ inPlay) :
    Stored H (multiIns (multiDel s.db ((upwards k old 0 siblings).map (hashOf H)))
      ((upwards k v 0 siblings).map (filing H))) (plug (keyBit k) 0 siblings (.leaf k v)) := by
  have inside (x : KeyTree) (member : x ∈ t.subtrees) : x ∈ InPlay H inPlay :=
    fun q asked => within q (queries_of_mem_subtrees H member q asked)
  have old_path := within
  rw [path.cut] at old_path
  have removed := holds_multiDel free {x | ∃ sibling ∈ siblings, x ∈ sibling.subtrees} keeps.stored
    (upwards_inPlay old_path) ?_ ?_ ?_
  · apply holds_multiIns free _ removed (upwards_inPlay within')
    · exact fun x member q asked => within' q (queries_of_mem_subtrees H member q asked)
    · intro x member
      rcases (mem_subtrees_plug ..).mp member with onPath | off | atEnd
      · exact Or.inl (List.mem_cons_of_mem _ (List.mem_reverse.mpr onPath))
      · exact Or.inr off
      · rw [List.mem_singleton.mp atEnd]
        exact Or.inl List.mem_cons_self
  · rintro x ⟨sibling, member, inS⟩
    apply inside
    rw [path.cut]
    exact (mem_subtrees_plug ..).mpr (Or.inr (Or.inl ⟨sibling, member, inS⟩))
  · rintro x ⟨sibling, member, inS⟩
    change x ∈ t.subtrees
    rw [path.cut]
    exact (mem_subtrees_plug ..).mpr (Or.inr (Or.inl ⟨sibling, member, inS⟩))
  · rintro x ⟨sibling, member, inS⟩ listed
    obtain ⟨off, notLeaf⟩ := path.off_path member inS
    rcases List.mem_cons.mp listed with isLeaf | onPath
    · exact notLeaf isLeaf
    · exact off (List.mem_reverse.mp onPath)

theorem update_eq (free : CollisionFree H inPlay) (keeps : Keeps H s t)
    (path : PathTo t k siblings (.leaf k old)) (v : Fr)
    (within : ∀ q ∈ queries H t, q ∈ inPlay)
    (within' : ∀ q ∈ queries H (plug (keyBit k) 0 siblings (.leaf k v)), q ∈ inPlay) :
    ∃ s', s.update H (fpBn256ToBigInt k) (fpBn256ToBigInt v) =
        .ok ((updateAnswer H k old v siblings).map fpBn256ToBigInt, s') ∧
      Keeps H s' (plug (keyBit k) 0 siblings (.leaf k v)) := by
  have found := find_eq free keeps path within
  have loop := updateLoop_eq H k old v 0 siblings (by have short := path.length_le; omega)
  refine ⟨⟨multiIns (multiDel s.db ((upwards k old 0 siblings).map (hashOf H)))
    ((upwards k v 0 siblings).map (filing H)),
    hashOf H (plug (keyBit k) 0 siblings (.leaf k v))⟩, ?_, rfl, keeps.replaced free path within within'⟩
  rw [SparseMerkleTree.update, found, findAnswer, endAnswer_leaf_self]
  simp only [bind, Except.bind, pure, Except.pure, splitBits_eq, FindResult.map, map_hash, hash3_leaf]
  rw [filing, recordOf] at loop
  rw [loop]
  simp only [keeps.root, path.cut, updateAnswer, SMTResult.map, map_hash]
  rfl

end Update

section Insert

variable {s : SparseMerkleTree} {t : KeyTree} {k v : Fr} {siblings extra : List KeyTree} {stop : KeyTree}

theorem insertStart_eq (extension : Extension k siblings stop extra) :
    SparseMerkleTree.insertStart H (keyBits k) ((findAnswer H k siblings stop).map fpBn256ToBigInt) = {
      siblings := (siblings ++ extra).map (hashOf H)
      mixed := extra.isEmpty && !siblings.isEmpty
      rtOld := hashOf H stop
      addedOne := !extra.isEmpty } := by
  rcases extension.shape with ⟨rfl, rfl⟩ | ⟨old, oldValue, n, rfl, different, rfl, low, shared, apart⟩
  · simp only [SparseMerkleTree.insertStart, findAnswer, endAnswer, FindResult.map, map_hash, List.append_nil]
    simp
  · rw [findAnswer, endAnswer_leaf_of_ne different]
    simp only [SparseMerkleTree.insertStart, FindResult.map, map_hash, Bool.not_false, if_true, splitBits_eq,
      List.length_map, hash3_leaf,
      pushShared_eq old k (siblings.map (hashOf H)) (show siblings.length + n < 256 by omega) shared apart]
    simp

/-- The loop variables when the levels from `i` on are done: of the old path the nodes on real levels
are to be removed. -/
def varsAt (H : Hasher) (k v : Fr) (siblings extra : List KeyTree) (stop : KeyTree) (i : Nat) :
    SparseMerkleTree.InsertVars where
  mixed := decide (i < siblings.length) || (extra.isEmpty && !siblings.isEmpty)
  rtOld := hashOf H (plug (keyBit k) i (siblings.drop i) stop)
  rt := hashOf H (plug (keyBit k) i ((siblings ++ extra).drop i) (.leaf k v))
  inserts := (upwards k v i ((siblings ++ extra).drop i)).map (filing H)
  deletes := (pathNodes (keyBit k) i (siblings.drop i) stop).reverse.map (hashOf H)

theorem mixed_eq (free : CollisionFree H inPlay) (path : PathTo t k siblings stop)
    (extension : Extension k siblings stop extra) (within : ∀ q ∈ queries H t, q ∈ inPlay) {i : Nat}
    (below : i < (siblings ++ extra).length) :
    ((varsAt H k v siblings extra stop (i + 1)).mixed ||
        (decide (i < ((siblings ++ extra).map (hashOf H)).length - 1) && hashOf H (siblings ++ extra)[i] != 0)) =
      decide (i < siblings.length) ∧
    (varsAt H k v siblings extra stop i).mixed = decide (i < siblings.length) := by
  have before := within
  rw [path.cut] at before
  obtain ⟨mixed, removes⟩ := AspNonMembership.mixed_step free extension path.canonical_plug before below rfl rfl
  have real : (varsAt H k v siblings extra stop i).mixed = decide (i < siblings.length) := by
    rw [varsAt]
    cases none : extra.isEmpty with
    | false => simp
    | true =>
      rw [List.isEmpty_iff.mp none, List.append_nil] at below
      simp [below]
  have nonzero : (hashOf H (siblings ++ extra)[i] != 0) = (nodeKey H (siblings ++ extra)[i] != 0) := by
    rw [Bool.eq_iff_iff, bne_iff_ne, bne_iff_ne, ne_eq, ne_eq, hashOf_eq_zero, nodeKey, toU256_eq_zero]
  have last : (!(!extra.isEmpty && i == (siblings ++ extra).length - 1) && decide
      (i < (siblings ++ extra).length - 1)) =
      decide (i < (siblings ++ extra).length - 1) := by
    by_cases inner : i < (siblings ++ extra).length - 1
    · have notLast : (i == (siblings ++ extra).length - 1) = false := by simpa using Nat.ne_of_lt inner
      rw [notLast, Bool.and_false, Bool.not_false, Bool.true_and]
    · rw [decide_eq_false inner, Bool.and_false]
  refine ⟨?_, real⟩
  rw [last] at mixed
  rw [List.length_map, nonzero, ← real]
  exact mixed

theorem varsAt_top (H : Hasher) (k v : Fr) (siblings extra : List KeyTree) (stop : KeyTree) :
    varsAt H k v siblings extra stop (siblings ++ extra).length = {
      mixed := extra.isEmpty && !siblings.isEmpty
      rtOld := hashOf H stop
      rt := hashOf H (.leaf k v)
      inserts := [filing H (.leaf k v)]
      deletes := [] } := by
  have deep : ¬(siblings ++ extra).length < siblings.length := by simp
  have none : siblings.drop (siblings ++ extra).length = [] := List.drop_eq_nil_of_le (by simp)
  rw [varsAt, decide_eq_false deep, none, List.drop_length]
  rfl

theorem varsAt_new (H : Hasher) (k v : Fr) (stop : KeyTree) {i : Nat} (below : i < (siblings ++ extra).length) :
    SparseMerkleTree.parentNode H (keyBit k i) (hashOf H (siblings ++ extra)[i])
        (varsAt H k v siblings extra stop (i + 1)).rt =
      filing H (plug (keyBit k) i ((siblings ++ extra).drop i) (.leaf k v)) ∧
    (varsAt H k v siblings extra stop i).inserts = (varsAt H k v siblings extra stop (i + 1)).inserts ++
      [filing H (plug (keyBit k) i ((siblings ++ extra).drop i) (.leaf k v))] := by
  constructor
  · rw [plug_drop (keyBit k) below]
    exact parentNode_eq ..
  · simp only [varsAt, upwards, pathNodes_drop (keyBit k) below, List.reverse_cons, List.map_cons, List.map_append,
      List.map_nil, List.cons_append]

theorem varsAt_old (H : Hasher) (k v : Fr) (extra : List KeyTree) (stop : KeyTree) {i : Nat}
    (low : i < siblings.length) :
    (SparseMerkleTree.parentNode H (keyBit k i) (hashOf H siblings[i])
        (varsAt H k v siblings extra stop (i + 1)).rtOld).1 = (varsAt H k v siblings extra stop i).rtOld ∧
    (varsAt H k v siblings extra stop i).deletes = (varsAt H k v siblings extra stop (i + 1)).deletes ++
      [(varsAt H k v siblings extra stop i).rtOld] := by
  constructor
  · simp only [varsAt, plug_drop (keyBit k) low]
    exact congrArg Prod.fst (parentNode_eq ..)
  · simp only [varsAt, pathNodes_drop (keyBit k) low, List.reverse_cons, List.map_append, List.map_cons, List.map_nil]

theorem varsAt_above (H : Hasher) (k v : Fr) (extra : List KeyTree) (stop : KeyTree) {i : Nat}
    (above : ¬i < siblings.length) :
    (varsAt H k v siblings extra stop (i + 1)).rtOld = (varsAt H k v siblings extra stop i).rtOld ∧
    (varsAt H k v siblings extra stop (i + 1)).deletes = (varsAt H k v siblings extra stop i).deletes := by
  have none : siblings.drop i = [] := List.drop_eq_nil_of_le (by omega)
  have noneNext : siblings.drop (i + 1) = [] := List.drop_eq_nil_of_le (by omega)
  simp only [varsAt, none, noneNext, plug, pathNodes]
  exact ⟨trivial, trivial⟩

theorem insertLoop_eq (free : CollisionFree H inPlay) (path : PathTo t k siblings stop)
    (extension : Extension k siblings stop extra) (v : Fr) (within : ∀ q ∈ queries H t, q ∈ inPlay) (n i : Nat)
    (done : i + n = (siblings ++ extra).length) :
    ((((siblings ++ extra).drop i).map (hashOf H)).zipIdx i).foldrM
        (SparseMerkleTree.insertStep H (keyBits k) (siblings.map (hashOf H))
          ((siblings ++ extra).map (hashOf H)).length)
        (varsAt H k v siblings extra stop (siblings ++ extra).length) =
      .ok (varsAt H k v siblings extra stop i) := by
  induction n generalizing i with
  | zero =>
    have here : i = (siblings ++ extra).length := done
    rw [here, List.drop_length]
    rfl
  | succ n ih =>
    have below : i < (siblings ++ extra).length := by omega
    have short := extension.length_le path.length_le
    obtain ⟨mixed, real⟩ := mixed_eq (v := v) free path extension within below
    rw [List.drop_eq_getElem_cons below, List.map_cons, List.zipIdx_cons, List.foldrM_cons, ih (i + 1) (by omega)]
    change SparseMerkleTree.insertStep H (keyBits k) _ _ (hashOf H (siblings ++ extra)[i], i) _ = _
    rw [SparseMerkleTree.insertStep, getElem?_keyBits k (by omega), mixed]
    obtain ⟨newNode, inserts⟩ := varsAt_new H k v stop below
    by_cases low : i < siblings.length
    · have oldSibling : (siblings.map (hashOf H))[i]? = some (hashOf H siblings[i]) := by
        rw [List.getElem?_map, List.getElem?_eq_getElem low, Option.map_some]
      obtain ⟨oldNode, deletes⟩ := varsAt_old H k v extra stop low
      rw [decide_eq_true low] at real ⊢
      simp only [if_true, oldSibling]
      rw [newNode, oldNode, ← inserts, ← deletes, ← real]
      rfl
    · obtain ⟨oldNode, deletes⟩ := varsAt_above H k v extra stop low
      rw [decide_eq_false low] at real ⊢
      simp only [Bool.false_eq_true, if_false]
      rw [newNode, oldNode, ← inserts, deletes, ← real]
      rfl

/-- The siblings an insertion reports: popping before trimming leaves those of the old path. -/
theorem trimmed_eq (free : CollisionFree H inPlay) (path : PathTo t k siblings stop)
    (extension : Extension k siblings stop extra) (within : ∀ q ∈ queries H t, q ∈ inPlay) :
    trimZeros (if !extra.isEmpty then ((siblings ++ extra).map (hashOf H)).dropLast
      else (siblings ++ extra).map (hashOf H)) = siblings.map (hashOf H) := by
  rw [path.cut] at within
  have ends : ∀ last, (siblings.map (hashOf H)).getLast? = some last → last ≠ 0 := by
    intro last isLast
    rw [← map_hash, List.getLast?_map, Option.map_eq_some_iff] at isLast
    obtain ⟨h, isLast, rfl⟩ := isLast
    intro zero
    exact last_hash_ne_zero H free path.canonical_plug path.kind within h isLast (fpBn256ToBigInt_eq_zero.mp zero)
  rcases extension.shape with ⟨rfl, rfl⟩ | ⟨old, oldValue, n, rfl, -, rfl, -, -, -⟩
  · rw [List.append_nil]
    exact trimZeros_eq_self ends
  · rw [← List.append_assoc, List.map_append, List.map_singleton, List.dropLast_concat, List.map_append,
      List.map_replicate, hashOf_empty, if_pos (by simp), trimZeros_append_replicate]
    exact trimZeros_eq_self ends

theorem pathNodes_inPlay {stop : KeyTree} (within : ∀ q ∈ queries H (plug (keyBit k) 0 siblings stop), q ∈ inPlay) :
    ∀ x ∈ (pathNodes (keyBit k) 0 siblings stop).reverse, x ∈ InPlay H inPlay := by
  intro x listed q asked
  apply within
  exact queries_of_mem_subtrees H ((mem_subtrees_plug ..).mpr (Or.inl (List.mem_reverse.mp listed))) q asked

/-- Filing the new path and removing the old one, in this order. -/
theorem Keeps.grown (free : CollisionFree H inPlay) (keeps : Keeps H s t) (path : PathTo t k siblings stop)
    (extension : Extension k siblings stop extra) (absent : ¬t.HasKey k)
    (within : ∀ q ∈ queries H t, q ∈ inPlay) (within' : ∀ q ∈ queries H (grown k v siblings extra), q ∈ inPlay) :
    Stored H (multiDel (multiIns s.db ((upwards k v 0 (siblings ++ extra)).map (filing H)))
      ((pathNodes (keyBit k) 0 siblings stop).reverse.map (hashOf H))) (grown k v siblings extra) := by
  have source := extension.source v
  have kept := extension.kept v path.canonical_plug (path.cut ▸ absent)
  rw [path.cut] at within
  rw [← path.cut] at source
  have inside (x : KeyTree) (member : x ∈ (AspNonMembership.grown k v siblings extra).subtrees) : x ∈ InPlay H inPlay :=
    fun q asked => within' q (queries_of_mem_subtrees H member q asked)
  have filed := holds_multiIns free {x | x ∈ (AspNonMembership.grown k v siblings extra).subtrees} keeps.stored
    (upwards_inPlay within') inside ?_
  · apply holds_multiDel free _ filed (pathNodes_inPlay within) inside (fun _ member => member)
    intro x member listed
    exact kept x member (List.mem_reverse.mp listed)
  · intro x member
    apply (source x member).imp_left
    rintro (rfl | onPath)
    · exact List.mem_cons_self
    · exact List.mem_cons_of_mem _ (List.mem_reverse.mpr onPath)

theorem insert_eq (free : CollisionFree H inPlay) (keeps : Keeps H s t) (path : PathTo t k siblings stop)
    (extension : Extension k siblings stop extra) (absent : ¬t.HasKey k) (v : Fr)
    (within : ∀ q ∈ queries H t, q ∈ inPlay)
    (within' : ∀ q ∈ queries H (AspNonMembership.grown k v siblings extra), q ∈ inPlay) :
    ∃ s', s.insert H (fpBn256ToBigInt k) (fpBn256ToBigInt v) =
        .ok ((insertAnswer H k v siblings extra stop siblings).map fpBn256ToBigInt, s') ∧
      Keeps H s' (AspNonMembership.grown k v siblings extra) := by
  have found := find_eq free keeps path within
  have missing : ((findAnswer H k siblings stop).map fpBn256ToBigInt).found = false :=
    found_endAnswer (path.not_hasKey_stop absent)
  have reported : ((findAnswer H k siblings stop).map fpBn256ToBigInt).siblings = siblings.map (hashOf H) := map_hash _
  have loop := insertLoop_eq free path extension v within (siblings ++ extra).length 0 (Nat.zero_add _)
  refine ⟨⟨multiDel (multiIns s.db ((upwards k v 0 (siblings ++ extra)).map (filing H)))
      ((pathNodes (keyBit k) 0 siblings stop).reverse.map (hashOf H)),
    hashOf H (AspNonMembership.grown k v siblings extra)⟩, ?_, rfl,
      keeps.grown free path extension absent within within'⟩
  rw [SparseMerkleTree.insert, splitBits_eq, found]
  simp only [bind, Except.bind, missing, Bool.false_eq_true, if_false, pure, Except.pure, insertStart_eq extension,
    hash3_leaf, reported]
  rw [varsAt_top, filing, recordOf, List.drop_zero] at loop
  rw [loop]
  simp only [trimmed_eq free path extension within, keeps.root, path.cut]
  rw [insertAnswer, SMTResult.map, map_hash]
  rfl

end Insert

end PrivatePayments.SparseMerkle.Reference
