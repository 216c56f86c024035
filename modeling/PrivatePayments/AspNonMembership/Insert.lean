import PrivatePayments.AspNonMembership.Writes

/-!
`insert_leaf` on a storage that holds a tree. The new leaf goes to the end of its
key's path; the loop replaces the nodes of the old path by those of the new one.
-/

namespace PrivatePayments.AspNonMembership
open Bn254 Poseidon2 Soroban Library SparseTree TreePath KeyTree

variable {H : Hasher}

/-- The zeros pushed are as many as the bits the keys share from level `i` on. -/
theorem extendLoop_eq (old new : U256) {i n : Nat} (siblings : List U256) (low : i + n < 256)
    (shared : ∀ j, i ≤ j → j < i + n → turns old j = turns new j)
    (apart : turns old (i + n) ≠ turns new (i + n)) :
    extendLoop ((splitBits old).drop i) ((splitBits new).drop i) siblings =
      siblings ++ List.replicate n 0 := by
  induction n generalizing i siblings with
  | zero =>
    rw [drop_splitBits old (by omega), drop_splitBits new (by omega), extendLoop]
    have different : (old.toNat.testBit i == new.toNat.testBit i) = false := by
      simpa [turns] using apart
    simp [different]
  | succ n ih =>
    rw [drop_splitBits old (by omega), drop_splitBits new (by omega), extendLoop]
    have same : (old.toNat.testBit i == new.toNat.testBit i) = true := by
      simpa [turns] using shared i (Nat.le_refl i) (by omega)
    rw [if_pos same, ih (i := i + 1) _ (by omega) (fun j low high => shared j (by omega) (by omega))
      (by rw [show i + 1 + n = i + (n + 1) by omega]; exact apart)]
    simp [List.replicate_succ]

theorem exists_separation {k k' : Fr} (different : k ≠ k') (len : Nat)
    (agree : ∀ j, j < len → keyBit k j = keyBit k' j) :
    ∃ n, len + n < 254 ∧ (∀ j, len ≤ j → j < len + n → keyBit k j = keyBit k' j) ∧
      keyBit k (len + n) ≠ keyBit k' (len + n) := by
  have parts : ∃ j, keyBit k j ≠ keyBit k' j ∧ j < 254 := by
    by_contra none
    push Not at none
    refine different (eq_of_keyBits fun i low => ?_)
    by_contra apart
    exact absurd low (Nat.not_lt.mpr (none i apart))
  classical
  have first := Nat.find_spec parts
  have least (j : Nat) (below : j < Nat.find parts) : keyBit k j = keyBit k' j := by
    by_contra apart
    exact Nat.find_min parts below ⟨apart, lt_trans below first.2⟩
  have later : len ≤ Nat.find parts := by
    by_contra early
    exact first.1 (agree _ (by omega))
  refine ⟨Nat.find parts - len, ?_, fun j _ high => least j (by omega), ?_⟩
  · rw [Nat.add_sub_cancel' later]
    exact first.2
  · rw [Nat.add_sub_cancel' later]
    exact first.1

/-- What `insert_leaf` adds below the old siblings: nothing at an empty slot, else the empty
siblings over the shared bits and the old leaf. -/
structure Extension (k : Fr) (siblings : List KeyTree) (stop : KeyTree) (extra : List KeyTree) :
    Prop where
  shape : (stop = .empty ∧ extra = []) ∨
    ∃ old oldValue n, stop = .leaf old oldValue ∧ old ≠ k ∧
      extra = List.replicate n .empty ++ [.leaf old oldValue] ∧ siblings.length + n < 254 ∧
      (∀ j, siblings.length ≤ j → j < siblings.length + n → keyBit old j = keyBit k j) ∧
      keyBit old (siblings.length + n) ≠ keyBit k (siblings.length + n)

theorem exists_extension {k : Fr} {siblings : List KeyTree} {stop : KeyTree}
    (canonical : Canonical keyBit 0 (plug (keyBit k) 0 siblings stop))
    (kind : stop = .empty ∨ ∃ k v, stop = .leaf k v) (absent : ¬stop.HasKey k) :
    ∃ extra, Extension k siblings stop extra := by
  rcases kind with rfl | ⟨old, oldValue, rfl⟩
  · exact ⟨[], ⟨Or.inl ⟨rfl, rfl⟩⟩⟩
  · have different : old ≠ k := fun same => absent ((hasKey_leaf ..).mpr same)
    obtain ⟨-, follows, -, -⟩ := (canonical_plug ..).mp canonical
    obtain ⟨n, low, shared, apart⟩ := exists_separation different siblings.length
      (fun j below => follows old ((hasKey_leaf ..).mpr rfl) j (Nat.zero_le j) (by omega))
    exact ⟨_, ⟨Or.inr ⟨old, oldValue, n, rfl, different, rfl, low, shared, apart⟩⟩⟩

abbrev grown (k v : Fr) (siblings extra : List KeyTree) : KeyTree :=
  plug (keyBit k) 0 (siblings ++ extra) (.leaf k v)

namespace Extension

variable {k : Fr} {siblings extra : List KeyTree} {stop : KeyTree}

theorem canonical (extension : Extension k siblings stop extra) (v : Fr)
    (old : Canonical keyBit 0 (plug (keyBit k) 0 siblings stop)) :
    Canonical keyBit 0 (plug (keyBit k) 0 (siblings ++ extra) (.leaf k v)) := by
  rcases extension.shape with ⟨rfl, rfl⟩ | ⟨key, value, n, rfl, -, rfl, -, shared, apart⟩
  · rw [List.append_nil]
    exact TreeUpdate.canonical_insert_empty keyBit v old
  · exact TreeUpdate.canonical_insert_collision keyBit v n old shared apart

theorem mem_subtrees (extension : Extension k siblings stop extra) (x : KeyTree) :
    (∃ s ∈ extra, x ∈ s.subtrees) ↔ x ∈ stop.subtrees := by
  rcases extension.shape with ⟨rfl, rfl⟩ | ⟨key, value, n, rfl, -, rfl, -⟩
  · simp [subtrees]
  · constructor
    · rintro ⟨s, member, inS⟩
      rcases List.mem_append.mp member with inFront | inBack
      · rw [List.eq_of_mem_replicate inFront] at inS
        simp [subtrees] at inS
      · rwa [List.mem_singleton.mp inBack] at inS
    · exact fun inStop => ⟨_, List.mem_append_right _ (List.mem_singleton.mpr rfl), inStop⟩

theorem has (extension : Extension k siblings stop extra) (k' v' : Fr) :
    (∃ s ∈ extra, s.Has k' v') ↔ stop.Has k' v' := by
  rcases extension.shape with ⟨rfl, rfl⟩ | ⟨key, value, n, rfl, -, rfl, -⟩
  · simp [Has]
  · constructor
    · rintro ⟨s, member, inS⟩
      rcases List.mem_append.mp member with inFront | inBack
      · rw [List.eq_of_mem_replicate inFront] at inS
        exact inS.elim
      · rwa [List.mem_singleton.mp inBack] at inS
    · exact fun inStop => ⟨_, List.mem_append_right _ (List.mem_singleton.mpr rfl), inStop⟩

theorem has_grown (extension : Extension k siblings stop extra) (v k' v' : Fr) :
    (grown k v siblings extra).Has k' v' ↔
      (k = k' ∧ v = v') ∨ (plug (keyBit k) 0 siblings stop).Has k' v' := by
  have extended := extension.has k' v'
  rw [has_plug, has_plug]
  simp only [List.mem_append, or_and_right, exists_or, extended]
  rw [or_comm]
  rfl

theorem origin (extension : Extension k siblings stop extra) {v : Fr} {x : KeyTree}
    (member : x ∈ (grown k v siblings extra).subtrees) :
    (x = .leaf k v ∨ x ∈ pathNodes (keyBit k) 0 (siblings ++ extra) (.leaf k v)) ∨
      (∃ s ∈ siblings, x ∈ s.subtrees) ∨ x ∈ stop.subtrees := by
  rcases (mem_subtrees_plug ..).mp member with onPath | ⟨s, inList, inS⟩ | atEnd
  · exact Or.inl (Or.inr onPath)
  · rcases List.mem_append.mp inList with inOld | inExtra
    · exact Or.inr (Or.inl ⟨s, inOld, inS⟩)
    · exact Or.inr (Or.inr ((extension.mem_subtrees x).mp ⟨s, inExtra, inS⟩))
  · exact Or.inl (Or.inl (List.mem_singleton.mp atEnd))

theorem source (extension : Extension k siblings stop extra) (v : Fr) :
    ∀ x ∈ (grown k v siblings extra).subtrees,
      (x = .leaf k v ∨ x ∈ pathNodes (keyBit k) 0 (siblings ++ extra) (.leaf k v)) ∨
        x ∈ (plug (keyBit k) 0 siblings stop).subtrees := by
  intro x member
  refine (extension.origin member).imp_right fun off => ?_
  exact (mem_subtrees_plug ..).mpr (Or.inr off)

/-- No node of the old path is a node of the grown tree: those on the new path have the new
key below them, and the others hang off the old path. -/
theorem kept (extension : Extension k siblings stop extra) (v : Fr)
    (before : Canonical keyBit 0 (plug (keyBit k) 0 siblings stop))
    (absent : ¬(plug (keyBit k) 0 siblings stop).HasKey k) :
    ∀ x ∈ (grown k v siblings extra).subtrees, x ∉ pathNodes (keyBit k) 0 siblings stop := by
  intro x member onOld
  have fresh : ¬x.HasKey k := fun has => absent (hasKey_plug_of_mem_pathNodes _ onOld has)
  have here : SparseTree.HasKey k (.leaf k v : KeyTree) := (hasKey_leaf ..).mpr rfl
  obtain ⟨away, follows, -, full⟩ := (canonical_plug ..).mp before
  have apart := pathNodes_disjoint keyBit (keyBit k) away follows
    (fun last isLast => by have two := full last isLast; omega) onOld
  rcases extension.origin member with (rfl | onPath) | ⟨s, inList, inS⟩ | inStop
  · exact fresh here
  · exact fresh (hasKey_of_mem_pathNodes _ onPath here)
  · exact apart.1 s inList inS
  · exact apart.2 inStop

theorem length_le (extension : Extension k siblings stop extra) (short : siblings.length ≤ 254) :
    (siblings ++ extra).length ≤ 254 := by
  rcases extension.shape with ⟨rfl, rfl⟩ | ⟨key, value, n, rfl, -, rfl, low, -⟩
  · simpa using short
  · simp only [List.length_append, List.length_replicate, List.length_singleton]
    omega

end Extension

/-- Where the loop of `insert_leaf` stands when the levels from `i` on are done: the new path
from `i` on is filed, and of the old path what lay on real levels is removed. -/
structure InsertInv (H : Hasher) (env₀ : Env Storage) (k v : Fr) (siblings : List KeyTree)
    (stop : KeyTree) (extra : List KeyTree) (i : Nat) (vars : InsertVars) (env : Env Storage) :
    Prop where
  rt : vars.rt = nodeKey H (plug (keyBit k) i ((siblings ++ extra).drop i) (.leaf k v))
  rtOld : vars.rtOld = nodeKey H (plug (keyBit k) i (siblings.drop i) stop)
  mixed : vars.mixed = (decide (i < siblings.length) || (extra.isEmpty && !siblings.isEmpty))
  written : Written H env₀ env
    (fun x => x = .leaf k v ∨ x ∈ pathNodes (keyBit k) i ((siblings ++ extra).drop i) (.leaf k v))
    (fun x => x ∈ pathNodes (keyBit k) i (siblings.drop i) stop)
  logged : ∀ q ∈ queries H (plug (keyBit k) i ((siblings ++ extra).drop i) (.leaf k v)),
    q ∈ env.hashed

def startOf (H : Hasher) (siblings : List KeyTree) (stop : KeyTree) (extra : List KeyTree) :
    InsertStart where
  siblings := (siblings ++ extra).map (nodeKey H)
  mixed := extra.isEmpty && !siblings.isEmpty
  rtOld := nodeKey H stop
  addedOne := !extra.isEmpty

section Loop

variable {inPlay : Set Query} {k v : Fr} {siblings extra : List KeyTree} {stop : KeyTree}

/-- The levels at which the flags let the loop remove a node are those of the old siblings. -/
theorem mixed_step (free : CollisionFree H inPlay) (extension : Extension k siblings stop extra)
    (canonical : Canonical keyBit 0 (plug (keyBit k) 0 siblings stop))
    (within : ∀ q ∈ queries H (plug (keyBit k) 0 siblings stop), q ∈ inPlay)
    {i : Nat} (below : i < (siblings ++ extra).length) {mixed isLastAddedLeaf : Bool}
    (before : mixed = (decide (i + 1 < siblings.length) || (extra.isEmpty && !siblings.isEmpty)))
    (isLast : isLastAddedLeaf = (!extra.isEmpty && i == (siblings ++ extra).length - 1)) :
    (mixed || (!isLastAddedLeaf && decide (i < (siblings ++ extra).length - 1) &&
        nodeKey H (siblings ++ extra)[i] != 0)) =
      (decide (i < siblings.length) || (extra.isEmpty && !siblings.isEmpty)) ∧
    ((decide (i < siblings.length) || (extra.isEmpty && !siblings.isEmpty)) && !isLastAddedLeaf) =
      decide (i < siblings.length) := by
  rcases extension.shape with ⟨rfl, rfl⟩ | ⟨old, oldValue, n, rfl, -, rfl, -, -, -⟩
  · have low : i < siblings.length := by simpa using below
    have present : siblings.isEmpty = false := by
      cases siblings with
      | nil => simp at low
      | cons s rest => rfl
    simp only [List.isEmpty_nil, present, Bool.not_false, Bool.not_true, Bool.false_and,
      Bool.and_true, Bool.or_true] at before isLast ⊢
    subst before isLast
    simp [low]
  · have present : (List.replicate n SparseTree.empty ++
        [SparseTree.leaf old oldValue]).isEmpty = false := by simp
    have size : (siblings ++ (List.replicate n SparseTree.empty ++
        [SparseTree.leaf old oldValue])).length = siblings.length + n + 1 := by
      simp [Nat.add_assoc]
    simp only [present, Bool.not_false, Bool.true_and, Bool.false_and, Bool.or_false, size,
      Nat.add_sub_cancel] at before isLast below ⊢
    subst before isLast
    by_cases low : i < siblings.length
    · have notLast : (i == siblings.length + n) = false := by
        simpa using (by omega : i ≠ siblings.length + n)
      have inner : decide (i < siblings.length + n) = true := by simpa using (by omega)
      refine ⟨?_, by simp [low, notLast]⟩
      by_cases next : i + 1 < siblings.length
      · simp [next, low]
      · -- the deepest old sibling is not empty, as the path below it holds one leaf only
        have isLast : siblings.getLast? = some siblings[i] := by
          rw [List.getLast?_eq_getElem?, show siblings.length - 1 = i by omega,
            List.getElem?_eq_getElem low]
        have two := ((canonical_plug ..).mp canonical).2.2.2 _ isLast
        have nonempty : siblings[i] ≠ .empty := by
          intro none
          simp [none, SparseTree.size] at two
        have nonzero : (nodeKey H siblings[i] != 0) = true :=
          bne_iff_ne.mpr (nodeKey_ne_zero free nonempty
            (fun q member => within q (queries_of_sibling (List.getElem_mem low) q member)))
        rw [List.getElem_append_left low, nonzero]
        simp [low, next, notLast, inner]
    · have next : ¬i + 1 < siblings.length := by omega
      refine ⟨?_, by simp [low]⟩
      by_cases last : i = siblings.length + n
      · simp [last]
        omega
      · have zero : i - siblings.length < n := by omega
        have inFront : (siblings ++ (List.replicate n SparseTree.empty ++
            [SparseTree.leaf old oldValue]))[i] = SparseTree.empty := by
          rw [List.getElem_append_right (by omega), List.getElem_append_left (by simpa using zero),
            List.getElem_replicate]
        simp [next, low, inFront]

theorem run_insertStep {env₀ env : Env Storage} {vars : InsertVars}
    (free : CollisionFree H inPlay) (extension : Extension k siblings stop extra)
    (canonical : Canonical keyBit 0 (plug (keyBit k) 0 siblings stop))
    (short : (siblings ++ extra).length ≤ 254) (find : FindResult)
    (found : find.siblings = siblings.map (nodeKey H))
    (within : ∀ q ∈ queries H (plug (keyBit k) 0 siblings stop), q ∈ inPlay)
    (old : ∀ q ∈ queries H (plug (keyBit k) 0 siblings stop), q ∈ env₀.hashed)
    {i : Nat} (below : i < (siblings ++ extra).length)
    (inv : InsertInv H env₀ k v siblings stop extra (i + 1) vars env) :
    ∃ vars' env',
      (insertStep H (splitBits (toU256 k)) find (startOf H siblings stop extra) i vars).run env =
        .ok (vars', env') ∧ InsertInv H env₀ k v siblings stop extra i vars' env' := by
  have hbit : (splitBits (toU256 k))[i]? = some (keyBit k i) := by
    rw [getElem?_splitBits _ (by omega), ← turns_toU256, turns]
  have hsib : (startOf H siblings stop extra).siblings.getD i 0 = nodeKey H (siblings ++ extra)[i] := by
    simp only [startOf, List.getD_eq_getElem?_getD, List.getElem?_map, List.getElem?_eq_getElem below,
      Option.map_some, Option.getD_some]
  have hlen : (startOf H siblings stop extra).siblings.length = (siblings ++ extra).length := by
    simp only [startOf, List.length_map]
  obtain ⟨mixed, removes⟩ := mixed_step free extension canonical within below inv.mixed rfl
  have hadd : (startOf H siblings stop extra).addedOne = !extra.isEmpty := rfl
  have grown : ∀ q ∈ queries H (siblings ++ extra)[i], q ∈ env.hashed := by
    intro q member
    apply inv.written.grows q
    apply old q
    rcases List.mem_append.mp (List.getElem_mem below) with inOld | inExtra
    · exact queries_of_sibling inOld q member
    · by_cases nonempty : (siblings ++ extra)[i] = .empty
      · simp [nonempty, queries] at member
      · have inStop := (extension.mem_subtrees _).mp ⟨_, inExtra, mem_subtrees_self nonempty⟩
        exact queries_of_stop q (queries_of_mem_subtrees H inStop q member)
  by_cases low : i < siblings.length
  · have hold : (if i < find.siblings.length then find.siblings.getD i 0 else 0) =
        nodeKey H siblings[i] := by
      rw [found, if_pos (by simpa using low)]
      simp only [List.getD_eq_getElem?_getD, List.getElem?_map, List.getElem?_eq_getElem low,
        Option.map_some, Option.getD_some]
    rw [decide_eq_true low] at mixed removes
    simp only [insertStep, hbit, hsib, hlen, hadd, mixed, removes, if_true, hold, inv.rt, inv.rtOld, run_hashToward,
      StateT.run_bind, Host.run_okOr_some, ok_bind,
      Host.run_update, Host.run_pure]
    rw [← plug_drop _ low, ← plug_drop _ below]
    refine ⟨_, _, rfl, ?_⟩
    have removed := inv.written.removeBranch (b := keyBit k i)
      (fun q member => inv.written.grows q (old q (queries_of_sibling (List.getElem_mem low) q member)))
      (fun q member => inv.written.grows q (old q (queries_of_drop (i + 1) q member)))
    have filed := removed.fileBranch (b := keyBit k i)
      (fun q member => List.mem_cons_of_mem _ (grown q member))
      (fun q member => List.mem_cons_of_mem _ (inv.logged q member))
    rw [← plug_drop _ low, ← plug_drop _ below] at filed
    constructor
    · rfl
    · rfl
    · rw [decide_eq_true low, Bool.true_or]
    · refine filed.congr ?_ ?_
      · intro x
        rw [pathNodes_drop _ below, List.mem_cons, or_left_comm]
      · intro x
        rw [pathNodes_drop _ low, List.mem_cons]
    · intro q member
      refine filed.logged _ (Or.inl (Or.inl rfl)) q member
  · rw [decide_eq_false low] at mixed removes
    simp only [insertStep, hbit, hsib, hlen, hadd, mixed, removes, Bool.false_eq_true, if_false, inv.rt,
      inv.rtOld, run_hashToward, StateT.run_bind, Host.run_okOr_some, ok_bind,
      Host.run_update, Host.run_pure]
    rw [← plug_drop _ below]
    refine ⟨_, _, rfl, ?_⟩
    have filed := inv.written.fileBranch (b := keyBit k i) grown inv.logged
    rw [← plug_drop _ below] at filed
    have none : siblings.drop i = [] := List.drop_eq_nil_of_le (by omega)
    have noneNext : siblings.drop (i + 1) = [] := List.drop_eq_nil_of_le (by omega)
    constructor
    · rfl
    · rw [none, noneNext, plug, plug]
    · rw [decide_eq_false low]
    · refine filed.congr ?_ ?_
      · intro x
        rw [pathNodes_drop _ below, List.mem_cons, or_left_comm]
      · intro x
        rw [none, noneNext, pathNodes, pathNodes]
    · exact fun q member => filed.logged _ (Or.inl (Or.inl rfl)) q member

end Loop
theorem run_insertStart {k : Fr} {siblings extra : List KeyTree} {stop : KeyTree}
    (extension : Extension k siblings stop extra) (short : (siblings ++ extra).length ≤ 254)
    (env : Env Storage) :
    ∃ env', (insertStart H (splitBits (toU256 k)) (pathResult H (toU256 k) siblings stop)).run env =
        .ok (startOf H siblings stop extra, env') ∧
      Written H env env' (fun _ => False) (fun _ => False) := by
  rcases extension.shape with ⟨rfl, rfl⟩ | ⟨old, oldValue, n, rfl, different, rfl, low, shared, apart⟩
  · refine ⟨env, ?_, Written.refl H env⟩
    simp only [insertStart, pathResult, endResult, Bool.not_true, Bool.false_eq_true, if_false,
      startOf, List.append_nil, List.isEmpty_map, List.isEmpty_nil, Bool.true_and, nodeKey_empty]
    rfl
  · refine ⟨_, ?_, (Written.refl H env).query (.hash2 old oldValue 1)⟩
    have separate : toU256 old ≠ toU256 k := fun same => different (toU256_injective same)
    have extended := extendLoop_eq (toU256 old) (toU256 k) (i := siblings.length)
      (n := n) (siblings.map (nodeKey H)) (by omega)
      (by simpa only [turns_toU256] using shared) (by simpa only [turns_toU256] using apart)
    simp only [insertStart, pathResult, endResult, if_neg separate, Bool.not_false, if_true, List.length_map,
      extended, StateT.run_bind, run_hashLeaf, ok_bind, Host.run_pure, startOf]
    simp

structure Inserted (H : Hasher) (env env' : Env Storage) (t : KeyTree) (k v : Fr)
    (siblings extra : List KeyTree) (stop : KeyTree) : Prop where
  cut : t = plug (keyBit k) 0 siblings stop
  absent : ¬t.HasKey k
  extension : Extension k siblings stop extra
  root : env'.storage.root = some (nodeKey H (grown k v siblings extra))
  written : Written H env env'
    (fun x => x = .leaf k v ∨ x ∈ pathNodes (keyBit k) 0 (siblings ++ extra) (.leaf k v))
    (fun x => x ∈ pathNodes (keyBit k) 0 siblings stop)
  logged : ∀ q ∈ queries H (grown k v siblings extra), q ∈ env'.hashed

theorem run_insertLeaf {env : Env Storage} {t : KeyTree} {auths : List Address} {admin : Address}
    {k : Fr} (v : Fr) (rep : Represents H env t) (free : CollisionFree H {q | q ∈ env.hashed})
    (isAdmin : env.storage.admin = some admin) (auth : admin ∈ auths) (absent : ¬t.HasKey k) :
    ∃ env' siblings extra stop,
      (insertLeaf H auths (toU256 k) (toU256 v)).run env = .ok ((), env') ∧
      Inserted H env env' t k v siblings extra stop := by
  obtain ⟨siblings, stop, cut, kind, short⟩ := rep.exists_path (toU256 k)
  have find := rep.findKeyInternal_eq free cut kind short
  rw [turns_toU256] at cut
  have canonical := rep.canonical
  have logged := rep.logged
  rw [cut] at canonical logged
  have missing : ¬stop.HasKey k := by
    intro has
    apply absent
    rw [cut]
    exact (hasKey_plug ..).mpr (Or.inr has)
  obtain ⟨extra, extension⟩ := exists_extension canonical kind missing
  have short' := extension.length_le short
  have notFound : (endResult (toU256 k) stop).found = false := by
    rcases kind with rfl | ⟨old, oldValue, rfl⟩
    · rfl
    · have different : toU256 old ≠ toU256 k :=
        fun same => missing ((hasKey_leaf ..).mpr (toU256_injective same))
      rw [endResult, if_neg different]
  obtain ⟨env₁, started, writtenStart⟩ := run_insertStart (H := H) extension short' env
  have none : (siblings ++ extra).drop (siblings ++ extra).length = [] := List.drop_length
  have noneOld : siblings.drop (siblings ++ extra).length = [] :=
    List.drop_eq_nil_of_le (by simp)
  have filed := (writtenStart.query (.hash2 k v 1)).add (t := .leaf k v) (by simp [queries])
  have init : InsertInv H env k v siblings stop extra (siblings ++ extra).length
      { mixed := (startOf H siblings stop extra).mixed, rtOld := (startOf H siblings stop extra).rtOld,
        rt := nodeKey H (.leaf k v) }
      ((env₁.logged (.hash2 k v 1)).update
        (·.setNode (nodeKey H (.leaf k v)) (content H (.leaf k v)))) := by
    constructor
    · rw [none, plug]
    · rw [noneOld, plug]
      rfl
    · have deep : decide ((siblings ++ extra).length < siblings.length) = false := by simp
      rw [deep, Bool.false_or]
      rfl
    · refine filed.congr ?_ ?_
      · intro x
        rw [none, pathNodes]
        simp
      · intro x
        rw [noneOld, pathNodes]
        simp
    · rw [none, plug]
      exact fun q member => filed.logged _ (Or.inl (Or.inl rfl)) q member
  obtain ⟨vars, env₂, looped, inv⟩ := Host.run_forDown init (fun i below vars env inv =>
    run_insertStep free extension canonical short' (pathResult H (toU256 k) siblings stop) rfl logged
      logged below inv)
  have top : (siblings ++ extra).drop 0 = siblings ++ extra := rfl
  refine ⟨(env₂.update (·.setRoot vars.rt)).update
    (·.publish (.leafInserted (toU256 k) (toU256 v) vars.rt)), siblings, extra, stop, ?_,
    ⟨cut, absent, extension, ?_, ?_, inv.logged⟩⟩
  · have length : (startOf H siblings stop extra).siblings.length = (siblings ++ extra).length := by
      simp only [startOf, List.length_map]
    have result : (pathResult H (toU256 k) siblings stop).found = false := notFound
    rw [content] at looped
    simp only [insertLeaf, StateT.run_bind, Host.run_storage, ok_bind, isAdmin,
      Host.run_okOr_some, Host.run_requireAuth_ok auth, rep.root, Option.getD_some, find,
      Host.run_lift_ok, result, Bool.false_eq_true, if_false, started, run_hashLeaf,
      Host.run_update, length, looped]
  · exact congrArg some inv.rt
  · exact (inv.written.setRoot _).publish _

namespace Inserted

variable {env env' : Env Storage} {t stop : KeyTree} {k v : Fr} {siblings extra : List KeyTree}

theorem has (inserted : Inserted H env env' t k v siblings extra stop) (k' v' : Fr) :
    (grown k v siblings extra).Has k' v' ↔ (k = k' ∧ v = v') ∨ t.Has k' v' := by
  rw [inserted.cut]
  exact inserted.extension.has_grown v k' v'

theorem canonical (inserted : Inserted H env env' t k v siblings extra stop)
    (before : Canonical keyBit 0 t) : Canonical keyBit 0 (grown k v siblings extra) := by
  rw [inserted.cut] at before
  exact inserted.extension.canonical v before

/-- A node of the old siblings or of the old end of the path is a node of both trees. -/
theorem shared (inserted : Inserted H env env' t k v siblings extra stop) {x : KeyTree}
    (off : (∃ s ∈ siblings, x ∈ s.subtrees) ∨ x ∈ stop.subtrees) :
    x ∈ (grown k v siblings extra).subtrees := by
  refine (mem_subtrees_plug ..).mpr (Or.inr (Or.inl ?_))
  rcases off with ⟨s, inList, inS⟩ | inStop
  · exact ⟨s, List.mem_append_left _ inList, inS⟩
  · obtain ⟨s, inList, inS⟩ := (inserted.extension.mem_subtrees x).mpr inStop
    exact ⟨s, List.mem_append_right _ inList, inS⟩

/-- Every node of the new tree was filed now or is one of the old tree. -/
theorem source (inserted : Inserted H env env' t k v siblings extra stop) :
    ∀ x ∈ (grown k v siblings extra).subtrees,
      (x = .leaf k v ∨ x ∈ pathNodes (keyBit k) 0 (siblings ++ extra) (.leaf k v)) ∨
        x ∈ t.subtrees := by
  rw [inserted.cut]
  exact inserted.extension.source v

theorem kept (inserted : Inserted H env env' t k v siblings extra stop)
    (before : Canonical keyBit 0 t) :
    ∀ x ∈ (grown k v siblings extra).subtrees, x ∉ pathNodes (keyBit k) 0 siblings stop := by
  have absent := inserted.absent
  rw [inserted.cut] at before absent
  exact inserted.extension.kept v before absent

theorem represents (inserted : Inserted H env env' t k v siblings extra stop)
    (rep : Represents H env t) (free : CollisionFree H {q | q ∈ env'.hashed}) :
    Represents H env' (grown k v siblings extra) :=
  inserted.written.represents rep free inserted.root (inserted.canonical rep.canonical)
    inserted.logged inserted.source (inserted.kept rep.canonical)

theorem exact (inserted : Inserted H env env' t k v siblings extra stop)
    (rep : Represents H env t) (free : CollisionFree H {q | q ∈ env'.hashed})
    (whole : ContentStore.Exact (nodeKey H) (content H) env.storage.node {x | x ∈ t.subtrees}) :
    ContentStore.Exact (nodeKey H) (content H) env'.storage.node
      {x | x ∈ (grown k v siblings extra).subtrees} := by
  refine inserted.written.exact_of free whole inserted.logged inserted.source
    (inserted.kept rep.canonical) ?_ ?_
  · rintro x (rfl | onPath)
    · exact (mem_subtrees_plug ..).mpr (Or.inr (Or.inr (List.mem_singleton.mpr rfl)))
    · exact (mem_subtrees_plug ..).mpr (Or.inl onPath)
  · intro x member gone
    rw [inserted.cut] at member
    rcases (mem_subtrees_plug ..).mp member with onPath | off
    · exact onPath
    · exact absurd (inserted.shared off) gone

end Inserted

theorem insertStart_returns (key : U256) (siblings : List KeyTree) {stop : KeyTree}
    (missing : (endResult key stop).found = false) (env : Env Storage) :
    ∃ start env', (insertStart H (splitBits key) (pathResult H key siblings stop)).run env =
      .ok (start, env') := by
  cases stop with
  | empty => exact ⟨_, _, rfl⟩
  | node left right => exact ⟨_, _, rfl⟩
  | leaf old oldValue =>
    by_cases same : toU256 old = key
    · simp [endResult, same] at missing
    · simp only [insertStart, pathResult, endResult, if_neg same, Bool.not_false, if_true,
        StateT.run_bind, run_hashLeaf, ok_bind, Host.run_pure]
      exact ⟨_, _, rfl⟩

/-- A call that is not the admin's, or that finds the key, or whose arguments leave the field,
does not succeed. -/
theorem not_succeeds_insertLeaf {env : Env Storage} {t : KeyTree} {auths : List Address}
    {admin : Address} {key value : U256} (rep : Represents H env t)
    (free : CollisionFree H {q | q ∈ env.hashed}) (isAdmin : env.storage.admin = some admin)
    (fault : admin ∉ auths ∨ ¬Canonical key ∨ ¬Canonical value ∨ t.HasKey (ofU256 key)) :
    ¬Host.Succeeds (insertLeaf H auths key value) env := by
  by_cases auth : admin ∈ auths
  · obtain ⟨siblings, stop, cut, kind, short⟩ := rep.exists_path key
    have find := rep.findKeyInternal_eq free cut kind short
    cases found : (endResult key stop).found with
    | true =>
      have result : (pathResult H key siblings stop).found = true := found
      apply Host.not_succeeds_of_error
      simp only [insertLeaf, StateT.run_bind, Host.run_storage, ok_bind, isAdmin,
        Host.run_okOr_some, Host.run_requireAuth_ok auth, rep.root, Option.getD_some, find,
        Host.run_lift_ok, result, if_true]
      rfl
    | false =>
      have result : (pathResult H key siblings stop).found = false := found
      have outside : ¬Canonical key ∨ ¬Canonical value := by
        rcases fault with unauthorized | outKey | outValue | has
        · exact absurd auth unauthorized
        · exact Or.inl outKey
        · exact Or.inr outValue
        · left
          intro inField
          obtain ⟨v, has⟩ := has
          rw [← toU256_ofU256 inField, turns_toU256] at cut
          rw [rep.stop_eq_leaf cut has kind] at found
          simp [endResult, toU256_ofU256 inField] at found
      obtain ⟨start, env', started⟩ := insertStart_returns (H := H) key siblings found env
      apply Host.not_succeeds_of_error
      simp only [insertLeaf, StateT.run_bind, Host.run_storage, ok_bind, isAdmin,
        Host.run_okOr_some, Host.run_requireAuth_ok auth, rep.root, Option.getD_some, find,
        Host.run_lift_ok, result, Bool.false_eq_true, if_false, started,
        run_hashLeaf_trap outside, error_bind]
      rfl
  · apply Host.not_succeeds_of_error
    simp only [insertLeaf, StateT.run_bind, Host.run_storage, ok_bind, isAdmin,
      Host.run_okOr_some, Host.run_requireAuth_trap auth, error_bind]
    rfl

end PrivatePayments.AspNonMembership
