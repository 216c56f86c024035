import PrivatePayments.AspNonMembership.Insert

/-!
`delete_leaf` on a storage that holds a tree. A sibling that is a leaf rises with
the loop past the empty siblings above it; any other sibling leaves the slot empty.
-/

namespace PrivatePayments.AspNonMembership
open Bn254 Poseidon2 Soroban Library SparseTree TreePath TreeUpdate KeyTree

variable {H : Hasher}

/-- The siblings that are left above a subtree which rises past empty siblings. -/
abbrev settled (siblings : List KeyTree) : List KeyTree := siblings.rdropWhile isEmpty

theorem settled_cons (s : KeyTree) (rest : List KeyTree) :
    settled (s :: rest) =
      if settled rest = [] then (if isEmpty s then [] else [s]) else s :: settled rest := by
  simp only [settled, List.rdropWhile, List.reverse_cons, List.dropWhile_append, List.reverse_eq_nil_iff,
    List.isEmpty_iff]
  split
  next none =>
    cases present : isEmpty s <;> simp [present]
  next some => simp

theorem settled_drop {siblings : List KeyTree} {i : Nat} (below : i < siblings.length) :
    settled (siblings.drop i) =
      if settled (siblings.drop (i + 1)) = [] then
        (if isEmpty siblings[i] then [] else [siblings[i]])
      else siblings[i] :: settled (siblings.drop (i + 1)) := by
  rw [List.drop_eq_getElem_cons below, settled_cons]

theorem exists_mem_settled {siblings : List KeyTree} {P : KeyTree → Prop} (empty : ¬P .empty) :
    (∃ s ∈ settled siblings, P s) ↔ ∃ s ∈ siblings, P s := by
  induction siblings with
  | nil => simp [settled]
  | cons s rest ih =>
    rw [settled_cons]
    by_cases none : settled rest = []
    · have gone : ¬∃ s ∈ rest, P s := by
        rw [← ih, none]
        simp
      rw [if_pos none]
      by_cases isE : isEmpty s = true
      · have same := (isEmpty_iff s).mp isE
        subst same
        simp [isEmpty, empty, gone]
      · simp [isE, gone]
    · rw [if_neg none]
      simp only [List.exists_mem_cons_iff, ih]

/-- Where the loop of `delete_leaf` stands when the levels from `i` on are done, `risen` being
the subtree that stays in the place of the deleted leaf. -/
structure DeleteInv (H : Hasher) (env₀ : Env Storage) (k v : Fr) (siblings : List KeyTree)
    (risen : KeyTree) (i : Nat) (vars : DeleteVars) (env : Env Storage) : Prop where
  rtOld : vars.rtOld = nodeKey H (plug (keyBit k) i (siblings.drop i) (.leaf k v))
  rtNew : vars.rtNew = nodeKey H (plug (keyBit k) i (settled (siblings.drop i)) risen)
  mixed : vars.mixed = !(settled (siblings.drop i)).isEmpty
  written : Written H env₀ env
    (fun x => x ∈ pathNodes (keyBit k) i (settled (siblings.drop i)) risen)
    (fun x => x = .leaf k v ∨ x ∈ pathNodes (keyBit k) i (siblings.drop i) (.leaf k v))
  loggedOld : ∀ q ∈ queries H (plug (keyBit k) i (siblings.drop i) (.leaf k v)), q ∈ env.hashed
  loggedNew : ∀ q ∈ queries H (plug (keyBit k) i (settled (siblings.drop i)) risen), q ∈ env.hashed

theorem run_deleteStep {inPlay : Set Query} {env₀ env : Env Storage} {k v : Fr}
    {siblings : List KeyTree} {risen : KeyTree} {vars : DeleteVars} (free : CollisionFree H inPlay)
    (short : siblings.length ≤ 254) (within : ∀ s ∈ siblings, ∀ q ∈ queries H s, q ∈ inPlay)
    (old : ∀ s ∈ siblings, ∀ q ∈ queries H s, q ∈ env₀.hashed)
    {i : Nat} (below : i < siblings.length)
    (inv : DeleteInv H env₀ k v siblings risen (i + 1) vars env) :
    ∃ vars' env',
      (deleteStep H (splitBits (toU256 k)) (siblings.map (nodeKey H)) i vars).run env =
        .ok (vars', env') ∧ DeleteInv H env₀ k v siblings risen i vars' env' := by
  have hbit : (splitBits (toU256 k))[i]? = some (keyBit k i) := by
    rw [getElem?_splitBits _ (by omega), ← turns_toU256, turns]
  have hsib : (siblings.map (nodeKey H))[i]? = some (nodeKey H siblings[i]) := by
    rw [List.getElem?_map, List.getElem?_eq_getElem below, Option.map_some]
  have inList := List.getElem_mem below
  have grown : ∀ q ∈ queries H siblings[i], q ∈ env.hashed :=
    fun q member => inv.written.grows q (old _ inList q member)
  have zero : (nodeKey H siblings[i] != 0) = !isEmpty siblings[i] := by
    by_cases none : siblings[i] = .empty
    · simp [none, isEmpty]
    · have nonzero := nodeKey_ne_zero free none (within _ inList)
      rw [bne_iff_ne.mpr nonzero, Bool.eq_false_iff.mpr (mt (isEmpty_iff _).mp none), Bool.not_false]
  have removed := inv.written.removeBranch (b := keyBit k i) grown inv.loggedOld
  rw [← plug_drop _ below] at removed
  have after := settled_drop below
  by_cases settles : settled (siblings.drop (i + 1)) = [] ∧ isEmpty siblings[i] = true
  · -- nothing but empty siblings from here down, so the loop stays idle
    rw [if_pos settles.1, if_pos settles.2] at after
    have idle : (vars.mixed || nodeKey H siblings[i] != 0) = false := by
      rw [inv.mixed, zero, settles.1, settles.2]
      rfl
    simp only [deleteStep, hbit, hsib, idle, inv.rtOld, run_hashToward, StateT.run_bind,
      Host.run_okOr_some, ok_bind, Host.run_update, Host.run_pure, Bool.false_eq_true, if_false]
    rw [← plug_drop _ below]
    refine ⟨_, _, rfl, ?_⟩
    constructor
    · rfl
    · rw [inv.rtNew, settles.1, after]
      rfl
    · rw [after]
      rfl
    · refine removed.congr ?_ ?_
      · intro x
        rw [settles.1, after, pathNodes, pathNodes]
      · intro x
        rw [pathNodes_drop _ below, List.mem_cons, or_left_comm]
    · exact fun q member => removed.logged _ (Or.inr (Or.inl rfl)) q member
    · rw [after, plug]
      have logged := inv.loggedNew
      rw [settles.1, plug] at logged
      exact fun q member => List.mem_cons_of_mem _ (logged q member)
  · have kept : settled (siblings.drop i) = siblings[i] :: settled (siblings.drop (i + 1)) := by
      rw [after]
      split
      next none => rw [if_neg fun isE => settles ⟨none, isE⟩, none]
      next some => rfl
    have busy : (vars.mixed || nodeKey H siblings[i] != 0) = true := by
      rw [inv.mixed, zero]
      by_cases none : settled (siblings.drop (i + 1)) = []
      · have present : isEmpty siblings[i] = false :=
          Bool.eq_false_iff.mpr fun isE => settles ⟨none, isE⟩
        simp [none, present]
      · simp [none]
    have filed := removed.fileBranch (b := keyBit k i)
      (fun q member => List.mem_cons_of_mem _ (grown q member))
      (fun q member => List.mem_cons_of_mem _ (inv.loggedNew q member))
    have top : plug (keyBit k) i (settled (siblings.drop i)) risen =
        branch (keyBit k i) siblings[i]
          (plug (keyBit k) (i + 1) (settled (siblings.drop (i + 1))) risen) := by
      rw [kept, plug]
    rw [← top] at filed
    simp only [deleteStep, hbit, hsib, busy, inv.rtOld, inv.rtNew, run_hashToward, StateT.run_bind,
      Host.run_okOr_some, ok_bind, Host.run_update, Host.run_pure, if_true]
    rw [← plug_drop _ below, ← top]
    refine ⟨_, _, rfl, ?_⟩
    constructor
    · rfl
    · rfl
    · rw [kept]
      rfl
    · refine filed.congr ?_ ?_
      · intro x
        rw [kept, pathNodes, List.mem_cons]
      · intro x
        rw [pathNodes_drop _ below, List.mem_cons, or_left_comm]
    · exact fun q member => filed.logged _ (Or.inr (Or.inl rfl)) q member
    · exact fun q member => filed.logged _ (Or.inl (Or.inl rfl)) q member

/-- What stays in the place of a deleted leaf: nothing if its sibling is missing or has two
leaves, else the sibling leaf, which then no longer counts as a sibling. -/
structure Vacated (siblings : List KeyTree) (risen : KeyTree) (above : List KeyTree) : Prop where
  shape : (risen = .empty ∧ above = siblings ∧ ∀ last, siblings.getLast? = some last → 2 ≤ last.size) ∨
    ∃ l lv, risen = .leaf l lv ∧ siblings = above ++ [.leaf l lv]

theorem run_deleteStart {k v : Fr} {siblings : List KeyTree} {node : Nodes} (env : Env Storage)
    (canonical : Canonical keyBit 0 (plug (keyBit k) 0 siblings (.leaf k v)))
    (filed : ∀ last, siblings.getLast? = some last → node (nodeKey H last) = some (content H last)) :
    ∃ risen above, (deleteStart node (siblings.map (nodeKey H))).run env =
        .ok ((nodeKey H risen, above.map (nodeKey H)), env) ∧ Vacated siblings risen above := by
  rcases List.eq_nil_or_concat siblings with rfl | ⟨above, last, cut⟩
  · refine ⟨.empty, [], ?_, ⟨Or.inl ⟨rfl, rfl, by simp⟩⟩⟩
    rw [nodeKey_empty]
    rfl
  · rw [List.concat_eq_append] at cut
    subst cut
    have isLast : (above ++ [last]).getLast? = some last := List.getLast?_concat
    have two := ((canonical_plug ..).mp canonical).2.2.2 last isLast
    have onFile := filed last isLast
    have lastKey : ((above ++ [last]).map (nodeKey H)).getLast? = some (nodeKey H last) := by
      simp
    have shortened : ((above ++ [last]).map (nodeKey H)).dropLast = above.map (nodeKey H) := by
      simp
    cases last with
    | empty => simp [SparseTree.size] at two
    | leaf l lv =>
      refine ⟨.leaf l lv, above, ?_, ⟨Or.inr ⟨l, lv, rfl, rfl⟩⟩⟩
      simp only [deleteStart, lastKey, onFile, content, if_true, shortened]
      rfl
    | node left right =>
      refine ⟨.empty, above ++ [.node left right], ?_, ⟨Or.inl ⟨rfl, rfl, ?_⟩⟩⟩
      · simp only [deleteStart, lastKey, onFile, content, nodeKey_empty]
        rfl
      · intro last same
        rw [isLast, Option.some.injEq] at same
        subst same
        have below := ((siblings_append ..).mp ((canonical_plug ..).mp canonical).1).2.2.1
        exact below.2.2.2.2

abbrev pruned (k : Fr) (above : List KeyTree) (risen : KeyTree) : KeyTree :=
  plug (keyBit k) 0 (settled above) risen

structure Deleted (H : Hasher) (env env' : Env Storage) (t : KeyTree) (k v : Fr)
    (siblings above : List KeyTree) (risen : KeyTree) : Prop where
  cut : t = plug (keyBit k) 0 siblings (.leaf k v)
  vacated : Vacated siblings risen above
  root : env'.storage.root = some (nodeKey H (pruned k above risen))
  written : Written H env env' (fun x => x ∈ pathNodes (keyBit k) 0 (settled above) risen)
    (fun x => x = .leaf k v ∨ x ∈ pathNodes (keyBit k) 0 above (.leaf k v))
  logged : ∀ q ∈ queries H (pruned k above risen), q ∈ env'.hashed

def leafRemoved (H : Hasher) (env : Env Storage) (k v : Fr) : Env Storage :=
  (env.logged (.hash2 k v 1)).update (·.removeNode (nodeKey H (.leaf k v)))

theorem leafRemoved_written (H : Hasher) (env : Env Storage) (k v : Fr) :
    Written H env (leafRemoved H env k v) (fun _ => False) (fun x => x = .leaf k v) :=
  (((Written.refl H env).query (.hash2 k v 1)).drop (t := .leaf k v) (by simp [queries])).congr
    (by simp) (by simp)

theorem lastSibling_filed {env : Env Storage} {t : KeyTree} {k v : Fr} {siblings : List KeyTree}
    (rep : Represents H env t) (free : CollisionFree H {q | q ∈ env.hashed})
    (cut : t = plug (keyBit k) 0 siblings (.leaf k v)) {last : KeyTree}
    (isLast : siblings.getLast? = some last) :
    (leafRemoved H env k v).storage.node (nodeKey H last) = some (content H last) := by
  subst cut
  have inList := List.mem_of_getLast? isLast
  obtain ⟨away, -, -, full⟩ := (canonical_plug ..).mp rep.canonical
  have nonempty : last ≠ .empty := by
    intro none
    have two := full last isLast
    simp [none, SparseTree.size] at two
  suffices kept : Stored H (leafRemoved H env k v).storage.node last from
    kept last (mem_subtrees_self nonempty)
  refine (leafRemoved_written H env k v).stored (free.mono ?_) rep.stored ?_ ?_ ?_
  · intro q member
    rcases List.mem_cons.mp member with rfl | older
    · exact rep.logged _ (queries_of_stop _ (List.mem_singleton.mpr rfl))
    · exact older
  · exact fun q member => List.mem_cons_of_mem _ (rep.logged q (queries_of_sibling inList q member))
  · exact fun x member => Or.inr ((mem_subtrees_plug ..).mpr (Or.inr (Or.inl ⟨last, inList, member⟩)))
  · rintro x member rfl
    exact away.not_hasKey keyBit inList (hasKey_of_mem_subtrees member ((hasKey_leaf ..).mpr rfl))

theorem run_deleteLeaf {env : Env Storage} {t : KeyTree} {auths : List Address} {admin : Address}
    {k v : Fr} (rep : Represents H env t) (free : CollisionFree H {q | q ∈ env.hashed})
    (isAdmin : env.storage.admin = some admin) (auth : admin ∈ auths) (has : t.Has k v) :
    ∃ env' siblings above risen,
      (deleteLeaf H auths (toU256 k)).run env = .ok ((), env') ∧
      Deleted H env env' t k v siblings above risen := by
  obtain ⟨siblings, stop, cut, kind, short⟩ := rep.exists_path (toU256 k)
  have find := rep.findKeyInternal_eq free cut kind short
  rw [turns_toU256] at cut
  have isLeaf := rep.stop_eq_leaf cut has kind
  subst isLeaf
  have canonical := rep.canonical
  have logged := rep.logged
  rw [cut] at canonical logged
  obtain ⟨risen, above, started, vacated⟩ := run_deleteStart (H := H) (leafRemoved H env k v)
    canonical (fun last isLast => lastSibling_filed rep free cut isLast)
  have within : above ⊆ siblings ∧ ∀ q ∈ queries H risen, q ∈ env.hashed := by
    rcases vacated.shape with ⟨rfl, rfl, -⟩ | ⟨l, lv, rfl, rfl⟩
    · exact ⟨fun _ member => member, by simp [queries]⟩
    · exact ⟨fun _ member => List.mem_append_left _ member,
        fun q member => logged q (queries_of_sibling (by simp) q member)⟩
  have siblingLogged : ∀ s ∈ above, ∀ q ∈ queries H s, q ∈ env.hashed :=
    fun s member q inS => logged q (queries_of_sibling (within.1 member) q inS)
  have short' : above.length ≤ 254 := by
    rcases vacated.shape with ⟨rfl, rfl, -⟩ | ⟨l, lv, rfl, rfl⟩
    · exact short
    · simp only [List.length_append, List.length_singleton] at short
      omega
  have none : above.drop above.length = [] := List.drop_length
  have init : DeleteInv H env k v above risen above.length
      { mixed := false, rtOld := nodeKey H (.leaf k v), rtNew := nodeKey H risen }
      (leafRemoved H env k v) := by
    constructor
    · rw [none, plug]
    · rw [none]
      rfl
    · rw [none]
      rfl
    · refine (leafRemoved_written H env k v).congr ?_ ?_
      · intro x
        rw [none]
        simp [settled, pathNodes]
      · intro x
        rw [none]
        simp [pathNodes]
    · rw [none, plug]
      exact (leafRemoved_written H env k v).logged _ (Or.inr rfl)
    · rw [none]
      exact fun q member => List.mem_cons_of_mem _ (within.2 q member)
  obtain ⟨vars, env', looped, inv⟩ := Host.run_forDown init (fun i below vars env inv =>
    run_deleteStep free short' siblingLogged siblingLogged below inv)
  refine ⟨(env'.update (·.setRoot vars.rtNew)).update
    (·.publish (.leafDeleted (toU256 k) vars.rtNew)), siblings, above, risen, ?_,
    ⟨cut, vacated, ?_, ?_, inv.loggedNew⟩⟩
  · have found : (pathResult H (toU256 k) siblings (.leaf k v)).found = true := by
      simp [pathResult, endResult]
    have value : (pathResult H (toU256 k) siblings (.leaf k v)).foundValue = toU256 v := by
      simp [pathResult, endResult]
    have passed : (pathResult H (toU256 k) siblings (.leaf k v)).siblings =
        siblings.map (nodeKey H) := rfl
    rw [leafRemoved] at started looped
    simp only [deleteLeaf, StateT.run_bind, Host.run_storage, ok_bind, isAdmin,
      Host.run_okOr_some, Host.run_requireAuth_ok auth, rep.root, find, Host.run_lift_ok, found,
      Bool.not_true, Bool.false_eq_true, if_false, value, passed, run_hashLeaf, Host.run_update,
      started, List.length_map, looped]
  · exact congrArg some inv.rtNew
  · exact (inv.written.setRoot _).publish _

namespace Deleted

variable {env env' : Env Storage} {t risen : KeyTree} {k v : Fr} {siblings above : List KeyTree}

theorem parts (deleted : Deleted H env env' t k v siblings above risen) {P : KeyTree → Prop}
    (empty : ¬P .empty) :
    ((∃ s ∈ settled above, P s) ∨ P risen) ↔ ∃ s ∈ siblings, P s := by
  rw [exists_mem_settled empty]
  rcases deleted.vacated.shape with ⟨rfl, rfl, -⟩ | ⟨l, lv, rfl, rfl⟩
  · simp [empty]
  · simp only [List.mem_append, List.mem_singleton, or_and_right, exists_or, exists_eq_left]

theorem canonical (deleted : Deleted H env env' t k v siblings above risen)
    (before : Canonical keyBit 0 t) : Canonical keyBit 0 (pruned k above risen) := by
  rw [deleted.cut] at before
  rcases deleted.vacated.shape with ⟨rfl, rfl, large⟩ | ⟨l, lv, rfl, rfl⟩
  · have unchanged : settled above = above := by
      refine List.rdropWhile_eq_self_iff.mpr fun nonempty isE => ?_
      have two := large _ (List.getLast?_eq_some_getLast nonempty)
      rw [(isEmpty_iff _).mp isE] at two
      simp [SparseTree.size] at two
    rw [pruned, unchanged]
    exact canonical_delete_slot keyBit _ before large
  · exact canonical_delete_promote keyBit _ before

theorem absent (deleted : Deleted H env env' t k v siblings above risen)
    (before : Canonical keyBit 0 t) : ¬(pruned k above risen).HasKey k := by
  rw [deleted.cut] at before
  obtain ⟨away, -⟩ := (canonical_plug ..).mp before
  intro has
  obtain ⟨s, member, inS⟩ :=
    (deleted.parts (P := SparseTree.HasKey k) (hasKey_empty k)).mp ((hasKey_plug ..).mp has)
  exact away.not_hasKey keyBit member inS

theorem has (deleted : Deleted H env env' t k v siblings above risen)
    (before : Canonical keyBit 0 t) (k' v' : Fr) :
    (pruned k above risen).Has k' v' ↔ k' ≠ k ∧ t.Has k' v' := by
  have parts := deleted.parts (P := SparseTree.Has k' v') (by simp [SparseTree.Has])
  have absent := deleted.absent before
  rw [has_plug] at *
  rw [deleted.cut, has_plug, parts]
  constructor
  · intro inSibling
    refine ⟨?_, Or.inl inSibling⟩
    rintro rfl
    exact absent ⟨v', (has_plug ..).mpr (parts.mpr inSibling)⟩
  · rintro ⟨different, inSibling | atEnd⟩
    · exact inSibling
    · exact absurd atEnd.1.symm different

theorem shared (deleted : Deleted H env env' t k v siblings above risen) (x : KeyTree) :
    (∃ s ∈ settled above, x ∈ s.subtrees) ∨ x ∈ risen.subtrees ↔ ∃ s ∈ siblings, x ∈ s.subtrees :=
  deleted.parts (P := fun s => x ∈ s.subtrees) (by simp [subtrees])

theorem source (deleted : Deleted H env env' t k v siblings above risen) :
    ∀ x ∈ (pruned k above risen).subtrees,
      x ∈ pathNodes (keyBit k) 0 (settled above) risen ∨ x ∈ t.subtrees := by
  intro x member
  refine ((mem_subtrees_plug ..).mp member).imp_right fun off => ?_
  rw [deleted.cut]
  exact (mem_subtrees_plug ..).mpr (Or.inr (Or.inl ((deleted.shared x).mp off)))

theorem kept (deleted : Deleted H env env' t k v siblings above risen)
    (before : Canonical keyBit 0 t) :
    ∀ x ∈ (pruned k above risen).subtrees,
      ¬(x = .leaf k v ∨ x ∈ pathNodes (keyBit k) 0 above (.leaf k v)) := by
  rintro x member dropped
  have here : SparseTree.HasKey k (.leaf k v : KeyTree) := (hasKey_leaf ..).mpr rfl
  apply deleted.absent before
  apply hasKey_of_mem_subtrees member
  rcases dropped with rfl | onPath
  · exact here
  · exact hasKey_of_mem_pathNodes _ onPath here

theorem represents (deleted : Deleted H env env' t k v siblings above risen)
    (rep : Represents H env t) (free : CollisionFree H {q | q ∈ env'.hashed}) :
    Represents H env' (pruned k above risen) :=
  deleted.written.represents rep free deleted.root (deleted.canonical rep.canonical)
    deleted.logged deleted.source (deleted.kept rep.canonical)

/-- A deletion that lets no leaf rise leaves no node behind. With a risen leaf the loop
recomputes the old hashes one level short, and the nodes of the old path stay. -/
theorem exact (deleted : Deleted H env env' t k v siblings above risen)
    (rep : Represents H env t) (free : CollisionFree H {q | q ∈ env'.hashed})
    (whole : ContentStore.Exact (nodeKey H) (content H) env.storage.node {x | x ∈ t.subtrees})
    (noneRises : ∀ l lv, siblings.getLast? ≠ some (.leaf l lv)) :
    ContentStore.Exact (nodeKey H) (content H) env'.storage.node
      {x | x ∈ (pruned k above risen).subtrees} := by
  refine deleted.written.exact_of free whole deleted.logged deleted.source
    (deleted.kept rep.canonical) ?_ ?_
  · exact fun x onPath => (mem_subtrees_plug ..).mpr (Or.inl onPath)
  · intro x member gone
    rw [deleted.cut] at member
    have same : above = siblings := by
      rcases deleted.vacated.shape with ⟨-, same, -⟩ | ⟨l, lv, -, same⟩
      · exact same
      · exact absurd (same ▸ List.getLast?_concat) (noneRises l lv)
    rcases (mem_subtrees_plug ..).mp member with onPath | inSibling | atEnd
    · exact Or.inr (same ▸ onPath)
    · exact absurd ((mem_subtrees_plug ..).mpr (Or.inr ((deleted.shared x).mpr inSibling))) gone
    · exact Or.inl (List.mem_singleton.mp atEnd)

end Deleted

theorem not_succeeds_deleteLeaf {env : Env Storage} {t : KeyTree} {auths : List Address}
    {admin : Address} {key : U256} (rep : Represents H env t)
    (free : CollisionFree H {q | q ∈ env.hashed}) (isAdmin : env.storage.admin = some admin)
    (fault : admin ∉ auths ∨ ¬Canonical key ∨ ¬t.HasKey (ofU256 key)) :
    ¬Host.Succeeds (deleteLeaf H auths key) env := by
  apply Host.not_succeeds_of_error (f := if admin ∈ auths then .error .keyNotFound else .trap)
  by_cases auth : admin ∈ auths
  · obtain ⟨siblings, stop, cut, kind, short⟩ := rep.exists_path key
    have find := rep.findKeyInternal_eq free cut kind short
    have found : (endResult key stop).found = false := by
      cases stop with
      | empty => rfl
      | node left right => rfl
      | leaf k v =>
        by_cases same : toU256 k = key
        · exfalso
          subst same
          rcases fault with unauthorized | outside | missing
          · exact unauthorized auth
          · exact outside (canonical_toU256 k)
          · apply missing
            rw [cut, ofU256_toU256]
            exact (hasKey_plug ..).mpr (Or.inr ((hasKey_leaf ..).mpr rfl))
        · rw [endResult, if_neg same]
    have result : (pathResult H key siblings stop).found = false := found
    simp only [deleteLeaf, StateT.run_bind, Host.run_storage, ok_bind, isAdmin,
      Host.run_okOr_some, Host.run_requireAuth_ok auth, rep.root, find, Host.run_lift_ok, result,
      Bool.not_false, if_true, if_pos auth]
    rfl
  · simp only [deleteLeaf, StateT.run_bind, Host.run_storage, ok_bind, isAdmin,
      Host.run_okOr_some, Host.run_requireAuth_trap auth, error_bind, if_neg auth]

end PrivatePayments.AspNonMembership
