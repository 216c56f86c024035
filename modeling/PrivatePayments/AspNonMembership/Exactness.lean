import PrivatePayments.AspNonMembership.Refinement
import PrivatePayments.Library.Nearest

/-!
Which node entries a run leaves in storage. Insertions and most deletions leave
exactly the nodes of the tree; a deletion that lets a sibling leaf rise does not
remove the old path.
-/

namespace PrivatePayments.AspNonMembership
open Bn254 Poseidon2 Soroban Library SparseTree TreePath KeyTree Nearest

def StorageExact (s : Storage) : Prop := ∀ h, s.node h ≠ none ↔ Reachable s h

/-- Of the stored keys other than `key`, `near` shares more of its low bits than any other. -/
def NearestTo (s : Storage) (key near : U256) : Prop :=
  near ≠ key ∧ (∃ v, Blocks s near v) ∧
    ∀ far v, Blocks s far v → far ≠ key → far ≠ near → Nearer turns (turns key) near far

/-- The call deletes no stored key that has a nearest neighbour. -/
def Steady (s : Storage) : Call → Prop
  | .deleteLeaf auths key =>
      (∃ owner ∈ auths, s.admin = some owner) → (∃ v, Blocks s key v) →
        ¬∃ near, NearestTo s key near
  | _ => True

theorem nearer_toU256 (dir : Nat → Bool) (near far : Fr) :
    Nearer turns dir (toU256 near) (toU256 far) ↔ Nearer keyBit dir near far := by
  simp only [Nearer, turns_toU256]

namespace Represents

variable {H : Hasher} {env : Env Storage} {t : KeyTree}

/-- The neighbour is the sibling leaf of the stored key. -/
theorem nearestTo_iff (rep : Represents H env t) (free : CollisionFree H {q | q ∈ env.hashed})
    {k v : Fr} {siblings : List KeyTree} (cut : t = plug (keyBit k) 0 siblings (.leaf k v)) :
    (∃ near, NearestTo env.storage (toU256 k) near) ↔
      ∃ l lv, siblings.getLast? = some (.leaf l lv) := by
  have canonical := rep.canonical
  rw [cut] at canonical
  obtain ⟨away, -⟩ := (canonical_plug ..).mp canonical
  have off (l : Fr) : (∃ s ∈ siblings, s.HasKey l) ↔ l ≠ k ∧ t.HasKey l := by
    rw [cut, hasKey_plug, hasKey_leaf]
    constructor
    · rintro ⟨s, member, inS⟩
      refine ⟨?_, Or.inl ⟨s, member, inS⟩⟩
      rintro rfl
      exact away.not_hasKey keyBit member inS
    · rintro ⟨different, inSibling | same⟩
      · exact inSibling
      · exact absurd same.symm different
  have last := nearest_iff_last canonical (Nat.le_refl 1)
  constructor
  · rintro ⟨near, different, ⟨value, blocks⟩, nearest⟩
    obtain ⟨l, lv, rfl, rfl, has⟩ := (rep.blocks_iff free _ _).mp blocks
    have apart : l ≠ k := fun same => different (congrArg toU256 same)
    obtain ⟨lv', isLast⟩ := (last l).mp ⟨(off l).mpr ⟨apart, lv, has⟩, fun far inSibling other => by
      obtain ⟨apart', value', has'⟩ := (off far).mp inSibling
      rw [← nearer_toU256, ← turns_toU256]
      exact nearest _ _ ((rep.blocks_iff free _ _).mpr ⟨far, value', rfl, rfl, has'⟩)
        (fun same => apart' (toU256_injective same)) (fun same => other (toU256_injective same))⟩
    exact ⟨l, lv', isLast⟩
  · rintro ⟨l, lv, isLast⟩
    obtain ⟨inSibling, nearest⟩ := (last l).mpr ⟨lv, isLast⟩
    obtain ⟨apart, value, has⟩ := (off l).mp inSibling
    refine ⟨toU256 l, fun same => apart (toU256_injective same),
      ⟨_, (rep.blocks_iff free _ _).mpr ⟨l, value, rfl, rfl, has⟩⟩, ?_⟩
    intro far farValue blocks different other
    obtain ⟨f, fv, rfl, rfl, inTree⟩ := (rep.blocks_iff free _ _).mp blocks
    rw [nearer_toU256, turns_toU256]
    exact nearest f ((off f).mpr ⟨fun same => different (congrArg toU256 same), fv, inTree⟩)
      (fun same => other (congrArg toU256 same))

/-- For a key that is not stored the neighbour is the leaf its path ends at. -/
theorem nearestTo_stop_iff (rep : Represents H env t) (free : CollisionFree H {q | q ∈ env.hashed})
    {key : U256} {siblings : List KeyTree} {stop : KeyTree}
    (cut : t = plug (turns key) 0 siblings stop) (kind : stop = .empty ∨ ∃ k v, stop = .leaf k v)
    (unstored : ∀ v, ¬Blocks env.storage key v) (value : U256) :
    (∃ near, NearestTo env.storage key near ∧ Blocks env.storage near value) ↔
      ∃ l lv, value = toU256 lv ∧ stop = .leaf l lv := by
  have canonical := rep.canonical
  rw [cut] at canonical
  have ends (l : Fr) := nearest_iff_stop canonical kind l
  rw [← cut] at ends
  constructor
  · rintro ⟨near, ⟨-, -, nearest⟩, blocks⟩
    obtain ⟨l, lv, rfl, rfl, has⟩ := (rep.blocks_iff free _ _).mp blocks
    obtain ⟨lv', isStop⟩ := (ends l).mp ⟨⟨lv, has⟩, fun far ⟨value', has'⟩ other => by
      have blocks' := (rep.blocks_iff free _ _).mpr ⟨far, value', rfl, rfl, has'⟩
      rw [← nearer_toU256]
      exact nearest _ _ blocks' (fun same => unstored _ (same ▸ blocks'))
        (fun same => other (toU256_injective same))⟩
    refine ⟨l, lv, rfl, ?_⟩
    -- the tree has one value for the key
    have first := rep.canonical.find?_of_has keyBit has
    have second := rep.canonical.find?_of_has (k := l) (v := lv') keyBit (by
      rw [cut, isStop]
      exact (has_plug ..).mpr (Or.inr ⟨rfl, rfl⟩))
    rw [isStop, Option.some.inj (first.symm.trans second)]
  · rintro ⟨l, lv, rfl, isStop⟩
    obtain ⟨-, nearest⟩ := (ends l).mpr ⟨lv, isStop⟩
    have has : t.Has l lv := by
      rw [cut, isStop]
      exact (has_plug ..).mpr (Or.inr ⟨rfl, rfl⟩)
    have blocks := (rep.blocks_iff free _ _).mpr ⟨l, lv, rfl, rfl, has⟩
    refine ⟨toU256 l, ⟨fun same => unstored _ (same ▸ blocks), ⟨_, blocks⟩, ?_⟩, blocks⟩
    intro far farValue blocks' _ other
    obtain ⟨f, fv, rfl, rfl, inTree⟩ := (rep.blocks_iff free _ _).mp blocks'
    rw [nearer_toU256]
    exact nearest f ⟨fv, inTree⟩ (fun same => other (congrArg toU256 same))

theorem exact_iff (rep : Represents H env t) (free : CollisionFree H {q | q ∈ env.hashed}) :
    StorageExact env.storage ↔
      ContentStore.Exact (nodeKey H) (content H) env.storage.node {x | x ∈ t.subtrees} := by
  constructor
  · intro exact
    exact ⟨rep.stored, fun h filed => (rep.reachable_iff free h).mp ((exact h).mp filed)⟩
  · exact fun whole => rep.stored_iff_reachable free whole

end Represents

variable {H : Hasher} {env env' : Env Storage} {t : KeyTree}

/-- When the sibling leaf rises, the old root stays on file although nothing leads to it. -/
theorem Deleted.not_exact {k v : Fr} {siblings above : List KeyTree} {risen : KeyTree}
    (deleted : Deleted H env env' t k v siblings above risen) (rep : Represents H env t)
    (free : CollisionFree H {q | q ∈ env'.hashed}) {l lv : Fr}
    (rises : siblings.getLast? = some (.leaf l lv)) : ¬StorageExact env'.storage := by
  intro exact
  have cut := deleted.cut
  obtain ⟨away, -, -, -⟩ := (canonical_plug ..).mp (cut ▸ rep.canonical)
  have split : siblings = above ++ [.leaf l lv] := by
    rcases deleted.vacated.shape with ⟨-, -, large⟩ | ⟨l', lv', -, same⟩
    · have two := large _ rises
      simp [SparseTree.size] at two
    · rw [same, List.getLast?_concat, Option.some.injEq] at rises
      rw [same, rises]
  have hasKey : t.HasKey k := by
    rw [cut]
    exact (hasKey_plug ..).mpr (Or.inr ((hasKey_leaf ..).mpr rfl))
  have hasRisen : t.HasKey l := by
    rw [cut]
    exact (hasKey_plug ..).mpr (Or.inl ⟨_, List.mem_of_getLast? rises, (hasKey_leaf ..).mpr rfl⟩)
  have different : l ≠ k := by
    rintro rfl
    exact away.not_hasKey keyBit (List.mem_of_getLast? rises) ((hasKey_leaf ..).mpr rfl)
  have nonempty : t ≠ .empty := by
    rintro rfl
    exact hasKey_empty k hasKey
  -- the removed nodes lack the risen key, the old root has it
  have undropped : ¬(t = .leaf k v ∨ t ∈ pathNodes (keyBit k) 0 above (.leaf k v)) := by
    have lacks : ¬(plug (keyBit k) 0 above (.leaf k v)).HasKey l := by
      intro has
      rw [split] at away
      obtain ⟨awayFront, follows, -⟩ := (TreeUpdate.siblings_append ..).mp away
      rcases (hasKey_plug ..).mp has with ⟨s, member, inS⟩ | atEnd
      · obtain ⟨i, below, turned, -⟩ := exists_turn awayFront member inS
        rw [Nat.zero_add] at turned
        exact turned (follows _ (List.mem_singleton.mpr rfl) l ((hasKey_leaf ..).mpr rfl) i
          (Nat.zero_le i) (by omega))
      · exact different ((hasKey_leaf ..).mp atEnd).symm
    rintro (isLeaf | onPath)
    · rw [isLeaf, hasKey_leaf] at hasRisen
      exact different hasRisen.symm
    · exact lacks (hasKey_plug_of_mem_pathNodes _ onPath hasRisen)
  have stillFiled : env'.storage.node (nodeKey H t) = some (content H t) := by
    obtain ⟨edits, node, hasAdded, hasDropped⟩ := deleted.written.edits
    rw [node]
    suffices alone : ContentStore.Holds (nodeKey H) (content H)
        (ContentStore.applyAll (nodeKey H) (content H) env.storage.node edits) {t} from alone t rfl
    refine ContentStore.Holds.applyAll rep.stored (nodeKey_injOn free) ?_ ?_ ?_ ?_
    · intro edit member
      cases edit with
      | add x => exact deleted.written.logged x (Or.inl ((hasAdded x).mp member))
      | drop x => exact deleted.written.logged x (Or.inr ((hasDropped x).mp member))
    · rintro x rfl q member
      exact deleted.written.grows q (rep.logged q member)
    · rintro x rfl
      exact Or.inr (mem_subtrees_self nonempty)
    · rintro x rfl inEdits
      exact undropped ((hasDropped _).mp inEdits)
  have after := deleted.represents rep free
  obtain ⟨x, member, same⟩ := (after.reachable_iff free _).mp
    ((exact (nodeKey H t)).mp (by rw [stillFiled]; exact Option.some_ne_none _))
  have isOld : x = t := nodeKey_injOn free (after.within member)
    (fun q inT => deleted.written.grows q (rep.logged q inT)) same
  exact deleted.absent rep.canonical (hasKey_of_mem_subtrees member (isOld ▸ hasKey))

/-- From an exact storage a call leads to an exact storage iff it is steady. -/
theorem Tracks.exact_step {M : Blocklist} (tracks : Tracks H env t M) {call : Call}
    (free : CollisionFree H {q | q ∈ (AspNonMembership.step H env call).hashed})
    (exact : StorageExact env.storage) :
    StorageExact (AspNonMembership.step H env call).storage ↔ Steady env.storage call := by
  have before := free.mono (step_grows env call)
  have whole := (tracks.toRepresents.exact_iff before).mp exact
  by_cases accepted : M.Accepts call
  · cases call with
    | insertLeaf auths key value =>
      obtain ⟨auth, inKey, inValue, absent⟩ := accepted
      have missing : ¬t.HasKey (ofU256 key) := mt (tracks.entry_ofU256 inKey).mpr (by simp [absent])
      obtain ⟨env', siblings, extra, stop, returned, inserted⟩ := run_insertLeaf (ofU256 value)
        tracks.toRepresents before tracks.sameAdmin auth missing
      rw [toU256_ofU256 inKey, toU256_ofU256 inValue] at returned
      have moved : AspNonMembership.step H env (.insertLeaf auths key value) = env' :=
        Host.invoke_ok returned
      rw [moved] at free ⊢
      refine iff_of_true ?_ trivial
      exact ((inserted.represents tracks.toRepresents free).exact_iff free).mpr
        (inserted.exact tracks.toRepresents free whole)
    | deleteLeaf auths key =>
      obtain ⟨auth, present⟩ := accepted
      obtain ⟨value, entry⟩ := Option.ne_none_iff_exists'.mp present
      obtain ⟨k, v, rfl, rfl, has⟩ := (tracks.entry _ _).mp entry
      obtain ⟨env', siblings, above, risen, returned, deleted⟩ := run_deleteLeaf
        tracks.toRepresents before tracks.sameAdmin auth has
      have moved : AspNonMembership.step H env (.deleteLeaf auths (toU256 k)) = env' :=
        Host.invoke_ok returned
      rw [moved] at free ⊢
      have neighbour := tracks.toRepresents.nearestTo_iff before deleted.cut
      constructor
      · rintro exact' - - near
        obtain ⟨l, lv, rises⟩ := neighbour.mp near
        exact deleted.not_exact tracks.toRepresents free rises exact'
      · intro steady
        have alone := steady ⟨_, auth, tracks.sameAdmin⟩
          ⟨_, (tracks.toRepresents.blocks_iff before _ _).mpr ⟨k, v, rfl, rfl, has⟩⟩
        refine ((deleted.represents tracks.toRepresents free).exact_iff free).mpr
          (deleted.exact tracks.toRepresents free whole ?_)
        exact fun l lv rises => alone (neighbour.mpr ⟨l, lv, rises⟩)
    | updateAdmin auths newAdmin =>
      have moved : AspNonMembership.step H env (.updateAdmin auths newAdmin) =
          env.update fun s => { s with admin := some newAdmin } := by
        apply Host.invoke_ok (a := ())
        simp only [Call.program, updateAdmin, StateT.run_bind, Host.run_storage, ok_bind,
          tracks.sameAdmin, Host.run_requireAuth_ok accepted, Host.run_update]
      rw [moved]
      have rep : Represents H (env.update fun s => { s with admin := some newAdmin }) t :=
        ⟨⟨newAdmin, rfl⟩, tracks.root, tracks.canonical, tracks.stored, tracks.logged⟩
      exact iff_of_true ((rep.exact_iff before).mpr whole) trivial
  · have stayed : AspNonMembership.step H env call = env :=
      Host.invoke_failed (tracks.not_succeeds before accepted)
    rw [stayed]
    refine iff_of_true exact ?_
    cases call with
    | insertLeaf auths key value => trivial
    | updateAdmin auths newAdmin => trivial
    | deleteLeaf auths key =>
      rintro ⟨owner, auth, isOwner⟩ ⟨v, blocks⟩
      rw [tracks.sameAdmin, Option.some.injEq] at isOwner
      have entry := (tracks.blocks_iff before key v).mp blocks
      exact absurd ⟨isOwner ▸ auth, by simp [entry]⟩ accepted

def SteadyRun (H : Hasher) (admin : Address) (calls : List Call) : Prop :=
  ∀ before call after, calls = before ++ call :: after → Steady (run H admin before).storage call

theorem exact_run {admin : Address} {calls : List Call}
    (free : CollisionFree H {q | q ∈ (run H admin calls).hashed})
    (steady : SteadyRun H admin calls) : StorageExact (run H admin calls).storage := by
  induction calls using List.reverseRecOn with
  | nil =>
    refine ((tracks_deployed H admin).toRepresents.exact_iff free).mpr ⟨?_, ?_⟩
    · exact (tracks_deployed H admin).stored
    · exact fun h filed => absurd rfl filed
  | append_singleton calls call ih =>
    have last := steady calls call [] rfl
    rw [run_concat] at free ⊢
    have before := free.mono (step_grows _ call)
    obtain ⟨t, tracks⟩ := tracks_run before
    refine (tracks.exact_step free (ih before ?_)).mpr last
    intro front c back split
    exact steady front c (back ++ [call]) (by rw [split]; simp)

/-- A run of steady calls leaves exactly the nodes of the tree in storage, and the first call
that is not steady leaves more. -/
theorem steady_run_storage_exact {admin : Address} {calls : List Call}
    (free : CollisionFree H {q | q ∈ (run H admin calls).hashed})
    (steady : SteadyRun H admin calls) :
    StorageExact (run H admin calls).storage ∧
    ∀ call, CollisionFree H {q | q ∈ (run H admin (calls ++ [call])).hashed} →
      (StorageExact (run H admin (calls ++ [call])).storage ↔
        Steady (run H admin calls).storage call) := by
  refine ⟨exact_run free steady, fun call free' => ?_⟩
  rw [run_concat] at free' ⊢
  obtain ⟨t, tracks⟩ := tracks_run free
  exact tracks.exact_step free' (exact_run free steady)

/-- The only stored key has no neighbour. -/
theorem steady_run_storage_exact_sample :
    StorageExact (run poseidon2 ⟨0⟩ [.insertLeaf [⟨0⟩] 1 5, .deleteLeaf [⟨0⟩] 1]).storage := by
  have free : CollisionFree poseidon2
      {q | q ∈ (run poseidon2 ⟨0⟩ [.insertLeaf [⟨0⟩] 1 5, .deleteLeaf [⟨0⟩] 1]).hashed} :=
    CollisionFree.of_log _ (by decide +kernel)
  refine (steady_run_storage_exact free ?_).1
  intro before call after split
  rcases before with _ | ⟨first, _ | ⟨second, rest⟩⟩
  · cases split
    trivial
  · cases split
    rintro - - ⟨near, different, ⟨v, blocks⟩, -⟩
    have freeFirst : CollisionFree poseidon2
        {q | q ∈ (run poseidon2 ⟨0⟩ [.insertLeaf [⟨0⟩] 1 5]).hashed} :=
      CollisionFree.of_log _ (by decide +kernel)
    obtain ⟨t, tracks⟩ := tracks_run freeFirst
    have entry := (tracks.blocks_iff freeFirst near v).mp blocks
    have accepted : (Blocklist.deployed ⟨0⟩).Accepts (.insertLeaf [⟨0⟩] 1 5) := by decide +kernel
    rw [Blocklist.run, List.foldl_cons, List.foldl_nil, Blocklist.step, if_pos accepted] at entry
    change Function.update (Blocklist.deployed ⟨0⟩).entries 1 (some 5) near = some v at entry
    rw [Function.update_of_ne different] at entry
    cases entry
  · simp at split

def risingCalls : List Call :=
  [.insertLeaf [⟨0⟩] 1 5, .insertLeaf [⟨0⟩] 2 7, .deleteLeaf [⟨0⟩] 2]

/-- The root over both leaves is still on file, although the stored root is the other leaf. -/
theorem risingCalls_not_exact :
    CollisionFree poseidon2 {q | q ∈ (run poseidon2 ⟨0⟩ risingCalls).hashed} ∧
    ¬StorageExact (run poseidon2 ⟨0⟩ risingCalls).storage := by
  refine ⟨CollisionFree.of_log _ (by decide +kernel), fun exact => ?_⟩
  have rootIs : (run poseidon2 ⟨0⟩ risingCalls).storage.root =
      some (nodeKey poseidon2 (.leaf 1 5)) := by decide +kernel
  have rootLeaf : (run poseidon2 ⟨0⟩ risingCalls).storage.node (nodeKey poseidon2 (.leaf 1 5)) =
      some [1, 1, 5] := by decide +kernel
  have stale : (run poseidon2 ⟨0⟩ risingCalls).storage.node
      (nodeKey poseidon2 (.node (.leaf 2 7) (.leaf 1 5))) ≠ none := by decide +kernel
  have only (h : U256) (reachable : Reachable (run poseidon2 ⟨0⟩ risingCalls).storage h) :
      h = nodeKey poseidon2 (.leaf 1 5) := by
    induction reachable with
    | root isRoot nonzero =>
      rw [rootIs, Option.some.injEq] at isRoot
      exact isRoot.symm
    | left parent filed nonzero ih =>
      rw [ih, rootLeaf] at filed
      simp at filed
    | right parent filed nonzero ih =>
      rw [ih, rootLeaf] at filed
      simp at filed
  have apart : nodeKey poseidon2 (.node (.leaf 2 7) (.leaf 1 5)) ≠ nodeKey poseidon2 (.leaf 1 5) := by
    decide +kernel
  exact apart (only _ ((exact _).mp stale))

end PrivatePayments.AspNonMembership
