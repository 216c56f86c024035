import PrivatePayments.AspNonMembership.Log
import PrivatePayments.AspNonMembership.Reachable
import PrivatePayments.Poseidon2.Permutation

/-!
What the contract is for: a finite map of blocked keys that its admin edits. Every
run of the contract follows the run of the map.
-/

namespace PrivatePayments.AspNonMembership
open Bn254 Poseidon2 Soroban Library SparseTree TreePath KeyTree

/-- The map the tree stands for, and who may edit it. -/
structure Blocklist where
  admin : Address
  entries : U256 → Option U256

namespace Blocklist

def deployed (admin : Address) : Blocklist := { admin := admin, entries := fun _ => none }

def Accepts (M : Blocklist) : Call → Prop
  | .insertLeaf auths key value =>
      M.admin ∈ auths ∧ Canonical key ∧ Canonical value ∧ M.entries key = none
  | .deleteLeaf auths key => M.admin ∈ auths ∧ M.entries key ≠ none
  | .updateAdmin auths _ => M.admin ∈ auths

instance (M : Blocklist) : DecidablePred M.Accepts
  | .insertLeaf _ _ _ => inferInstanceAs (Decidable (_ ∧ _ ∧ _ ∧ _))
  | .deleteLeaf _ _ => inferInstanceAs (Decidable (_ ∧ _))
  | .updateAdmin _ _ => inferInstanceAs (Decidable (_ ∈ _))

def apply (M : Blocklist) : Call → Blocklist
  | .insertLeaf _ key value => { M with entries := Function.update M.entries key (some value) }
  | .deleteLeaf _ key => { M with entries := Function.update M.entries key none }
  | .updateAdmin _ newAdmin => { M with admin := newAdmin }

def step (M : Blocklist) (call : Call) : Blocklist := if M.Accepts call then M.apply call else M

def run (admin : Address) (calls : List Call) : Blocklist := calls.foldl step (deployed admin)

theorem run_concat (admin : Address) (calls : List Call) (call : Call) :
    run admin (calls ++ [call]) = (run admin calls).step call := by
  rw [run, List.foldl_append]
  rfl

theorem finite_step {M : Blocklist} (finite : {key | M.entries key ≠ none}.Finite) (call : Call) :
    {key | (M.step call).entries key ≠ none}.Finite := by
  rw [step]
  split
  next =>
    cases call with
    | insertLeaf auths key value =>
      refine (finite.insert key).subset fun key' present => ?_
      by_cases same : key' = key
      · exact Or.inl same
      · refine Or.inr ?_
        simpa only [Set.mem_ofPred_eq, apply, Function.update_of_ne same] using present
    | deleteLeaf auths key =>
      refine finite.subset fun key' present => ?_
      by_cases same : key' = key
      · simp [apply, same] at present
      · simpa only [Set.mem_ofPred_eq, apply, Function.update_of_ne same] using present
    | updateAdmin auths newAdmin => exact finite
  next => exact finite

theorem finite_run (admin : Address) (calls : List Call) :
    {key | (run admin calls).entries key ≠ none}.Finite := by
  induction calls using List.reverseRecOn with
  | nil => simp [run, deployed]
  | append_singleton calls call ih =>
    rw [run_concat]
    exact finite_step ih call

end Blocklist

theorem run_concat (H : Hasher) (admin : Address) (calls : List Call) (call : Call) :
    run H admin (calls ++ [call]) = step H (run H admin calls) call := by
  rw [run, List.foldl_append]
  rfl

structure Tracks (H : Hasher) (env : Env Storage) (t : KeyTree) (M : Blocklist) : Prop
    extends Represents H env t where
  sameAdmin : env.storage.admin = some M.admin
  entry : ∀ key value,
    M.entries key = some value ↔ ∃ k v, key = toU256 k ∧ value = toU256 v ∧ t.Has k v

namespace Tracks

variable {H : Hasher} {env : Env Storage} {t : KeyTree} {M : Blocklist}

theorem entry_ofU256 (tracks : Tracks H env t M) {key : U256} (inside : Canonical key) :
    M.entries key ≠ none ↔ t.HasKey (ofU256 key) := by
  rw [Option.ne_none_iff_exists']
  constructor
  · rintro ⟨value, entry⟩
    obtain ⟨k, v, rfl, rfl, has⟩ := (tracks.entry _ _).mp entry
    rw [ofU256_toU256]
    exact ⟨v, has⟩
  · rintro ⟨v, has⟩
    exact ⟨toU256 v, (tracks.entry _ _).mpr ⟨_, v, (toU256_ofU256 inside).symm, rfl, has⟩⟩

theorem canonical_key (tracks : Tracks H env t M) {key value : U256}
    (entry : M.entries key = some value) : Canonical key := by
  obtain ⟨k, v, rfl, -, -⟩ := (tracks.entry _ _).mp entry
  exact canonical_toU256 k

theorem advance (tracks : Tracks H env t M) (free : CollisionFree H {q | q ∈ env.hashed})
    {call : Call} (accepted : M.Accepts call) :
    ∃ env', (call.program H).run env = .ok ((), env') ∧
      (CollisionFree H {q | q ∈ env'.hashed} → ∃ t', Tracks H env' t' (M.apply call)) := by
  cases call with
  | insertLeaf auths key value =>
    obtain ⟨auth, inKey, inValue, absent⟩ := accepted
    have missing : ¬t.HasKey (ofU256 key) := mt (tracks.entry_ofU256 inKey).mpr (by simp [absent])
    obtain ⟨env', siblings, extra, stop, returned, inserted⟩ := run_insertLeaf (ofU256 value)
      tracks.toRepresents free tracks.sameAdmin auth missing
    rw [toU256_ofU256 inKey, toU256_ofU256 inValue] at returned
    refine ⟨env', returned, fun free' => ⟨_, inserted.represents tracks.toRepresents free', ?_, ?_⟩⟩
    · rw [inserted.written.admin]
      exact tracks.sameAdmin
    · intro key' value'
      by_cases same : key' = key
      · subst same
        simp only [Blocklist.apply, Function.update_self, Option.some.injEq, inserted.has]
        constructor
        · rintro rfl
          exact ⟨_, _, (toU256_ofU256 inKey).symm, (toU256_ofU256 inValue).symm,
            Or.inl ⟨rfl, rfl⟩⟩
        · rintro ⟨k, v, rfl, rfl, ⟨-, isValue⟩ | older⟩
          · rw [← isValue, toU256_ofU256 inValue]
          · rw [ofU256_toU256] at missing
            exact absurd ⟨v, older⟩ missing
      · simp only [Blocklist.apply, Function.update_of_ne same, tracks.entry, inserted.has]
        constructor
        · rintro ⟨k, v, rfl, rfl, has⟩
          exact ⟨k, v, rfl, rfl, Or.inr has⟩
        · rintro ⟨k, v, rfl, rfl, ⟨isKey, -⟩ | has⟩
          · exact absurd (by rw [← isKey, toU256_ofU256 inKey]) same
          · exact ⟨k, v, rfl, rfl, has⟩
  | deleteLeaf auths key =>
    obtain ⟨auth, present⟩ := accepted
    obtain ⟨value, entry⟩ := Option.ne_none_iff_exists'.mp present
    obtain ⟨k, v, rfl, rfl, has⟩ := (tracks.entry _ _).mp entry
    obtain ⟨env', siblings, above, risen, returned, deleted⟩ := run_deleteLeaf
      tracks.toRepresents free tracks.sameAdmin auth has
    refine ⟨env', returned, fun free' => ⟨_, deleted.represents tracks.toRepresents free', ?_, ?_⟩⟩
    · rw [deleted.written.admin]
      exact tracks.sameAdmin
    · intro key' value'
      by_cases same : key' = toU256 k
      · subst same
        simp only [Blocklist.apply, Function.update_self, deleted.has tracks.canonical]
        simp
      · simp only [Blocklist.apply, Function.update_of_ne same, tracks.entry,
          deleted.has tracks.canonical]
        constructor
        · rintro ⟨k', v', rfl, rfl, has'⟩
          exact ⟨k', v', rfl, rfl, fun isKey => same (congrArg toU256 isKey), has'⟩
        · rintro ⟨k', v', rfl, rfl, -, has'⟩
          exact ⟨k', v', rfl, rfl, has'⟩
  | updateAdmin auths newAdmin =>
    refine ⟨env.update fun s => { s with admin := some newAdmin }, ?_, fun _ => ⟨t, ?_, rfl, ?_⟩⟩
    · simp only [Call.program, updateAdmin, StateT.run_bind, Host.run_storage, ok_bind,
        tracks.sameAdmin, Host.run_requireAuth_ok accepted, Host.run_update]
    · exact ⟨⟨newAdmin, rfl⟩, tracks.root, tracks.canonical, tracks.stored, tracks.logged⟩
    · exact tracks.entry

theorem not_succeeds (tracks : Tracks H env t M) (free : CollisionFree H {q | q ∈ env.hashed})
    {call : Call} (refused : ¬M.Accepts call) : ¬Host.Succeeds (call.program H) env := by
  cases call with
  | insertLeaf auths key value =>
    apply not_succeeds_insertLeaf tracks.toRepresents free tracks.sameAdmin
    by_contra fine
    push Not at fine
    obtain ⟨auth, inKey, inValue, missing⟩ := fine
    refine refused ⟨auth, inKey, inValue, ?_⟩
    by_contra present
    exact missing ((tracks.entry_ofU256 inKey).mp present)
  | deleteLeaf auths key =>
    apply not_succeeds_deleteLeaf tracks.toRepresents free tracks.sameAdmin
    by_contra fine
    push Not at fine
    obtain ⟨auth, inKey, has⟩ := fine
    exact refused ⟨auth, (tracks.entry_ofU256 inKey).mpr has⟩
  | updateAdmin auths newAdmin =>
    apply Host.not_succeeds_of_error (f := .trap)
    simp only [Call.program, updateAdmin, StateT.run_bind, Host.run_storage, ok_bind,
      tracks.sameAdmin, Host.run_requireAuth_trap refused, error_bind]

theorem succeeds_iff (tracks : Tracks H env t M) (free : CollisionFree H {q | q ∈ env.hashed})
    (call : Call) : Host.Succeeds (call.program H) env ↔ M.Accepts call := by
  by_cases accepted : M.Accepts call
  · obtain ⟨env', returned, -⟩ := tracks.advance free accepted
    exact iff_of_true (Host.succeeds_of_ok returned) accepted
  · exact iff_of_false (tracks.not_succeeds free accepted) accepted

theorem step (tracks : Tracks H env t M) (call : Call)
    (free : CollisionFree H {q | q ∈ (AspNonMembership.step H env call).hashed}) :
    ∃ t', Tracks H (AspNonMembership.step H env call) t' (M.step call) := by
  have before := free.mono (step_grows env call)
  rw [Blocklist.step]
  by_cases accepted : M.Accepts call
  · obtain ⟨env', returned, follows⟩ := tracks.advance before accepted
    have moved : AspNonMembership.step H env call = env' := Host.invoke_ok returned
    rw [moved] at free ⊢
    rw [if_pos accepted]
    exact follows free
  · have stayed : AspNonMembership.step H env call = env :=
      Host.invoke_failed (tracks.not_succeeds before accepted)
    rw [stayed, if_neg accepted]
    exact ⟨t, tracks⟩

end Tracks

theorem tracks_deployed (H : Hasher) (admin : Address) :
    Tracks H (deployed admin) .empty (Blocklist.deployed admin) where
  admin := ⟨admin, rfl⟩
  root := by rw [nodeKey_empty]; rfl
  canonical := trivial
  stored := by simp [subtrees, ContentStore.Holds]
  logged := by simp [queries]
  sameAdmin := rfl
  entry := by simp [Blocklist.deployed, SparseTree.Has]

theorem tracks_run {H : Hasher} {admin : Address} {calls : List Call}
    (free : CollisionFree H {q | q ∈ (run H admin calls).hashed}) :
    ∃ t, Tracks H (run H admin calls) t (Blocklist.run admin calls) := by
  induction calls using List.reverseRecOn with
  | nil => exact ⟨.empty, tracks_deployed H admin⟩
  | append_singleton calls call ih =>
    rw [run_concat] at free ⊢
    obtain ⟨t, tracks⟩ := ih (free.mono (step_grows _ call))
    rw [Blocklist.run_concat]
    exact tracks.step call free

namespace Tracks

variable {H : Hasher} {env env' : Env Storage} {t t' : KeyTree} {M M' : Blocklist}

theorem blocks_iff (tracks : Tracks H env t M) (free : CollisionFree H {q | q ∈ env.hashed})
    (key value : U256) : Blocks env.storage key value ↔ M.entries key = some value := by
  rw [tracks.toRepresents.blocks_iff free, tracks.entry]

theorem findKey_eq (tracks : Tracks H env t M) (free : CollisionFree H {q | q ∈ env.hashed})
    (key : U256) : ∃ r, findKey env.storage key = .ok r ∧
      M.entries key = if r.found then some r.foundValue else none := by
  obtain ⟨siblings, stop, cut, kind, short⟩ := tracks.toRepresents.exists_path key
  refine ⟨_, tracks.toRepresents.findKey_eq free cut kind short, ?_⟩
  by_cases inside : Canonical key
  · rw [← toU256_ofU256 inside, turns_toU256] at cut
    by_cases present : M.entries key = none
    · have missing := mt (tracks.entry_ofU256 inside).mpr (by simp [present])
      have ended : (endResult key stop).found = false := by
        rcases kind with rfl | ⟨k, v, rfl⟩
        · rfl
        · have different : toU256 k ≠ key := by
            rintro rfl
            rw [ofU256_toU256, cut] at missing
            exact missing ((hasKey_plug ..).mpr (Or.inr ((hasKey_leaf ..).mpr rfl)))
          rw [endResult, if_neg different]
      rw [present, pathResult, ended]
      rfl
    · obtain ⟨v, has⟩ := (tracks.entry_ofU256 inside).mp present
      have entry := (tracks.entry _ _).mpr ⟨_, v, rfl, rfl, has⟩
      rw [toU256_ofU256 inside] at entry
      rw [entry, tracks.toRepresents.stop_eq_leaf cut has kind, pathResult, endResult,
        if_pos (toU256_ofU256 inside)]
      rfl
  · have none : M.entries key = none := by
      by_contra present
      obtain ⟨value, entry⟩ := Option.ne_none_iff_exists'.mp present
      exact inside (tracks.canonical_key entry)
    have ended : (endResult key stop).found = false := by
      rcases kind with rfl | ⟨k, v, rfl⟩
      · rfl
      · have different : toU256 k ≠ key := by
          rintro rfl
          exact inside (canonical_toU256 k)
        rw [endResult, if_neg different]
    rw [none, pathResult, ended]
    rfl

/-- The entries determine the tree. -/
theorem tree_unique (tracks : Tracks H env t M) (tracks' : Tracks H env' t' M')
    (same : ∀ key value, M.entries key = some value ↔ M'.entries key = some value) : t = t' := by
  refine Canonical.ext keyBit tracks.canonical tracks'.canonical fun k v => ?_
  have mine : t.Has k v ↔ M.entries (toU256 k) = some (toU256 v) := by
    rw [tracks.entry]
    simp
  have other : t'.Has k v ↔ M'.entries (toU256 k) = some (toU256 v) := by
    rw [tracks'.entry]
    simp
  rw [mine, other]
  exact same _ _

end Tracks

theorem not_blocks_of_run {H : Hasher} {admin : Address} {calls : List Call}
    (free : CollisionFree H {q | q ∈ (run H admin calls).hashed}) {key : U256}
    (none : (Blocklist.run admin calls).entries key = none) (value : U256) :
    ¬Blocks (run H admin calls).storage key value := by
  obtain ⟨t, tracks⟩ := tracks_run free
  rw [tracks.blocks_iff free, none]
  exact Option.some_ne_none value ∘ Eq.symm

/-- The tree denotes a finite map which every call reads and changes as a map: a call succeeds
iff the map accepts it, a call that fails changes nothing, and `find_key` finds the entries. -/
theorem run_refines_blocklist {H : Hasher} {admin : Address} {calls : List Call}
    (free : CollisionFree H {q | q ∈ (run H admin calls).hashed}) :
    (∀ key value, Blocks (run H admin calls).storage key value ↔
      (Blocklist.run admin calls).entries key = some value) ∧
    {key | (Blocklist.run admin calls).entries key ≠ none}.Finite ∧
    (∀ call, Host.Succeeds (call.program H) (run H admin calls) ↔
      (Blocklist.run admin calls).Accepts call) ∧
    (∀ call, ¬Host.Succeeds (call.program H) (run H admin calls) →
      run H admin (calls ++ [call]) = run H admin calls) ∧
    ∀ key, ∃ r, findKey (run H admin calls).storage key = .ok r ∧
      (Blocklist.run admin calls).entries key = if r.found then some r.foundValue else none := by
  obtain ⟨t, tracks⟩ := tracks_run free
  refine ⟨tracks.blocks_iff free, Blocklist.finite_run admin calls, tracks.succeeds_iff free, ?_,
    tracks.findKey_eq free⟩
  intro call failed
  rw [run_concat]
  exact Host.invoke_failed failed

/-- Keys `1` and `5` share two bits; the insertion of a stored key fails. -/
def sampleCalls : List Call :=
  [.insertLeaf [⟨0⟩] 1 5, .insertLeaf [⟨0⟩] 5 6, .insertLeaf [⟨0⟩] 1 7, .insertLeaf [⟨0⟩] 2 9,
    .deleteLeaf [⟨0⟩] 5]

theorem sampleCalls_free :
    CollisionFree poseidon2 {q | q ∈ (run poseidon2 ⟨0⟩ sampleCalls).hashed} :=
  CollisionFree.of_log _ (by decide +kernel)

theorem run_refines_blocklist_sample :
    Host.Succeeds ((Call.insertLeaf [⟨0⟩] 5 8).program poseidon2) (run poseidon2 ⟨0⟩ sampleCalls) ∧
    ¬Host.Succeeds ((Call.insertLeaf [⟨0⟩] 1 8).program poseidon2)
      (run poseidon2 ⟨0⟩ sampleCalls) := by
  have refines := run_refines_blocklist sampleCalls_free
  constructor
  · exact (refines.2.2.1 _).mpr (by decide +kernel)
  · exact mt (refines.2.2.1 _).mp (by decide +kernel)

/-- The root depends on the entries alone, an insertion is undone by the deletion of its key,
and the root is zero iff there are no entries. -/
theorem root_history_independent {H : Hasher} {admin : Address} {calls : List Call}
    (free : CollisionFree H {q | q ∈ (run H admin calls).hashed}) :
    (∀ admin' calls', CollisionFree H {q | q ∈ (run H admin' calls').hashed} →
      (∀ key value, Blocks (run H admin calls).storage key value ↔
        Blocks (run H admin' calls').storage key value) →
      (run H admin calls).storage.root = (run H admin' calls').storage.root) ∧
    (∀ owner auths auths' key value, (run H admin calls).storage.admin = some owner →
      owner ∈ auths → owner ∈ auths' → Canonical key → Canonical value →
      (∀ v, ¬Blocks (run H admin calls).storage key v) →
      CollisionFree H
        {q | q ∈ (run H admin (calls ++ [.insertLeaf auths key value, .deleteLeaf auths' key])).hashed} →
      Host.Succeeds (insertLeaf H auths key value) (run H admin calls) ∧
      Host.Succeeds (deleteLeaf H auths' key)
        (run H admin (calls ++ [.insertLeaf auths key value])) ∧
      (run H admin (calls ++ [.insertLeaf auths key value, .deleteLeaf auths' key])).storage.root =
        (run H admin calls).storage.root) ∧
    ((run H admin calls).storage.root = some 0 ↔
      ∀ key value, ¬Blocks (run H admin calls).storage key value) := by
  obtain ⟨t, tracks⟩ := tracks_run free
  refine ⟨?_, ?_, ?_⟩
  · intro admin' calls' free' same
    obtain ⟨t', tracks'⟩ := tracks_run free'
    rw [tracks.root, tracks'.root, tracks.tree_unique tracks']
    intro key value
    rw [← tracks.blocks_iff free, ← tracks'.blocks_iff free', same]
  · intro owner auths auths' key value isOwner auth auth' inKey inValue absent free'
    rw [tracks.sameAdmin, Option.some.injEq] at isOwner
    subst isOwner
    have split : calls ++ [.insertLeaf auths key value, .deleteLeaf auths' key] =
        (calls ++ [.insertLeaf auths key value]) ++ [.deleteLeaf auths' key] := by simp
    have freeMiddle : CollisionFree H
        {q | q ∈ (run H admin (calls ++ [.insertLeaf auths key value])).hashed} := by
      rw [split, run_concat] at free'
      exact free'.mono (step_grows _ _)
    have none : (Blocklist.run admin calls).entries key = none := by
      by_contra present
      obtain ⟨value, entry⟩ := Option.ne_none_iff_exists'.mp present
      exact absent value ((tracks.blocks_iff free key value).mpr entry)
    have accepted : (Blocklist.run admin calls).Accepts (.insertLeaf auths key value) :=
      ⟨auth, inKey, inValue, none⟩
    have inserted : Blocklist.run admin (calls ++ [.insertLeaf auths key value]) =
        (Blocklist.run admin calls).apply (.insertLeaf auths key value) := by
      rw [Blocklist.run_concat, Blocklist.step, if_pos accepted]
    have accepted' : (Blocklist.run admin (calls ++ [.insertLeaf auths key value])).Accepts
        (.deleteLeaf auths' key) := by
      rw [inserted]
      exact ⟨auth', by simp [Blocklist.apply]⟩
    obtain ⟨tMiddle, tracksMiddle⟩ := tracks_run freeMiddle
    obtain ⟨t', tracks'⟩ := tracks_run free'
    refine ⟨(tracks.succeeds_iff free _).mpr accepted,
      (tracksMiddle.succeeds_iff freeMiddle _).mpr accepted', ?_⟩
    rw [tracks.root, tracks'.root, tracks'.tree_unique tracks]
    intro key' value'
    rw [split, Blocklist.run_concat, Blocklist.step, if_pos accepted', inserted]
    by_cases same : key' = key
    · simp [Blocklist.apply, same, none]
    · simp [Blocklist.apply, Function.update_of_ne same]
  · rw [tracks.root, Option.some.injEq]
    constructor
    · intro zero key value blocks
      obtain ⟨k, v, -, -, has⟩ := (tracks.toRepresents.blocks_iff free key value).mp blocks
      have member := mem_subtrees_self (t := t) (by rintro rfl; exact has)
      exact tracks.toRepresents.nodeKey_ne_zero free member zero
    · intro none
      have isEmpty : t = .empty := by
        by_contra nonempty
        obtain ⟨k, v, has⟩ := exists_hasKey (tracks.canonical.size_pos keyBit nonempty)
        exact none _ _ ((tracks.toRepresents.blocks_iff free _ _).mpr ⟨k, v, rfl, rfl, has⟩)
      rw [isEmpty, nodeKey_empty]

theorem root_history_independent_sample :
    (run poseidon2 ⟨0⟩ (sampleCalls ++ [.insertLeaf [⟨0⟩] 9 3, .deleteLeaf [⟨0⟩] 9])).storage.root =
      (run poseidon2 ⟨0⟩ sampleCalls).storage.root := by
  have free : CollisionFree poseidon2 {q | q ∈ (run poseidon2 ⟨0⟩
      (sampleCalls ++ [.insertLeaf [⟨0⟩] 9 3, .deleteLeaf [⟨0⟩] 9])).hashed} :=
    CollisionFree.of_log _ (by decide +kernel)
  have none : (Blocklist.run ⟨0⟩ sampleCalls).entries 9 = none := by decide +kernel
  have absent := not_blocks_of_run sampleCalls_free none
  exact ((root_history_independent sampleCalls_free).2.1 ⟨0⟩ [⟨0⟩] [⟨0⟩] 9 3 (by decide +kernel)
    (by decide) (by decide) (by decide) (by decide) absent free).2.2

end PrivatePayments.AspNonMembership
