import PrivatePayments.AspMembership.Contract

/-!
What the contract is for: a growing list of members behind a gate its admin opens and
closes. Every run of the contract follows the run of the list, and its root is the
reference root of the list.
-/

namespace PrivatePayments.AspMembership
open Bn254 Poseidon2 Soroban Library FullTree Merkle

structure Members where
  admin : Address
  adminInsertOnly : Bool
  leaves : List U256

namespace Members

def deployed (admin : Address) : Members := { admin := admin, adminInsertOnly := true, leaves := [] }

/-- The gate: the admin always, everybody while the flag is off. -/
def MayInsert (M : Members) (auths : List Address) : Prop :=
  M.admin ∈ auths ∨ M.adminInsertOnly = false

def Accepts (levels : Nat) (M : Members) : Call → Prop
  | .insertLeaf auths leaf => M.MayInsert auths ∧ M.leaves.length < 2 ^ levels ∧ Canonical leaf
  | .setAdminInsertOnly auths _ => M.admin ∈ auths
  | .updateAdmin auths _ => M.admin ∈ auths

instance (levels : Nat) (M : Members) : DecidablePred (M.Accepts levels)
  | .insertLeaf _ _ => inferInstanceAs (Decidable ((_ ∨ _) ∧ _ ∧ _))
  | .setAdminInsertOnly _ _ => inferInstanceAs (Decidable (_ ∈ _))
  | .updateAdmin _ _ => inferInstanceAs (Decidable (_ ∈ _))

def apply (M : Members) : Call → Members
  | .insertLeaf _ leaf => { M with leaves := M.leaves ++ [leaf] }
  | .setAdminInsertOnly _ adminOnly => { M with adminInsertOnly := adminOnly }
  | .updateAdmin _ newAdmin => { M with admin := newAdmin }

def step (levels : Nat) (M : Members) (call : Call) : Members :=
  if M.Accepts levels call then M.apply call else M

def run (levels : Nat) (admin : Address) (calls : List Call) : Members :=
  calls.foldl (step levels) (deployed admin)

theorem run_concat (levels : Nat) (admin : Address) (calls : List Call) (call : Call) :
    run levels admin (calls ++ [call]) = (run levels admin calls).step levels call := by
  unfold run
  rw [List.foldl_append]
  rfl

end Members

abbrev rootOf (H : Hasher) (levels : Nat) (leaves : List U256) : Fr :=
  node H.compress (leafAt (leaves.map ofU256)) levels 0

def eventAt (H : Hasher) (levels : Nat) (leaves : List U256) (i : Nat) : LeafAdded where
  leaf := leaves.getD i 0
  index := i
  root := toU256 (rootOf H levels (leaves.take (i + 1)))

structure Represents (H : Hasher) (levels : Nat) (M : Members) (s : Storage) : Prop where
  admin : s.admin = some M.admin
  flag : s.adminInsertOnly = some M.adminInsertOnly
  isLevels : s.tree.levels = some levels
  isNextIndex : s.tree.nextIndex = some M.leaves.length
  canonical : ∀ leaf ∈ M.leaves, Canonical leaf
  room : M.leaves.length ≤ 2 ^ levels
  ready : Ready H 0 levels M.leaves.length (leafAt (M.leaves.map ofU256)) s.tree
  root : s.root = some (toU256 (rootOf H levels M.leaves))
  events : s.events = (List.range M.leaves.length).map (eventAt H levels M.leaves)

theorem events_append (H : Hasher) (levels : Nat) (leaves : List U256) (leaf : U256) :
    (List.range (leaves ++ [leaf]).length).map (eventAt H levels (leaves ++ [leaf])) =
      (List.range leaves.length).map (eventAt H levels leaves) ++
        [{ leaf := leaf, index := leaves.length, root := toU256 (rootOf H levels (leaves ++ [leaf])) }] := by
  rw [List.length_append, List.length_singleton, List.range_succ, List.map_append, List.map_singleton]
  congr 1
  · refine List.map_congr_left fun i low => ?_
    rw [List.mem_range] at low
    unfold eventAt
    rw [List.getD_append _ _ _ _ low, List.take_append_of_le_length (by omega)]
  · unfold eventAt
    rw [List.getD_append_right _ _ _ _ (Nat.le_refl _), Nat.sub_self,
      List.take_of_length_le (by simp)]
    rfl

section Step

variable {H : Hasher} {levels : Nat} {M : Members} {env : Env Storage}

theorem run_requireInserter_ok {auths : List Address} (holds : Represents H levels M env.storage)
    (may : M.MayInsert auths) : (requireInserter auths).run env = .ok ((), env) := by
  unfold requireInserter
  simp only [StateT.run_bind, Host.run_storage, ok_bind, holds.flag, Option.getD_some]
  cases flag : M.adminInsertOnly with
  | false => rfl
  | true =>
    have member : M.admin ∈ auths := may.resolve_right (by simp [flag])
    simp [holds.admin, Host.run_requireAuth_ok member]

theorem run_requireInserter_trap {auths : List Address} (holds : Represents H levels M env.storage)
    (mayNot : ¬M.MayInsert auths) : (requireInserter auths).run env = .error .trap := by
  unfold Members.MayInsert at mayNot
  rw [not_or, Bool.not_eq_false] at mayNot
  unfold requireInserter
  simp [holds.flag, holds.admin, mayNot.2, Host.run_requireAuth_trap mayNot.1]

theorem run_insertLeaf_full {auths : List Address} (bounded : levels ≤ 32)
    (holds : Represents H levels M env.storage) (may : M.MayInsert auths)
    (full : 2 ^ levels ≤ M.leaves.length) (leaf : U256) :
    (insertLeaf H auths leaf).run env = .error (.error .merkleTreeFull) := by
  have capacity : maxLeaves levels = some (2 ^ levels) := if_pos (by omega)
  simp only [insertLeaf, StateT.run_bind, run_requireInserter_ok holds may, ok_bind,
    Host.run_storage, holds.isLevels, holds.isNextIndex, Host.run_okOr_some, capacity, full, if_true,
    Host.run_fail]

theorem run_climbLevels_trap {ε : Type} {n : Nat} {leaf : Nat → Fr} {tree : Env Tree}
    (ready : Ready H 0 levels n leaf tree.storage) (positive : 0 < levels) {hash : U256}
    (outside : ¬Canonical hash) (notInitialized : ε) :
    (climbLevels H notInitialized 0 levels n hash).run tree = .error .trap := by
  have large : bn256Modulus ≤ hash.toNat := Nat.not_lt.mp outside
  have first : (climbLevel H notInitialized 0 ⟨n, hash⟩).run tree = .error .trap := by
    by_cases odd : n % 2 = 1
    · have waits := ready.frontier 0 (by omega) (by simpa using odd)
      unfold Slot at waits
      have traps (env : Env Tree) (left : U256) :
          (Host.poseidon2Compress H left hash : Host Tree ε U256).run env = .error .trap := by
        rw [Host.poseidon2Compress, if_pos (Or.inr large)]
        rfl
      simp only [climbLevel, odd, if_true, StateT.run_bind, Host.run_storage, ok_bind, waits,
        Host.run_okOr_some, traps, error_bind]
    · have zeroes := ready.zeroes 0 (Nat.zero_le _)
      have traps (env : Env Tree) (right : U256) :
          (Host.poseidon2Compress H hash right : Host Tree ε U256).run env = .error .trap := by
        rw [Host.poseidon2Compress, if_pos (Or.inl large)]
        rfl
      simp only [climbLevel, odd, if_false, StateT.run_bind, Host.run_update, Host.run_storage,
        ok_bind, Env.storage_update, Tree.setFilledSubtree, zeroes, Host.run_okOr_some, traps,
        error_bind]
  unfold climbLevels
  rw [Nat.sub_zero, ← Nat.sub_add_cancel positive, Host.forUp, Host.run_bind_error first]

theorem run_insertLeaf_trap {auths : List Address} (positive : 0 < levels) (bounded : levels ≤ 32)
    (holds : Represents H levels M env.storage) (may : M.MayInsert auths)
    (room : M.leaves.length < 2 ^ levels) {leaf : U256} (outside : ¬Canonical leaf) :
    (insertLeaf H auths leaf).run env = .error .trap := by
  have capacity : maxLeaves levels = some (2 ^ levels) := if_pos (by omega)
  have climb : (Host.zoom (·.tree) Storage.setTree id
      (climbLevels H .notInitialized 0 levels M.leaves.length leaf) : Contract Climb).run env =
        .error .trap :=
    have trapped : (climbLevels H Error.notInitialized 0 levels M.leaves.length leaf).run
        ⟨env.storage.tree, env.hashed⟩ = .error .trap := run_climbLevels_trap holds.ready positive outside _
    Host.run_zoom_trap trapped
  simp only [insertLeaf, StateT.run_bind, run_requireInserter_ok holds may, ok_bind,
    Host.run_storage, holds.isLevels, holds.isNextIndex, Host.run_okOr_some, capacity,
    Nat.not_le.mpr room, if_false, climb, error_bind]

theorem run_insertLeaf (chain : Chain H.compress zeroAt 32) (bounded : levels ≤ 32)
    {auths : List Address} (holds : Represents H levels M env.storage) (may : M.MayInsert auths)
    (room : M.leaves.length < 2 ^ levels) {leaf : U256} (inside : Canonical leaf) :
    ∃ next, (insertLeaf H auths leaf).run env = .ok ((), next) ∧
      Represents H levels { M with leaves := M.leaves ++ [leaf] } next.storage := by
  have small : 2 ^ levels ≤ 2 ^ 32 := Nat.pow_le_pow_right (by decide) bounded
  have capacity : maxLeaves levels = some (2 ^ levels) := if_pos (by omega)
  have after : checkedAdd 64 M.leaves.length 1 = some (M.leaves.length + 1) := if_pos (by omega)
  have chainFrom : Chain H.compress (zeroFrom 0) (levels - 0) := by
    intro k low
    have link := chain k (by omega)
    simpa [zeroFrom] using link
  have extend := leafAt_extends (M.leaves.map ofU256) (ofU256 leaf)
  have mapped : (M.leaves ++ [leaf]).map ofU256 = M.leaves.map ofU256 ++ [ofU256 leaf] := by simp
  rw [List.length_map, ← mapped] at extend
  have here : leafAt ((M.leaves ++ [leaf]).map ofU256) M.leaves.length = ofU256 leaf := by
    have last := leafAt_length (M.leaves.map ofU256) (ofU256 leaf)
    rwa [List.length_map, ← mapped] at last
  have ready : Ready H 0 levels M.leaves.length (leafAt (M.leaves.map ofU256))
      ({ storage := env.storage.tree, hashed := env.hashed } : Env Tree).storage := holds.ready
  obtain ⟨climb, now, climbed, inv⟩ := run_climbLevels chainFrom extend ready Error.notInitialized
  rw [here, toU256_ofU256 inside] at climbed
  have zoomed : (Host.zoom (·.tree) Storage.setTree id
      (climbLevels H .notInitialized 0 levels M.leaves.length leaf) : Contract Climb).run env =
        .ok (climb, { storage := env.storage.setTree now.storage, hashed := now.hashed }) :=
    Host.run_zoom_ok climbed
  have isRoot : climb.currentHash = toU256 (rootOf H levels (M.leaves ++ [leaf])) := inv.root room
  have length : (M.leaves ++ [leaf]).length = M.leaves.length + 1 := by simp
  refine ⟨⟨(((env.storage.setTree now.storage).setRoot climb.currentHash).publish
    { leaf := leaf, index := M.leaves.length, root := climb.currentHash }).setNextIndex
      (M.leaves.length + 1), now.hashed⟩, ?_, ?_⟩
  · simp only [insertLeaf, StateT.run_bind, run_requireInserter_ok holds may, ok_bind,
      Host.run_storage, holds.isLevels, holds.isNextIndex, Host.run_okOr_some, capacity,
      Nat.not_le.mpr room, if_false, zoomed, Host.run_update, after]
    rfl
  · have ready := inv.ready extend holds.ready
    constructor
    · exact holds.admin
    · exact holds.flag
    · simp only [Storage.setNextIndex, Storage.publish, Storage.setRoot, Storage.setTree]
      rw [inv.others]
      exact holds.isLevels
    · simp only [Storage.setNextIndex, length]
    · intro other member
      rcases List.mem_append.mp member with older | added
      · exact holds.canonical other older
      · rw [List.mem_singleton.mp added]
        exact inside
    · rw [length]
      exact room
    · rw [length]
      exact ⟨ready.frontier, ready.zeroes⟩
    · rw [← isRoot]
      rfl
    · rw [events_append, ← holds.events, ← isRoot]
      rfl

structure Follows (H : Hasher) (levels : Nat) (M : Members) (p : Progress) : Prop where
  represents : Represents H levels M p.env.storage
  leaves : p.leaves = M.leaves

/-- An invocation returns iff the list of members accepts the call, and then follows it. -/
theorem Follows.advance {p : Progress} (follows : Follows H levels M p)
    (chain : Chain H.compress zeroAt 32) (positive : 0 < levels) (bounded : levels ≤ 32) (call : Call) :
    (Host.Succeeds (call.program H) p.env ↔ M.Accepts levels call) ∧
      Follows H levels (M.step levels call) (AspMembership.advance H p call) := by
  have holds := follows.represents
  -- a call returns where the list accepts it and fails where it does not
  have follow (accepted : M.Accepts levels call) {next : Env Storage}
      (returned : (call.program H).run p.env = .ok ((), next))
      (after : Represents H levels (M.apply call) next.storage) :
      (Host.Succeeds (call.program H) p.env ↔ M.Accepts levels call) ∧
        Follows H levels (M.step levels call) (AspMembership.advance H p call) := by
    unfold Members.step
    rw [if_pos accepted, advance_ok returned]
    refine ⟨iff_of_true (Host.succeeds_of_ok returned) accepted, after, ?_⟩
    cases call <;> simp [Call.leaf, Members.apply, follows.leaves]
  have stay (refused : ¬M.Accepts levels call) {f : Failure Error}
      (failed : (call.program H).run p.env = .error f) :
      (Host.Succeeds (call.program H) p.env ↔ M.Accepts levels call) ∧
        Follows H levels (M.step levels call) (AspMembership.advance H p call) := by
    have fails := Host.not_succeeds_of_error failed
    unfold Members.step
    rw [if_neg refused, advance_failed fails]
    exact ⟨iff_of_false fails refused, follows⟩
  cases call with
  | insertLeaf auths leaf =>
    by_cases may : M.MayInsert auths
    · by_cases room : M.leaves.length < 2 ^ levels
      · by_cases inside : Canonical leaf
        · obtain ⟨next, returned, after⟩ := run_insertLeaf chain bounded holds may room inside
          exact follow ⟨may, room, inside⟩ returned after
        · exact stay (fun accepted => inside accepted.2.2)
            (run_insertLeaf_trap positive bounded holds may room inside)
      · exact stay (fun accepted => room accepted.2.1)
          (run_insertLeaf_full bounded holds may (Nat.not_lt.mp room) leaf)
    · refine stay (fun accepted => may accepted.1) (f := .trap) ?_
      simp only [Call.program, insertLeaf, StateT.run_bind, run_requireInserter_trap holds may,
        error_bind]
  | setAdminInsertOnly auths adminOnly =>
    by_cases member : M.admin ∈ auths
    · refine @follow member (p.env.update fun s => { s with adminInsertOnly := some adminOnly }) ?_ ?_
      · simp only [Call.program, setAdminInsertOnly, StateT.run_bind, Host.run_storage, ok_bind,
          holds.admin, Host.run_okOr_some, Host.run_requireAuth_ok member, Host.run_update]
      · exact ⟨holds.admin, rfl, holds.isLevels, holds.isNextIndex, holds.canonical, holds.room,
          holds.ready, holds.root, holds.events⟩
    · refine stay member (f := .trap) ?_
      simp only [Call.program, setAdminInsertOnly, StateT.run_bind, Host.run_storage, ok_bind,
        holds.admin, Host.run_okOr_some, Host.run_requireAuth_trap member, error_bind]
  | updateAdmin auths newAdmin =>
    by_cases member : M.admin ∈ auths
    · refine @follow member (p.env.update fun s => { s with admin := some newAdmin }) ?_ ?_
      · simp only [Call.program, updateAdmin, StateT.run_bind, Host.run_storage, ok_bind,
          holds.admin, Host.run_okOr_some, Host.run_requireAuth_ok member, Host.run_update]
      · exact ⟨rfl, holds.flag, holds.isLevels, holds.isNextIndex, holds.canonical, holds.room,
          holds.ready, holds.root, holds.events⟩
    · refine stay member (f := .trap) ?_
      simp only [Call.program, updateAdmin, StateT.run_bind, Host.run_storage, ok_bind,
        holds.admin, Host.run_okOr_some, Host.run_requireAuth_trap member, error_bind]

end Step

abbrev Admitted (admin : Address) (levels : Nat) : Prop :=
  Host.Succeeds (construct admin levels) { storage := Storage.empty, hashed := [] }

section Deployed

variable {H : Hasher} {admin : Address} {levels : Nat}

theorem run_construct (positive : 0 < levels) (bounded : levels ≤ 32) :
    (construct admin levels).run { storage := Storage.empty, hashed := [] } =
      .ok ((), ⟨⟨some admin, some true, some (toU256 (zeroAt levels)), Tree.initial levels, []⟩, []⟩) := by
  have admits : ¬(levels = 0 ∨ 32 < levels) := by omega
  simp only [construct, admits, if_false, StateT.run_bind, Host.run_update, ok_bind,
    getZeroes_get bounded, Host.run_okOr_some]
  rfl

theorem admitted_iff : Admitted admin levels ↔ 0 < levels ∧ levels ≤ 32 := by
  constructor
  · intro admitted
    by_contra outside
    have refuses : levels = 0 ∨ 32 < levels := by omega
    refine Host.not_succeeds_of_error (f := .error .wrongLevels) ?_ admitted
    simp only [construct, refuses, if_true, Host.run_fail]
  · intro ⟨positive, bounded⟩
    exact Host.succeeds_of_ok (run_construct positive bounded)

theorem represents_deployed (chain : Chain H.compress zeroAt 32) (positive : 0 < levels)
    (bounded : levels ≤ 32) :
    Represents H levels (Members.deployed admin) (deployed admin levels).storage := by
  have root : rootOf H levels [] = zeroAt levels := node_padding chain bounded fun i _ => rfl
  unfold deployed
  rw [Host.invoke_ok (run_construct positive bounded)]
  constructor
  · rfl
  · rfl
  · rfl
  · rfl
  · simp [Members.deployed]
  · exact Nat.zero_le _
  · exact ready_initial bounded 0 _
  · rw [show (Members.deployed admin).leaves = [] from rfl, root]
  · rfl

/-- Every run of the contract follows the run of the list of members. -/
theorem follows_run (chain : Chain H.compress zeroAt 32) (positive : 0 < levels)
    (bounded : levels ≤ 32) (calls : List Call) :
    Follows H levels (Members.run levels admin calls) (run H admin levels calls) := by
  induction calls using List.reverseRecOn with
  | nil => exact ⟨represents_deployed chain positive bounded, rfl⟩
  | append_singleton calls call ih =>
    rw [Members.run_concat, run_concat]
    exact (ih.advance chain positive bounded call).2

end Deployed

/-- After any calls on an admitted deployment the stored root is the reference root of the accepted
leaves padded with zero leaves, and the events tell each of them with its index and the root after
it. A leaf goes in iff the caller is the admin or the flag is off, a position is free and the leaf
is a field element; a call that fails, as every call on a full tree does, changes nothing. -/
theorem insert_leaf_tree {admin : Address} {levels : Nat} (admitted : Admitted admin levels)
    (calls : List Call) :
    (∃ root, merkleRoot poseidon2
        (padLeaves levels ((run poseidon2 admin levels calls).leaves.map ofU256)) = some root ∧
      Host.value? getRoot (run poseidon2 admin levels calls).env = some (toU256 root)) ∧
    ((run poseidon2 admin levels calls).env.storage.events.length =
        (run poseidon2 admin levels calls).leaves.length ∧
      ∀ (i : Nat) (leaf : U256), (run poseidon2 admin levels calls).leaves[i]? = some leaf →
        ∃ root, merkleRoot poseidon2 (padLeaves levels
            (((run poseidon2 admin levels calls).leaves.take (i + 1)).map ofU256)) = some root ∧
          (run poseidon2 admin levels calls).env.storage.events[i]? =
            some { leaf := leaf, index := i, root := toU256 root }) ∧
    (∀ auths leaf, Host.Succeeds (insertLeaf poseidon2 auths leaf) (run poseidon2 admin levels calls).env ↔
      ((run poseidon2 admin levels calls).env.storage.admin ∈ auths.map some ∨
        (run poseidon2 admin levels calls).env.storage.adminInsertOnly = some false) ∧
      (run poseidon2 admin levels calls).leaves.length < 2 ^ levels ∧ Canonical leaf) ∧
    (∀ call, ¬Host.Succeeds (call.program poseidon2) (run poseidon2 admin levels calls).env →
      run poseidon2 admin levels (calls ++ [call]) = run poseidon2 admin levels calls) := by
  obtain ⟨positive, bounded⟩ := admitted_iff.mp admitted
  have follows : Follows poseidon2 levels (Members.run levels admin calls) (run poseidon2 admin levels calls) :=
    follows_run zeroAt_chain positive bounded calls
  have holds := follows.represents
  have room := holds.room
  have length : ((Members.run levels admin calls).leaves.map ofU256).length ≤ 2 ^ levels := by
    rw [List.length_map]
    exact room
  rw [follows.leaves]
  refine ⟨⟨_, merkleRoot_padLeaves poseidon2 length, ?_⟩, ⟨?_, ?_⟩, ?_, ?_⟩
  · rw [Host.value?_eq_some]
    refine ⟨(run poseidon2 admin levels calls).env, ?_⟩
    simp only [getRoot, StateT.run_bind, Host.run_storage, ok_bind, holds.root,
      Host.run_okOr_some]
  · rw [holds.events, List.length_map, List.length_range]
  · intro i leaf found
    obtain ⟨low, here⟩ := List.getElem?_eq_some_iff.mp found
    have part : (((Members.run levels admin calls).leaves.take (i + 1)).map ofU256).length ≤ 2 ^ levels := by
      rw [List.length_map, List.length_take]
      omega
    refine ⟨_, merkleRoot_padLeaves poseidon2 part, ?_⟩
    rw [holds.events, List.getElem?_map, List.getElem?_range low, Option.map_some]
    unfold eventAt
    rw [List.getD_eq_getElem _ _ low, here]
  · intro auths leaf
    have gate : ((run poseidon2 admin levels calls).env.storage.admin ∈ auths.map some ∨
        (run poseidon2 admin levels calls).env.storage.adminInsertOnly = some false) ↔
        (Members.run levels admin calls).MayInsert auths := by
      rw [holds.admin, holds.flag, List.mem_map_of_injective (Option.some_injective _),
        Option.some_inj]
      rfl
    rw [gate]
    exact (follows.advance zeroAt_chain positive bounded (.insertLeaf auths leaf)).1
  · intro call refused
    rw [run_concat, advance_failed refused]

theorem insert_leaf_tree_sample :
    ∃ root, merkleRoot poseidon2 [5, 6] = some root ∧
      Host.value? getRoot (run poseidon2 ⟨7⟩ 1 [.insertLeaf [⟨8⟩] 4, .insertLeaf [⟨7⟩] 5,
        .setAdminInsertOnly [⟨7⟩] false, .insertLeaf [⟨8⟩] 6, .insertLeaf [⟨7⟩] 9]).env =
          some (toU256 root) := by
  obtain ⟨⟨root, isRoot, stored⟩, -⟩ :=
    insert_leaf_tree (admitted_iff.mpr (by decide) : Admitted ⟨7⟩ 1) [.insertLeaf [⟨8⟩] 4,
      .insertLeaf [⟨7⟩] 5, .setAdminInsertOnly [⟨7⟩] false, .insertLeaf [⟨8⟩] 6, .insertLeaf [⟨7⟩] 9]
  refine ⟨root, ?_, stored⟩
  have padded : padLeaves 1 ((run poseidon2 ⟨7⟩ 1 [.insertLeaf [⟨8⟩] 4, .insertLeaf [⟨7⟩] 5,
      .setAdminInsertOnly [⟨7⟩] false, .insertLeaf [⟨8⟩] 6, .insertLeaf [⟨7⟩] 9]).leaves.map ofU256) =
      [5, 6] := by decide +kernel
  rw [← padded]
  exact isRoot

end PrivatePayments.AspMembership
