import PrivatePayments.AspNonMembership.Find

/-!
Following the loops of the contract: which nodes they have filed and removed so
far, and that every query behind those nodes has been logged.
-/

namespace PrivatePayments.AspNonMembership
open Bn254 Poseidon2 Soroban Library SparseTree TreePath KeyTree ContentStore

/-- From `start` to `now` the contract has filed the nodes in `added`, removed those in
`dropped`, and touched no other node and not the admin. -/
structure Written (H : Hasher) (start now : Env Storage) (added dropped : KeyTree → Prop) :
    Prop where
  edits : ∃ edits : List (Edit KeyTree),
    now.storage.node = applyAll (nodeKey H) (content H) start.storage.node edits ∧
    (∀ x, .add x ∈ edits ↔ added x) ∧ ∀ x, .drop x ∈ edits ↔ dropped x
  admin : now.storage.admin = start.storage.admin
  grows : ∀ q ∈ start.hashed, q ∈ now.hashed
  logged : ∀ x, added x ∨ dropped x → ∀ q ∈ queries H x, q ∈ now.hashed

namespace Written

variable {H : Hasher} {start now : Env Storage} {added dropped : KeyTree → Prop}

theorem refl (H : Hasher) (env : Env Storage) :
    Written H env env (fun _ => False) (fun _ => False) where
  edits := ⟨[], rfl, by simp, by simp⟩
  admin := rfl
  grows := fun _ member => member
  logged := by simp

theorem congr {added' dropped' : KeyTree → Prop} (written : Written H start now added dropped)
    (sameAdded : ∀ x, added' x ↔ added x) (sameDropped : ∀ x, dropped' x ↔ dropped x) :
    Written H start now added' dropped' := by
  rw [funext fun x => propext (sameAdded x), funext fun x => propext (sameDropped x)]
  exact written

theorem query (written : Written H start now added dropped) (q : Query) :
    Written H start (now.logged q) added dropped where
  edits := written.edits
  admin := written.admin
  grows := fun r member => List.mem_cons_of_mem _ (written.grows r member)
  logged := fun x touched r member => List.mem_cons_of_mem _ (written.logged x touched r member)

theorem add (written : Written H start now added dropped) {t : KeyTree}
    (logged : ∀ q ∈ queries H t, q ∈ now.hashed) :
    Written H start (now.update (·.setNode (nodeKey H t) (content H t)))
      (fun x => x = t ∨ added x) dropped where
  edits := by
    obtain ⟨edits, node, hasAdded, hasDropped⟩ := written.edits
    refine ⟨edits ++ [.add t], ?_, ?_, ?_⟩
    · simp only [Env.storage_update, Storage.setNode, node, applyAll_append]
      rfl
    · intro x
      simp [hasAdded, or_comm]
    · intro x
      simp [hasDropped]
  admin := written.admin
  grows := written.grows
  logged := by
    rintro x ((rfl | old) | old)
    · exact logged
    · exact written.logged x (Or.inl old)
    · exact written.logged x (Or.inr old)

theorem drop (written : Written H start now added dropped) {t : KeyTree}
    (logged : ∀ q ∈ queries H t, q ∈ now.hashed) :
    Written H start (now.update (·.removeNode (nodeKey H t)))
      added (fun x => x = t ∨ dropped x) where
  edits := by
    obtain ⟨edits, node, hasAdded, hasDropped⟩ := written.edits
    refine ⟨edits ++ [.drop t], ?_, ?_, ?_⟩
    · simp only [Env.storage_update, Storage.removeNode, node, applyAll_append]
      rfl
    · intro x
      simp [hasAdded]
    · intro x
      simp [hasDropped, or_comm]
  admin := written.admin
  grows := written.grows
  logged := by
    rintro x (old | (rfl | old))
    · exact written.logged x (Or.inl old)
    · exact logged
    · exact written.logged x (Or.inr old)

theorem setRoot (written : Written H start now added dropped) (root : U256) :
    Written H start (now.update (·.setRoot root)) added dropped where
  edits := written.edits
  admin := written.admin
  grows := written.grows
  logged := written.logged

theorem publish (written : Written H start now added dropped) (event : Event) :
    Written H start (now.update (·.publish event)) added dropped where
  edits := written.edits
  admin := written.admin
  grows := written.grows
  logged := written.logged

/-- The tree `t'` is on file when the writes supply what `t` does not and remove nothing of it. -/
theorem stored (written : Written H start now added dropped)
    (free : CollisionFree H {q | q ∈ now.hashed}) {t t' : KeyTree}
    (stored : Stored H start.storage.node t)
    (logged : ∀ q ∈ queries H t', q ∈ now.hashed)
    (source : ∀ x ∈ t'.subtrees, added x ∨ x ∈ t.subtrees)
    (kept : ∀ x ∈ t'.subtrees, ¬dropped x) : Stored H now.storage.node t' := by
  obtain ⟨edits, node, hasAdded, hasDropped⟩ := written.edits
  rw [node]
  refine ContentStore.Holds.applyAll stored (nodeKey_injOn free) ?_ ?_ ?_ ?_
  · intro edit member
    cases edit with
    | add x => exact written.logged x (Or.inl ((hasAdded x).mp member))
    | drop x => exact written.logged x (Or.inr ((hasDropped x).mp member))
  · exact fun x member q inX => logged q (queries_of_mem_subtrees H member q inX)
  · exact fun x member => (source x member).imp (hasAdded x).mpr id
  · exact fun x member inEdits => kept x member ((hasDropped x).mp inEdits)

theorem represents (written : Written H start now added dropped) {t t' : KeyTree}
    (rep : Represents H start t) (free : CollisionFree H {q | q ∈ now.hashed})
    (root : now.storage.root = some (nodeKey H t')) (canonical : Canonical keyBit 0 t')
    (logged : ∀ q ∈ queries H t', q ∈ now.hashed)
    (source : ∀ x ∈ t'.subtrees, added x ∨ x ∈ t.subtrees)
    (kept : ∀ x ∈ t'.subtrees, ¬dropped x) : Represents H now t' where
  admin := by
    rw [written.admin]
    exact rep.admin
  root := root
  canonical := canonical
  stored := written.stored free rep.stored logged source kept
  logged := logged

/-- When the writes also file only nodes of `t'` and remove all that `t'` has no use for, the
storage stays exact. -/
theorem exact_of (written : Written H start now added dropped)
    (free : CollisionFree H {q | q ∈ now.hashed}) {t t' : KeyTree}
    (whole : Exact (nodeKey H) (content H) start.storage.node {x | x ∈ t.subtrees})
    (logged : ∀ q ∈ queries H t', q ∈ now.hashed)
    (source : ∀ x ∈ t'.subtrees, added x ∨ x ∈ t.subtrees)
    (kept : ∀ x ∈ t'.subtrees, ¬dropped x) (filed : ∀ x, added x → x ∈ t'.subtrees)
    (retired : ∀ x ∈ t.subtrees, x ∉ t'.subtrees → dropped x) :
    Exact (nodeKey H) (content H) now.storage.node {x | x ∈ t'.subtrees} := by
  obtain ⟨edits, node, hasAdded, hasDropped⟩ := written.edits
  rw [node]
  refine ContentStore.Exact.applyAll whole (nodeKey_injOn free) ?_ ?_ ?_ ?_ ?_ ?_
  · intro edit member
    cases edit with
    | add x => exact written.logged x (Or.inl ((hasAdded x).mp member))
    | drop x => exact written.logged x (Or.inr ((hasDropped x).mp member))
  · exact fun x member q inX => logged q (queries_of_mem_subtrees H member q inX)
  · exact fun x member => (source x member).imp (hasAdded x).mpr id
  · exact fun x member inEdits => kept x member ((hasDropped x).mp inEdits)
  · exact fun x inEdits => filed x ((hasAdded x).mp inEdits)
  · exact fun x member gone => (hasDropped x).mpr (retired x member gone)

end Written

variable {H : Hasher}

theorem run_hashToward (bit : Bool) (t sibling : KeyTree) (env : Env Storage) :
    (hashToward H bit (nodeKey H t) (nodeKey H sibling)).run env =
      .ok (nodeKey H (branch bit sibling t), env.logged (branchQuery H bit sibling t)) := by
  cases bit
  · exact Host.run_poseidon2Compress H (hash H t) (hash H sibling) env
  · exact Host.run_poseidon2Compress H (hash H sibling) (hash H t) env

theorem run_hashLeaf (key value : Fr) (env : Env Storage) :
    (hashLeaf H (toU256 key) (toU256 value)).run env =
      .ok (nodeKey H (.leaf key value), env.logged (.hash2 key value 1)) := by
  have one : (1 : U256) = toU256 1 := toU256_one.symm
  rw [hashLeaf, one, Host.run_poseidon2Hash2]
  rfl

theorem run_hashLeaf_trap {key value : U256} (outside : ¬Canonical key ∨ ¬Canonical value)
    (env : Env Storage) : (hashLeaf H key value).run env = .error .trap := by
  rw [hashLeaf, Host.poseidon2Hash2, if_pos]
  · rfl
  · rcases outside with outside | outside
    · exact Or.inl (Nat.not_lt.mp outside)
    · exact Or.inr (Or.inl (Nat.not_lt.mp outside))

theorem queries_branch_logged {env : Env Storage} {b : Bool} {sibling t : KeyTree}
    (left : ∀ q ∈ queries H sibling, q ∈ env.hashed) (right : ∀ q ∈ queries H t, q ∈ env.hashed) :
    ∀ q ∈ queries H (branch b sibling t),
      q ∈ (env.logged (branchQuery H b sibling t)).hashed := by
  intro q member
  rcases (mem_queries_branch ..).mp member with rfl | inS | inT
  · exact List.mem_cons_self ..
  · exact List.mem_cons_of_mem _ (left q inS)
  · exact List.mem_cons_of_mem _ (right q inT)

theorem Written.fileBranch {start now : Env Storage} {added dropped : KeyTree → Prop}
    (written : Written H start now added dropped) {b : Bool} {sibling t : KeyTree}
    (left : ∀ q ∈ queries H sibling, q ∈ now.hashed) (right : ∀ q ∈ queries H t, q ∈ now.hashed) :
    Written H start
      ((now.logged (branchQuery H b sibling t)).update (·.setNode (nodeKey H (branch b sibling t))
        (if b then [nodeKey H sibling, nodeKey H t] else [nodeKey H t, nodeKey H sibling])))
      (fun x => x = branch b sibling t ∨ added x) dropped := by
  rw [← content_branch]
  exact (written.query _).add (queries_branch_logged left right)

theorem Written.removeBranch {start now : Env Storage} {added dropped : KeyTree → Prop}
    (written : Written H start now added dropped) {b : Bool} {sibling t : KeyTree}
    (left : ∀ q ∈ queries H sibling, q ∈ now.hashed) (right : ∀ q ∈ queries H t, q ∈ now.hashed) :
    Written H start
      ((now.logged (branchQuery H b sibling t)).update (·.removeNode (nodeKey H (branch b sibling t))))
      added (fun x => x = branch b sibling t ∨ dropped x) :=
  (written.query _).drop (queries_branch_logged left right)

end PrivatePayments.AspNonMembership
