import PrivatePayments.AspNonMembership.Contract
import PrivatePayments.Soroban.Triple

/-!
Every stored node is filed under the hash of its content. This needs nothing of the
hash function: it is how the contract writes.
-/

namespace PrivatePayments.AspNonMembership
open Bn254 Poseidon2 Soroban Host

/-- A storage key and what may be filed under it: the hash of a leaf or of two children,
logged when it was computed. -/
inductive FiledAs (H : Hasher) (hashed : List Query) : U256 → List U256 → Prop where
  | leaf (k v : Fr) (logged : .hash2 k v 1 ∈ hashed) :
      FiledAs H hashed (toU256 (H.hash2 k v 1)) [1, toU256 k, toU256 v]
  | branch (l r : Fr) (logged : .compress l r ∈ hashed) :
      FiledAs H hashed (toU256 (H.compress l r)) [toU256 l, toU256 r]

theorem FiledAs.mono {H : Hasher} {hashed later : List Query} {h : U256} {content : List U256}
    (filed : FiledAs H hashed h content) (grows : ∀ q ∈ hashed, q ∈ later) :
    FiledAs H later h content := by
  cases filed with
  | leaf k v logged => exact .leaf k v (grows _ logged)
  | branch l r logged => exact .branch l r (grows _ logged)

def Filed (H : Hasher) (env : Env Storage) : Prop :=
  ∀ h content, env.storage.node h = some content → FiledAs H env.hashed h content

variable {H : Hasher}

namespace Filed

variable {env : Env Storage}

theorem logged (filed : Filed H env) (q : Query) : Filed H (env.logged q) :=
  fun h content present => (filed h content present).mono fun _ => List.mem_cons_of_mem _

theorem set (filed : Filed H env) {h : U256} {content : List U256}
    (right : FiledAs H env.hashed h content) : Filed H (env.update (·.setNode h content)) := by
  intro h' content' present
  by_cases same : h' = h
  · subst same
    simp only [Env.storage_update, Storage.setNode, Function.update_self, Option.some.injEq] at present
    exact present ▸ right
  · simp only [Env.storage_update, Storage.setNode, Function.update_of_ne same] at present
    exact filed h' content' present

theorem remove (filed : Filed H env) (h : U256) : Filed H (env.update (·.removeNode h)) := by
  intro h' content' present
  by_cases same : h' = h
  · subst same
    simp [Storage.removeNode] at present
  · simp only [Env.storage_update, Storage.removeNode, Function.update_of_ne same] at present
    exact filed h' content' present

end Filed

theorem filed_hashLeaf (key value : U256) :
    Triple (Filed H) (hashLeaf H key value) fun h env =>
      Filed H env ∧ FiledAs H env.hashed h [1, key, value] := by
  refine Triple.poseidon2Hash2 fun inKey inValue _ env filed => ⟨filed.logged _, ?_⟩
  have logged : .hash2 (ofU256 key) (ofU256 value) 1 ∈
      (env.logged (.hash2 (ofU256 key) (ofU256 value) (ofU256 1))).hashed := by
    rw [show ofU256 1 = 1 by decide]
    exact List.mem_cons_self ..
  have right := FiledAs.leaf (H := H) (ofU256 key) (ofU256 value) logged
  rw [toU256_ofU256 inKey, toU256_ofU256 inValue] at right
  rwa [show ofU256 1 = 1 by decide]

theorem filed_compress (left right : U256) :
    Triple (Filed H) (Host.poseidon2Compress H left right : Contract U256) fun h env =>
      Filed H env ∧ FiledAs H env.hashed h [left, right] := by
  refine Triple.poseidon2Compress fun inLeft inRight env filed => ⟨filed.logged _, ?_⟩
  have logged : .compress (ofU256 left) (ofU256 right) ∈
      (env.logged (.compress (ofU256 left) (ofU256 right))).hashed := List.mem_cons_self ..
  have right' := FiledAs.branch (H := H) (ofU256 left) (ofU256 right) logged
  rwa [toU256_ofU256 inLeft, toU256_ofU256 inRight] at right'

theorem filed_hashToward (bit : Bool) (child sibling : U256) :
    Triple (Filed H) (hashToward H bit child sibling) fun h env =>
      Filed H env ∧ FiledAs H env.hashed h (if bit then [sibling, child] else [child, sibling]) := by
  cases bit
  · exact filed_compress child sibling
  · exact filed_compress sibling child

theorem filed_file (bit : Bool) (child sibling : U256) {α : Type} (result : U256 → α) :
    Keeps (Filed H) (do
      let h ← hashToward H bit child sibling
      Host.update (·.setNode h (if bit then [sibling, child] else [child, sibling]))
      return result h : Contract α) :=
  (filed_hashToward bit child sibling).bind fun _ =>
    (Triple.update fun _ both => both.1.set both.2).bind fun _ => keeps_pure _

theorem filed_insertStep (keyBits : List Bool) (find : FindResult) (start : InsertStart) (i : Nat)
    (vars : InsertVars) : Keeps (Filed H) (insertStep H keyBits find start i vars) := by
  unfold insertStep
  refine (keeps_okOr _ _).bind fun bit => Triple.ite ?_ ?_
  · refine fun _ => (filed_hashToward _ _ _).bind fun rtOld => Triple.bind
      (Q := fun _ => Filed H) (Triple.update fun _ both => both.1.remove _) fun _ =>
      (keeps_pure _).bind fun _ => filed_file _ _ _ _
  · exact fun _ => (keeps_pure _).bind fun _ => filed_file _ _ _ _

theorem filed_insertStart (keyBits : List Bool) (find : FindResult) :
    Keeps (Filed H) (insertStart H keyBits find) := by
  unfold insertStart
  apply Triple.ite
  · exact fun _ => (filed_hashLeaf _ _).bind fun _ => Triple.pure fun _ both => both.1
  · exact fun _ => keeps_pure _

theorem filed_insertLeaf (auths : List Address) (key value : U256) :
    Keeps (Filed H) (insertLeaf H auths key value) := by
  unfold insertLeaf
  refine keeps_storage.bind fun store =>
    (keeps_okOr _ _).bind fun admin =>
    (keeps_requireAuth _ _).bind fun _ =>
    (keeps_lift _).bind fun find => Triple.ite ?_ ?_
  · exact fun _ => Triple.fail _
  · refine fun _ => (filed_insertStart _ _).bind fun start => (filed_hashLeaf _ _).bind fun rt =>
      Triple.bind (Q := fun _ => Filed H) (Triple.update fun _ both => both.1.set both.2) fun _ =>
      (keeps_forDown fun i _ vars => filed_insertStep _ _ _ i vars).bind fun vars =>
      Triple.bind (Q := fun _ => Filed H) (Triple.update fun _ filed => filed) fun _ =>
      Triple.update fun _ filed => filed

theorem filed_deleteStart (node : Nodes) (siblings : List U256) :
    Keeps (Filed H) (deleteStart node siblings) := by
  unfold deleteStart
  split
  · exact keeps_pure _
  · split
    · exact Triple.fail _
    · exact Triple.ite (fun _ => keeps_pure _) (fun _ => Triple.fail _)
    · exact keeps_pure _
    · exact Triple.fail _

theorem filed_deleteStep (keyBits : List Bool) (siblings : List U256) (level : Nat)
    (vars : DeleteVars) : Keeps (Filed H) (deleteStep H keyBits siblings level vars) := by
  unfold deleteStep
  refine (keeps_okOr _ _).bind fun sibling =>
    (keeps_okOr _ _).bind fun bit =>
    (filed_hashToward _ _ _).bind fun rtOld => Triple.bind (Q := fun _ => Filed H)
      (Triple.update fun _ both => both.1.remove _) fun _ => Triple.ite ?_ ?_
  · exact fun _ => filed_file _ _ _ _
  · exact fun _ => keeps_pure _

theorem filed_deleteLeaf (auths : List Address) (key : U256) :
    Keeps (Filed H) (deleteLeaf H auths key) := by
  unfold deleteLeaf
  refine keeps_storage.bind fun store =>
    (keeps_okOr _ _).bind fun admin =>
    (keeps_requireAuth _ _).bind fun _ =>
    (keeps_okOr _ _).bind fun root =>
    (keeps_lift _).bind fun find => Triple.ite ?_ ?_
  · exact fun _ => Triple.fail _
  · refine fun _ => (filed_hashLeaf _ _).bind fun rtOld => Triple.bind (Q := fun _ => Filed H)
      (Triple.update fun _ both => both.1.remove _) fun _ =>
      keeps_storage.bind fun _ => (filed_deleteStart _ _).bind fun pair =>
      (keeps_forDown fun i _ vars => filed_deleteStep _ _ i vars).bind fun vars =>
      Triple.bind (Q := fun _ => Filed H) (Triple.update fun _ filed => filed) fun _ =>
      Triple.update fun _ filed => filed

theorem filed_updateAdmin (auths : List Address) (newAdmin : Address) :
    Keeps (Filed H) (updateAdmin auths newAdmin) := by
  unfold updateAdmin
  refine keeps_storage.bind fun store => ?_
  split
  · exact Triple.trap
  · exact (keeps_requireAuth _ _).bind fun _ => Triple.update fun _ filed => filed

theorem filed_step {env : Env Storage} (filed : Filed H env) (call : Call) :
    Filed H (step H env call) := by
  cases call with
  | insertLeaf auths key value => exact Keeps.invoke (filed_insertLeaf auths key value) filed
  | deleteLeaf auths key => exact Keeps.invoke (filed_deleteLeaf auths key) filed
  | updateAdmin auths newAdmin => exact Keeps.invoke (filed_updateAdmin auths newAdmin) filed

theorem filed_run (H : Hasher) (admin : Address) (calls : List Call) : Filed H (run H admin calls) := by
  have fold (env : Env Storage) (filed : Filed H env) : Filed H (calls.foldl (step H) env) := by
    induction calls generalizing env with
    | nil => exact filed
    | cons call rest ih => exact ih _ (filed_step filed call)
  refine fold _ fun h content present => ?_
  cases present

end PrivatePayments.AspNonMembership
