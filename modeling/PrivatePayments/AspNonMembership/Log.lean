import PrivatePayments.AspNonMembership.Contract
import PrivatePayments.Soroban.Triple

/-!
No invocation takes a query out of the log, so the queries behind an earlier state
of a run are in play at its end.
-/

namespace PrivatePayments.AspNonMembership
open Bn254 Poseidon2 Soroban Host

variable {H : Hasher} {q : Query}

theorem logs_hashLeaf (key value : U256) : Keeps (Logs q) (hashLeaf H key value) :=
  logs_poseidon2Hash2 H key value 1

theorem logs_hashToward (bit : Bool) (child sibling : U256) :
    Keeps (Logs q) (hashToward H bit child sibling) :=
  Triple.ite (fun _ => logs_poseidon2Compress H _ _) (fun _ => logs_poseidon2Compress H _ _)

theorem logs_insertStart (keyBits : List Bool) (find : FindResult) :
    Keeps (Logs q) (insertStart H keyBits find) := by
  unfold insertStart
  apply Triple.ite
  · exact fun _ => (logs_hashLeaf _ _).bind fun _ => keeps_pure _
  · exact fun _ => keeps_pure _

theorem logs_insertStep (keyBits : List Bool) (find : FindResult) (start : InsertStart) (i : Nat)
    (vars : InsertVars) : Keeps (Logs q) (insertStep H keyBits find start i vars) := by
  unfold insertStep
  refine (keeps_okOr _ _).bind fun bit => Triple.ite ?_ ?_
  · exact fun _ => (logs_hashToward _ _ _).bind fun _ => (logs_update _).bind fun _ =>
      (keeps_pure _).bind fun _ => (logs_hashToward _ _ _).bind fun _ => (logs_update _).bind fun _ =>
      keeps_pure _
  · exact fun _ => (keeps_pure _).bind fun _ => (logs_hashToward _ _ _).bind fun _ =>
      (logs_update _).bind fun _ => keeps_pure _

theorem logs_insertLeaf (auths : List Address) (key value : U256) :
    Keeps (Logs q) (insertLeaf H auths key value) := by
  unfold insertLeaf
  refine keeps_storage.bind fun store => (keeps_okOr _ _).bind fun admin =>
    (keeps_requireAuth _ _).bind fun _ => (keeps_lift _).bind fun find => Triple.ite ?_ ?_
  · exact fun _ => Triple.fail _
  · refine fun _ => (logs_insertStart _ _).bind fun start => (logs_hashLeaf _ _).bind fun rt =>
      (logs_update _).bind fun _ => Triple.bind ?_ fun vars => (logs_update _).bind fun _ =>
      logs_update _
    exact keeps_forDown fun i _ vars => logs_insertStep _ _ _ i vars

theorem logs_deleteStart (node : Nodes) (siblings : List U256) :
    Keeps (Logs q) (deleteStart node siblings) := by
  unfold deleteStart
  split
  · exact keeps_pure _
  · split
    · exact Triple.fail _
    · exact Triple.ite (fun _ => keeps_pure _) (fun _ => Triple.fail _)
    · exact keeps_pure _
    · exact Triple.fail _

theorem logs_deleteStep (keyBits : List Bool) (siblings : List U256) (level : Nat)
    (vars : DeleteVars) : Keeps (Logs q) (deleteStep H keyBits siblings level vars) := by
  unfold deleteStep
  refine (keeps_okOr _ _).bind fun sibling => (keeps_okOr _ _).bind fun bit =>
    (logs_hashToward _ _ _).bind fun rtOld => (logs_update _).bind fun _ => Triple.ite ?_ ?_
  · exact fun _ => (logs_hashToward _ _ _).bind fun _ => (logs_update _).bind fun _ => keeps_pure _
  · exact fun _ => keeps_pure _

theorem logs_deleteLeaf (auths : List Address) (key : U256) :
    Keeps (Logs q) (deleteLeaf H auths key) := by
  unfold deleteLeaf
  refine keeps_storage.bind fun store => (keeps_okOr _ _).bind fun admin =>
    (keeps_requireAuth _ _).bind fun _ => (keeps_okOr _ _).bind fun root =>
    (keeps_lift _).bind fun find => Triple.ite ?_ ?_
  · exact fun _ => Triple.fail _
  · refine fun _ => (logs_hashLeaf _ _).bind fun rtOld => (logs_update _).bind fun _ =>
      keeps_storage.bind fun _ => (logs_deleteStart _ _).bind fun pair =>
      Triple.bind ?_ fun vars => (logs_update _).bind fun _ => logs_update _
    exact keeps_forDown fun i _ vars => logs_deleteStep _ _ i vars

theorem logs_updateAdmin (auths : List Address) (newAdmin : Address) :
    Keeps (Logs q) (updateAdmin auths newAdmin) := by
  unfold updateAdmin
  refine keeps_storage.bind fun store => ?_
  split
  · exact Triple.trap
  · exact (keeps_requireAuth _ _).bind fun _ => logs_update _

theorem step_grows (env : Env Storage) (call : Call) :
    ∀ q ∈ env.hashed, q ∈ (step H env call).hashed := by
  intro q member
  cases call with
  | insertLeaf auths key value =>
    exact Keeps.invoke (I := Logs q) (logs_insertLeaf auths key value) member
  | deleteLeaf auths key => exact Keeps.invoke (I := Logs q) (logs_deleteLeaf auths key) member
  | updateAdmin auths newAdmin =>
    exact Keeps.invoke (I := Logs q) (logs_updateAdmin auths newAdmin) member

end PrivatePayments.AspNonMembership
