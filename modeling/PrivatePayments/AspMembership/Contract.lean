import PrivatePayments.Merkle.Reference
import PrivatePayments.Poseidon2.Permutation

/-!
The ASP membership contract: an incremental Merkle tree of approved members, one leaf a
call, that its admin may open to everybody.
-/

namespace PrivatePayments.AspMembership
open Bn254 Poseidon2 Soroban Merkle

inductive Error where
  | notAuthorized
  | merkleTreeFull
  | wrongLevels
  | notInitialized
  | overflow
  deriving DecidableEq

structure LeafAdded where
  leaf : U256
  index : Nat
  root : U256
  deriving DecidableEq

structure Storage where
  admin : Option Address
  adminInsertOnly : Option Bool
  root : Option U256
  tree : Tree
  events : List LeafAdded

namespace Storage

def setTree (t : Tree) (s : Storage) : Storage := { s with tree := t }

def setRoot (s : Storage) (root : U256) : Storage := { s with root := some root }

def setNextIndex (s : Storage) (next : Nat) : Storage :=
  { s with tree := { s.tree with nextIndex := some next } }

def publish (s : Storage) (event : LeafAdded) : Storage := { s with events := s.events ++ [event] }

def empty : Storage where
  admin := none
  adminInsertOnly := none
  root := none
  tree := { levels := none, nextIndex := none, filledSubtrees := fun _ => none, zeroes := fun _ => none }
  events := []

end Storage

abbrev Contract := Host Storage Error

/-- `__constructor`. -/
def construct (admin : Address) (levels : Nat) : Contract Unit := do
  if levels = 0 ∨ 32 < levels then Host.fail .wrongLevels
  else
    Host.update fun s =>
      { s with admin := some admin, adminInsertOnly := some true, tree := Tree.initial levels }
    let rootVal ← Host.okOr getZeroes[levels]? .notInitialized
    Host.update (·.setRoot rootVal)

/-- The contract checks that there is an admin, then `soroban_utils::update_admin` asks for it. -/
def updateAdmin (auths : List Address) (newAdmin : Address) : Contract Unit := do
  let admin ← Host.okOr (← Host.storage).admin .notInitialized
  Host.requireAuth auths admin
  Host.update fun s => { s with admin := some newAdmin }

def setAdminInsertOnly (auths : List Address) (adminOnly : Bool) : Contract Unit := do
  let admin ← Host.okOr (← Host.storage).admin .notInitialized
  Host.requireAuth auths admin
  Host.update fun s => { s with adminInsertOnly := some adminOnly }

def getRoot : Contract U256 := do
  Host.okOr (← Host.storage).root .notInitialized

def requireInserter (auths : List Address) : Contract Unit := do
  let store ← Host.storage
  if store.adminInsertOnly.getD true then do
    let admin ← Host.okOr store.admin .notInitialized
    Host.requireAuth auths admin
  else pure ()

def insertLeaf (H : Hasher) (auths : List Address) (leaf : U256) : Contract Unit := do
  requireInserter auths
  let store ← Host.storage
  let levels ← Host.okOr store.tree.levels .notInitialized
  let actualIndex ← Host.okOr store.tree.nextIndex .notInitialized
  let capacity ← Host.okOr (maxLeaves levels) .merkleTreeFull
  if capacity ≤ actualIndex then Host.fail .merkleTreeFull
  else
    let climb ← Host.zoom (·.tree) Storage.setTree id
      (climbLevels H .notInitialized 0 levels actualIndex leaf)
    Host.update (·.setRoot climb.currentHash)
    Host.update (·.publish { leaf := leaf, index := actualIndex, root := climb.currentHash })
    let next ← Host.okOr (checkedAdd 64 actualIndex 1) .overflow
    Host.update (·.setNextIndex next)

inductive Call where
  | insertLeaf (auths : List Address) (leaf : U256)
  | setAdminInsertOnly (auths : List Address) (adminOnly : Bool)
  | updateAdmin (auths : List Address) (newAdmin : Address)

def Call.program (H : Hasher) : Call → Contract Unit
  | .insertLeaf auths leaf => AspMembership.insertLeaf H auths leaf
  | .setAdminInsertOnly auths adminOnly => AspMembership.setAdminInsertOnly auths adminOnly
  | .updateAdmin auths newAdmin => AspMembership.updateAdmin auths newAdmin

def deployed (admin : Address) (levels : Nat) : Env Storage :=
  Host.invoke (construct admin levels) { storage := Storage.empty, hashed := [] }

def Call.leaf : Call → List U256
  | .insertLeaf _ leaf => [leaf]
  | _ => []

structure Progress where
  env : Env Storage
  leaves : List U256

def advance (H : Hasher) (p : Progress) (call : Call) : Progress :=
  match (call.program H).run p.env with
  | .ok (_, next) => { env := next, leaves := p.leaves ++ call.leaf }
  | .error _ => p

def run (H : Hasher) (admin : Address) (levels : Nat) (calls : List Call) : Progress :=
  calls.foldl (advance H) { env := deployed admin levels, leaves := [] }

theorem run_concat (H : Hasher) (admin : Address) (levels : Nat) (calls : List Call) (call : Call) :
    run H admin levels (calls ++ [call]) = advance H (run H admin levels calls) call := by
  unfold run
  rw [List.foldl_append]
  rfl

theorem advance_ok {H : Hasher} {p : Progress} {call : Call} {next : Env Storage}
    (returned : (call.program H).run p.env = .ok ((), next)) :
    advance H p call = { env := next, leaves := p.leaves ++ call.leaf } := by
  unfold advance
  rw [returned]

theorem advance_failed {H : Hasher} {p : Progress} {call : Call}
    (failed : ¬Host.Succeeds (call.program H) p.env) : advance H p call = p := by
  unfold advance
  split
  next u next returned => exact absurd (Host.succeeds_of_ok returned) failed
  next => rfl

end PrivatePayments.AspMembership
