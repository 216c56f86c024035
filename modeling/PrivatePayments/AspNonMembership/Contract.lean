import PrivatePayments.Soroban.Host

/-!
The ASP non-membership contract: a sparse Merkle tree of blocked keys whose nodes
are filed in contract storage under their own hashes.
-/

namespace PrivatePayments.AspNonMembership
open Bn254 Poseidon2 Soroban

inductive Error where
  | notAuthorized
  | keyNotFound
  | keyAlreadyExists
  | invalidProof
  | notInitialized
  | overflow
  deriving DecidableEq

inductive Event where
  | leafInserted (key value root : U256)
  | leafDeleted (key root : U256)
  deriving DecidableEq

structure FindResult where
  found : Bool
  siblings : List U256
  foundValue : U256
  notFoundKey : U256
  notFoundValue : U256
  /-- The path ended at an empty branch rather than at another leaf. -/
  isOld0 : Bool
  deriving DecidableEq

/-- Node hash to node content: `[1, key, value]` or `[left, right]`. -/
abbrev Nodes := U256 → Option (List U256)

/-- `DataKey::Admin`, `DataKey::Root`, the `DataKey::Node` entries and the events published. -/
structure Storage where
  admin : Option Address
  root : Option U256
  node : Nodes
  events : List Event

namespace Storage

def setNode (s : Storage) (h : U256) (content : List U256) : Storage :=
  { s with node := Function.update s.node h (some content) }

def removeNode (s : Storage) (h : U256) : Storage :=
  { s with node := Function.update s.node h none }

def setRoot (s : Storage) (root : U256) : Storage := { s with root := some root }

def publish (s : Storage) (event : Event) : Storage := { s with events := s.events ++ [event] }

end Storage

abbrev Contract := Host Storage Error

/-- `__constructor`. -/
def deployed (admin : Address) : Env Storage :=
  { storage := { admin := some admin, root := some 0, node := fun _ => none, events := [] },
    hashed := [] }

/-- `hash(key, value, 1)`. -/
def hashLeaf (H : Hasher) (key value : U256) : Contract U256 :=
  Host.poseidon2Hash2 H key value 1

def hashInternal (H : Hasher) (left right : U256) : Contract U256 :=
  Host.poseidon2Compress H left right

/-- The hash of the node one level up, whose child on the side `bit` is `child`. -/
def hashToward (H : Hasher) (bit : Bool) (child sibling : U256) : Contract U256 :=
  if bit then hashInternal H sibling child else hashInternal H child sibling

def splitBitsLoop : Nat → Nat → List Bool
  | 0, _ => []
  | n + 1, k => (k % 2 == 1) :: splitBitsLoop n (k / 2)

def splitBits (key : U256) : List Bool := splitBitsLoop 256 key.toNat

/-- The bits are those from `level` on, where the source carries all of them and the level. -/
def findKeyInternal (node : Nodes) (key : U256) (bits : List Bool) (root : U256) :
    Except Error FindResult :=
  if root = 0 then
    .ok { found := false, siblings := [], foundValue := 0, notFoundKey := key,
          notFoundValue := 0, isOld0 := true }
  else
    match node root with
    | none => .error .keyNotFound
    | some [tag, storedKey, storedValue] =>
        if tag = 1 then
          if storedKey = key then
            .ok { found := true, siblings := [], foundValue := storedValue, notFoundKey := 0,
                  notFoundValue := 0, isOld0 := false }
          else
            .ok { found := false, siblings := [], foundValue := 0, notFoundKey := storedKey,
                  notFoundValue := storedValue, isOld0 := false }
        else .error .keyNotFound
    | some [left, right] =>
        match bits with
        | [] => .error .keyNotFound
        | bit :: rest => do
            let result ← findKeyInternal node key rest (if !bit then left else right)
            return { result with siblings := (if !bit then right else left) :: result.siblings }
    | some _ => .error .keyNotFound

def findKey (s : Storage) (key : U256) : Except Error FindResult :=
  findKeyInternal s.node key (splitBits key) (s.root.getD 0)

/-- The `while` loop that pads the siblings with zeros over the bits two keys share. -/
def extendLoop : List Bool → List Bool → List U256 → List U256
  | old :: olds, new :: news, siblings =>
      if old == new then extendLoop olds news (siblings ++ [0]) else siblings
  | _, _, siblings => siblings

structure InsertVars where
  mixed : Bool
  rtOld : U256
  rt : U256

/-- The siblings to build up along, and the loop variables before the new leaf is hashed. -/
structure InsertStart where
  siblings : List U256
  mixed : Bool
  rtOld : U256
  addedOne : Bool

def insertStart (H : Hasher) (keyBits : List Bool) (find : FindResult) : Contract InsertStart :=
  if !find.isOld0 then do
    let oldKeyBits := splitBits find.notFoundKey
    let i := find.siblings.length
    let extended := extendLoop (oldKeyBits.drop i) (keyBits.drop i) find.siblings
    let rtOld ← hashLeaf H find.notFoundKey find.notFoundValue
    return { siblings := extended ++ [rtOld], mixed := false, rtOld := rtOld, addedOne := true }
  else
    return { siblings := find.siblings, mixed := !find.siblings.isEmpty, rtOld := 0,
             addedOne := false }

/-- One turn of the loop of `insert_leaf` from the leaf up to the root. -/
def insertStep (H : Hasher) (keyBits : List Bool) (find : FindResult) (start : InsertStart)
    (i : Nat) (vars : InsertVars) : Contract InsertVars := do
  let sibling := start.siblings.getD i 0
  let isLastAddedLeaf := start.addedOne && i == start.siblings.length - 1
  let mixed := vars.mixed ||
    (!isLastAddedLeaf && decide (i < start.siblings.length - 1) && sibling != 0)
  let bit ← Host.okOr keyBits[i]? .keyNotFound
  let rtOld ←
    if mixed && !isLastAddedLeaf then do
      let oldSibling := if i < find.siblings.length then find.siblings.getD i 0 else 0
      let rtOld ← hashToward H bit vars.rtOld oldSibling
      Host.update (·.removeNode rtOld)
      pure rtOld
    else pure vars.rtOld
  let rt ← hashToward H bit vars.rt sibling
  Host.update (·.setNode rt (if bit then [sibling, vars.rt] else [vars.rt, sibling]))
  return { mixed := mixed, rtOld := rtOld, rt := rt }

/-- The source ends by trimming its local sibling list, which nothing reads afterwards. -/
def insertLeaf (H : Hasher) (auths : List Address) (key value : U256) : Contract Unit := do
  let store ← Host.storage
  let admin ← Host.okOr store.admin .notInitialized
  Host.requireAuth auths admin
  let root := store.root.getD 0
  let keyBits := splitBits key
  let find ← Host.lift (findKeyInternal store.node key keyBits root)
  if find.found then Host.fail .keyAlreadyExists
  else
    let start ← insertStart H keyBits find
    let rt ← hashLeaf H key value
    Host.update (·.setNode rt [1, key, value])
    let vars ← Host.forDown (insertStep H keyBits find start) start.siblings.length
      { mixed := start.mixed, rtOld := start.rtOld, rt := rt }
    Host.update (·.setRoot vars.rt)
    Host.update (·.publish (.leafInserted key value vars.rt))

structure DeleteVars where
  mixed : Bool
  rtOld : U256
  rtNew : U256

/-- The subtree left in the place of the deleted leaf and the siblings above it: a
sibling leaf is promoted and taken off the list. -/
def deleteStart (node : Nodes) (siblings : List U256) : Contract (U256 × List U256) :=
  match siblings.getLast? with
  | none => return (0, siblings)
  | some lastSibling =>
      match node lastSibling with
      | none => Host.fail .keyNotFound
      | some [tag, _, _] =>
          if tag = 1 then return (lastSibling, siblings.dropLast) else Host.fail .keyNotFound
      | some [_, _] => return (0, siblings)
      | some _ => Host.fail .keyNotFound

/-- One turn of the loop of `delete_leaf`. -/
def deleteStep (H : Hasher) (keyBits : List Bool) (siblings : List U256) (level : Nat)
    (vars : DeleteVars) : Contract DeleteVars := do
  let sibling ← Host.okOr siblings[level]? .keyNotFound
  let bit ← Host.okOr keyBits[level]? .keyNotFound
  let rtOld ← hashToward H bit vars.rtOld sibling
  Host.update (·.removeNode rtOld)
  let mixed := vars.mixed || sibling != 0
  if mixed then
    let rtNew ← hashToward H bit vars.rtNew sibling
    Host.update (·.setNode rtNew (if bit then [sibling, vars.rtNew] else [vars.rtNew, sibling]))
    return { mixed := mixed, rtOld := rtOld, rtNew := rtNew }
  else
    return { mixed := mixed, rtOld := rtOld, rtNew := vars.rtNew }

def deleteLeaf (H : Hasher) (auths : List Address) (key : U256) : Contract Unit := do
  let store ← Host.storage
  let admin ← Host.okOr store.admin .notInitialized
  Host.requireAuth auths admin
  let root ← Host.okOr store.root .notInitialized
  let keyBits := splitBits key
  let find ← Host.lift (findKeyInternal store.node key keyBits root)
  if !find.found then Host.fail .keyNotFound
  else
    let rtOld ← hashLeaf H key find.foundValue
    Host.update (·.removeNode rtOld)
    let (rtNew, siblings) ← deleteStart (← Host.storage).node find.siblings
    let vars ← Host.forDown (deleteStep H keyBits siblings) siblings.length
      { mixed := false, rtOld := rtOld, rtNew := rtNew }
    Host.update (·.setRoot vars.rtNew)
    Host.update (·.publish (.leafDeleted key vars.rtNew))

/-- One turn of the loop of `verify_non_membership`. -/
def verifyStep (H : Hasher) (keyBits : List Bool) (siblings : List U256) (level : Nat)
    (computedRoot : U256) : Contract U256 := do
  let sibling ← Host.okOr siblings[level]? .invalidProof
  let bit ← Host.okOr keyBits[level]? .invalidProof
  hashToward H bit computedRoot sibling

def verifyNonMembership (H : Hasher) (key : U256) (siblings : List U256)
    (notFoundKey notFoundValue : U256) : Contract Bool := do
  let store ← Host.storage
  let root := store.root.getD 0
  let keyBits := splitBits key
  let find ← Host.lift (findKeyInternal store.node key keyBits root)
  if find.found then return false
  else if find.siblings.length ≠ siblings.length then Host.fail .invalidProof
  -- the source compares element by element
  else if siblings ≠ find.siblings then Host.fail .invalidProof
  else if find.notFoundKey ≠ notFoundKey ∨ find.notFoundValue ≠ notFoundValue then
    Host.fail .invalidProof
  else
    let start ←
      if notFoundKey ≠ key ∧ notFoundValue ≠ 0 then hashLeaf H notFoundKey notFoundValue
      else pure 0
    let computedRoot ← Host.forDown (verifyStep H keyBits siblings) siblings.length start
    if computedRoot ≠ root then Host.fail .invalidProof else return true

def getRoot (s : Storage) : Except Error U256 :=
  match s.root with
  | some root => .ok root
  | none => .error .notInitialized

def updateAdmin (auths : List Address) (newAdmin : Address) : Contract Unit := do
  match (← Host.storage).admin with
  | none => throw .trap
  | some admin =>
      Host.requireAuth auths admin
      Host.update fun s => { s with admin := some newAdmin }

inductive Call where
  | insertLeaf (auths : List Address) (key value : U256)
  | deleteLeaf (auths : List Address) (key : U256)
  | updateAdmin (auths : List Address) (newAdmin : Address)

def Call.program (H : Hasher) : Call → Contract Unit
  | .insertLeaf auths key value => AspNonMembership.insertLeaf H auths key value
  | .deleteLeaf auths key => AspNonMembership.deleteLeaf H auths key
  | .updateAdmin auths newAdmin => AspNonMembership.updateAdmin auths newAdmin

def step (H : Hasher) (env : Env Storage) (call : Call) : Env Storage :=
  Host.invoke (call.program H) env

def run (H : Hasher) (admin : Address) (calls : List Call) : Env Storage :=
  calls.foldl (step H) (deployed admin)

end PrivatePayments.AspNonMembership
