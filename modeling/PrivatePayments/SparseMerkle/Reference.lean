import PrivatePayments.SparseMerkle.Prover

/-!
The reference tree of the circuits' tests: a port of the JavaScript one, over big integers. Nodes
are records in a map under their own hashes, and an old path is removed from it.
-/

namespace PrivatePayments.SparseMerkle.Reference
open Bn254 Poseidon2

abbrev BigInt := Int

/-- `fp_bn256_to_big_int`; the other way a big integer is taken modulo the prime. -/
def fpBn256ToBigInt (fp : Fr) : BigInt := fp.val

def poseidon2CompressionSparse (H : Hasher) (left right : BigInt) : BigInt :=
  fpBn256ToBigInt (H.compress left right)

def poseidon2Hash3Sparse (H : Hasher) (key value : BigInt) : BigInt :=
  fpBn256ToBigInt (H.hash2 key value 1)

inductive Error where
  | nodeNotFound
  | invalidRecord
  | keyExists
  /-- An index out of bounds. -/
  | panic
  deriving DecidableEq

/-- `SMTMemDB`: `[1, key, value]` for a leaf, `[left, right]` for a node. -/
abbrev Records := BigInt → Option (List BigInt)

def multiIns (db : Records) (inserts : List (BigInt × List BigInt)) : Records :=
  inserts.foldl (fun db entry => Function.update db entry.1 (some entry.2)) db

def multiDel (db : Records) (deletes : List BigInt) : Records :=
  deletes.foldl (fun db key => Function.update db key none) db

structure SparseMerkleTree where
  db : Records
  root : BigInt

def splitBitsLoop : Nat → BigInt → List Bool
  | 0, _ => []
  | n + 1, key => (key % 2 == 1) :: splitBitsLoop n (key / 2)

/-- 256 bits, least significant first. -/
def splitBits (key : BigInt) : List Bool := splitBitsLoop 256 key

namespace SparseMerkleTree

def new : SparseMerkleTree where
  db := fun _ => none
  root := 0

/-- `_find`. The bits are those from `level` on, where the source carries all of them and the level. -/
def findFrom (db : Records) (key : BigInt) (keyBits : List Bool) (root : BigInt) :
    Except Error (FindResult BigInt) :=
  if root = 0 then
    .ok { found := false, siblings := [], foundValue := 0, notFoundKey := key, notFoundValue := 0, isOld0 := true }
  else
    match db root with
    | none => .error .nodeNotFound
    | some [tag, recordKey, recordValue] =>
      if tag = 1 then
        if recordKey = key then
          .ok { found := true, siblings := [], foundValue := recordValue, notFoundKey := 0, notFoundValue := 0,
                isOld0 := false }
        else
          .ok { found := false, siblings := [], foundValue := 0, notFoundKey := recordKey,
                notFoundValue := recordValue, isOld0 := false }
      else .error .invalidRecord
    | some [left, right] =>
      match keyBits with
      | [] => .error .panic
      | bit :: bits => do
        let res ← findFrom db key bits (if !bit then left else right)
        return { res with siblings := (if !bit then right else left) :: res.siblings }
    | some _ => .error .invalidRecord

def find (t : SparseMerkleTree) (key : BigInt) : Except Error (FindResult BigInt) :=
  findFrom t.db key (splitBits key) t.root

def parentNode (H : Hasher) (bit : Bool) (sibling child : BigInt) : BigInt × List BigInt :=
  if bit then (poseidon2CompressionSparse H sibling child, [sibling, child])
  else (poseidon2CompressionSparse H child sibling, [child, sibling])

/-- The variables of the loop of `update`. -/
structure UpdateVars where
  currentRtOld : BigInt
  currentRtNew : BigInt
  inserts : List (BigInt × List BigInt)
  deletes : List BigInt

def updateStep (H : Hasher) (keyBits : List Bool) (item : BigInt × Nat) (vars : UpdateVars) :
    Except Error UpdateVars :=
  match keyBits[item.2]? with
  | none => .error .panic
  | some bit =>
    let oldNode := parentNode H bit item.1 vars.currentRtOld
    let newNode := parentNode H bit item.1 vars.currentRtNew
    .ok {
      currentRtOld := oldNode.1
      currentRtNew := newNode.1
      inserts := vars.inserts ++ [newNode]
      deletes := vars.deletes ++ [oldNode.1] }

def update (H : Hasher) (t : SparseMerkleTree) (key newValue : BigInt) :
    Except Error (SMTResult BigInt × SparseMerkleTree) := do
  let resFind ← t.find key
  let rtOld := poseidon2Hash3Sparse H key resFind.foundValue
  let rtNew := poseidon2Hash3Sparse H key newValue
  let vars ← resFind.siblings.zipIdx.foldrM (updateStep H (splitBits key)) {
    currentRtOld := rtOld
    currentRtNew := rtNew
    inserts := [(rtNew, [1, key, newValue])]
    deletes := [rtOld] }
  return ({
    oldRoot := t.root
    newRoot := vars.currentRtNew
    siblings := resFind.siblings
    oldKey := key
    oldValue := resFind.foundValue
    newKey := key
    newValue := newValue
    isOld0 := resFind.isOld0 },
    { db := multiIns (multiDel t.db vars.deletes) vars.inserts, root := vars.currentRtNew })

/-- The variables of the loop of `insert`. -/
structure InsertVars where
  mixed : Bool
  rtOld : BigInt
  rt : BigInt
  inserts : List (BigInt × List BigInt)
  deletes : List BigInt

/-- A turn of that loop, for the sibling and its level. `length` is the number of siblings of the
extended path and `oldSiblings` are those the search met. -/
def insertStep (H : Hasher) (keyBits : List Bool) (oldSiblings : List BigInt) (length : Nat)
    (item : BigInt × Nat) (vars : InsertVars) : Except Error InsertVars := do
  let mixed := vars.mixed || (decide (item.2 < length - 1) && item.1 != 0)
  match keyBits[item.2]? with
  | none => throw .panic
  | some bit =>
    let newNode := parentNode H bit item.1 vars.rt
    if mixed then
      match oldSiblings[item.2]? with
      | none => throw .panic
      | some oldSibling =>
        let rtOld := (parentNode H bit oldSibling vars.rtOld).1
        return {
          mixed := mixed
          rtOld := rtOld
          rt := newNode.1
          inserts := vars.inserts ++ [newNode]
          deletes := vars.deletes ++ [rtOld] }
    else
      return { vars with mixed := mixed, rt := newNode.1, inserts := vars.inserts ++ [newNode] }

/-- The siblings of the extended path, and the loop variables before the new leaf is hashed. -/
structure InsertStart where
  siblings : List BigInt
  mixed : Bool
  rtOld : BigInt
  addedOne : Bool

def insertStart (H : Hasher) (newKeyBits : List Bool) (resFind : FindResult BigInt) : InsertStart :=
  if !resFind.isOld0 then
    let oldKeyBits := splitBits resFind.notFoundKey
    let i := resFind.siblings.length
    let rtOld := poseidon2Hash3Sparse H resFind.notFoundKey resFind.notFoundValue
    { siblings := pushShared (oldKeyBits.drop i) (newKeyBits.drop i) resFind.siblings ++ [rtOld]
      mixed := false, rtOld := rtOld, addedOne := true }
  else
    { siblings := resFind.siblings, mixed := !resFind.siblings.isEmpty, rtOld := 0, addedOne := false }

def insert (H : Hasher) (t : SparseMerkleTree) (key value : BigInt) :
    Except Error (SMTResult BigInt × SparseMerkleTree) := do
  let newKeyBits := splitBits key
  let resFind ← t.find key
  if resFind.found then throw .keyExists
  let start := insertStart H newKeyBits resFind
  let rt := poseidon2Hash3Sparse H key value
  let vars ← start.siblings.zipIdx.foldrM (insertStep H newKeyBits resFind.siblings start.siblings.length) {
    mixed := start.mixed
    rtOld := start.rtOld
    rt := rt
    inserts := [(rt, [1, key, value])]
    deletes := [] }
  let siblings := trimZeros (if start.addedOne then start.siblings.dropLast else start.siblings)
  return ({
    oldRoot := t.root
    newRoot := vars.rt
    siblings := siblings
    oldKey := resFind.notFoundKey
    oldValue := resFind.notFoundValue
    newKey := key
    newValue := value
    isOld0 := resFind.isOld0 },
    { db := multiDel (multiIns t.db vars.inserts) vars.deletes, root := vars.rt })

end SparseMerkleTree

end PrivatePayments.SparseMerkle.Reference
