import Mathlib.Logic.Function.Basic
import PrivatePayments.Poseidon2.Hasher

/-!
The client's sparse Merkle tree: nodes in a map under their own hashes, and never removed.
-/

namespace PrivatePayments.SparseMerkle
open Bn254 Poseidon2

/-- What a search answers, over the numbers `N` the program computes with. -/
structure FindResult (N : Type) where
  found : Bool
  /-- Sibling hashes along the path, the root's children first. -/
  siblings : List N
  foundValue : N
  notFoundKey : N
  notFoundValue : N
  /-- The path ended at an empty slot. -/
  isOld0 : Bool
  deriving DecidableEq

structure SMTResult (N : Type) where
  oldRoot : N
  newRoot : N
  siblings : List N
  oldKey : N
  oldValue : N
  newKey : N
  newValue : N
  isOld0 : Bool
  deriving DecidableEq

/-- The loop that pushes a zero for every bit two keys share, from a level on. -/
def pushShared {N : Type} [Zero N] : List Bool → List Bool → List N → List N
  | old :: olds, new :: news, siblings =>
      if old == new then pushShared olds news (siblings ++ [0]) else siblings
  | _, _, siblings => siblings

/-- The loop that pops zeros off the end. -/
def trimZeros {N : Type} [Zero N] [DecidableEq N] (siblings : List N) : List N :=
  (siblings.reverse.dropWhile (· = 0)).reverse

namespace Prover

inductive Error where
  | maximumDepth
  | nodeNotFound
  | keyExists
  | keyMissing
  /-- An index out of the bounds of the key's bits. -/
  | panic
  deriving DecidableEq

inductive Node where
  | empty
  | leaf (key value : Fr)
  | internal (left right : Fr)
  deriving DecidableEq

/-- The map goes by the 32 bytes of a hash, which determine it. -/
structure SparseMerkleTree where
  db : Fr → Option Node
  root : Fr

def poseidon2HashLeaf (H : Hasher) (key value : Fr) : Fr := H.hash2 key value 1

/-- The limbs of `into_bigint`. -/
def limbs (v : Nat) : List Nat := (List.range 4).map fun i => v / 2 ^ (64 * i) % 2 ^ 64

/-- 256 bits, least significant first. -/
def fieldToBits (field : Fr) : List Bool :=
  ((limbs field.val).flatMap fun limb => (List.range 64).map fun i => (limb >>> i &&& 1) == 1).take 256

namespace SparseMerkleTree

def new : SparseMerkleTree where
  db := fun _ => none
  root := 0

def getNode (t : SparseMerkleTree) (hash : Fr) : Option Node :=
  if hash = 0 then some .empty else t.db hash

def putNode (t : SparseMerkleTree) (hash : Fr) (node : Node) : SparseMerkleTree :=
  if hash ≠ 0 then { t with db := Function.update t.db hash (some node) } else t

/-- The bits are those from `level` on, where the source carries all 256 of them and the level. -/
def findInternal (t : SparseMerkleTree) (key : Fr) : List Bool → Fr → Except Error (FindResult Fr)
  | [], _ => .error .maximumDepth
  | bit :: bits, currentHash =>
    if currentHash = 0 then
      .ok { found := false, siblings := [], foundValue := 0, notFoundKey := key, notFoundValue := 0, isOld0 := true }
    else
      match t.getNode currentHash with
      | some (.leaf leafKey leafValue) =>
        if leafKey = key then
          .ok { found := true, siblings := [], foundValue := leafValue, notFoundKey := 0, notFoundValue := 0,
                isOld0 := false }
        else
          .ok { found := false, siblings := [], foundValue := 0, notFoundKey := leafKey, notFoundValue := leafValue,
                isOld0 := false }
      | some (.internal left right) => do
        let result ← findInternal t key bits (if bit then right else left)
        return { result with siblings := result.siblings ++ [if bit then left else right] }
      | some .empty =>
        .ok { found := false, siblings := [], foundValue := 0, notFoundKey := key, notFoundValue := 0, isOld0 := true }
      | none => .error .nodeNotFound

def find (t : SparseMerkleTree) (key : Fr) : Except Error (FindResult Fr) := do
  let result ← t.findInternal key (fieldToBits key) t.root
  return { result with siblings := result.siblings.reverse }

/-- A turn of the loop that builds the path from bottom to top; the sibling comes with its level. -/
def buildStep (H : Hasher) (keyBits : List Bool) (item : Fr × Nat) (state : SparseMerkleTree × Fr) :
    Except Error (SparseMerkleTree × Fr) :=
  match keyBits[item.2]? with
  | none => .error .panic
  | some bit =>
    let left := if bit then item.1 else state.2
    let right := if bit then state.2 else item.1
    let currentHash := H.compress left right
    .ok (state.1.putNode currentHash (.internal left right), currentHash)

def buildPath (H : Hasher) (keyBits : List Bool) (siblings : List Fr) (t : SparseMerkleTree) (leafHash : Fr) :
    Except Error (SparseMerkleTree × Fr) :=
  siblings.zipIdx.foldrM (buildStep H keyBits) (t, leafHash)

/-- The siblings to build along: over a collision the path is extended down to the old leaf. -/
def extendedSiblings (H : Hasher) (keyBits : List Bool) (found : FindResult Fr) : List Fr :=
  if !found.isOld0 then
    let oldKeyBits := fieldToBits found.notFoundKey
    let divergeLevel := found.siblings.length
    pushShared (oldKeyBits.drop divergeLevel) (keyBits.drop divergeLevel) found.siblings ++
      [poseidon2HashLeaf H found.notFoundKey found.notFoundValue]
  else found.siblings

def insert (H : Hasher) (t : SparseMerkleTree) (key value : Fr) :
    Except Error (SMTResult Fr × SparseMerkleTree) := do
  let findResult ← t.find key
  if findResult.found then throw .keyExists
  let oldRoot := t.root
  let keyBits := fieldToBits key
  let newLeafHash := poseidon2HashLeaf H key value
  let siblings := extendedSiblings H keyBits findResult
  let (built, currentHash) ← buildPath H keyBits siblings (t.putNode newLeafHash (.leaf key value)) newLeafHash
  let trimmed := trimZeros siblings
  let resultSiblings := if !findResult.isOld0 && !trimmed.isEmpty then trimmed.dropLast else trimmed
  return ({
    oldRoot := oldRoot
    newRoot := currentHash
    siblings := resultSiblings
    oldKey := findResult.notFoundKey
    oldValue := findResult.notFoundValue
    newKey := key
    newValue := value
    isOld0 := findResult.isOld0 }, { built with root := currentHash })

def update (H : Hasher) (t : SparseMerkleTree) (key newValue : Fr) :
    Except Error (SMTResult Fr × SparseMerkleTree) := do
  let findResult ← t.find key
  if !findResult.found then throw .keyMissing
  let oldRoot := t.root
  let oldValue := findResult.foundValue
  let keyBits := fieldToBits key
  let newLeafHash := poseidon2HashLeaf H key newValue
  let (built, currentHash) ←
    buildPath H keyBits findResult.siblings (t.putNode newLeafHash (.leaf key newValue)) newLeafHash
  return ({
    oldRoot := oldRoot
    newRoot := currentHash
    siblings := findResult.siblings
    oldKey := key
    oldValue := oldValue
    newKey := key
    newValue := newValue
    isOld0 := false }, { built with root := currentHash })

end SparseMerkleTree

end Prover

end PrivatePayments.SparseMerkle
