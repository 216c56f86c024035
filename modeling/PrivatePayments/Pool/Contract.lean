import PrivatePayments.Pool.MerkleTreeWithHistory
import PrivatePayments.Soroban.Xdr

/-!
The pool contract: it takes a proof and the public data of a transaction, moves tokens,
marks the nullifiers and files the commitments.
-/

namespace PrivatePayments.Pool
open Bn254 Poseidon2 Soroban

inductive Error where
  | notAuthorized
  | merkleTreeFull
  | alreadyInitialized
  | wrongLevels
  | nextIndexNotEven
  | wrongExtAmount
  | invalidProof
  | unknownRoot
  | alreadySpentNullifier
  | wrongExtHash
  | notInitialized
  | overflow
  | nonCanonicalPublicInput
  deriving DecidableEq

/-- The conversion from `MerkleError`. -/
def Error.ofMerkle : MerkleTreeWithHistory.Error → Error
  | .alreadyInitialized => .alreadyInitialized
  | .merkleTreeFull => .merkleTreeFull
  | .wrongLevels => .wrongLevels
  | .nextIndexNotEven => .nextIndexNotEven
  | .notInitialized => .notInitialized
  | .overflow => .overflow

structure Groth16Proof where
  a : List UInt8
  b : List UInt8
  c : List UInt8
  deriving DecidableEq

def Groth16Proof.isEmpty (proof : Groth16Proof) : Bool :=
  proof.a.isEmpty || proof.b.isEmpty || proof.c.isEmpty

structure Proof where
  proof : Groth16Proof
  root : U256
  inputNullifiers : List U256
  outputCommitment0 : U256
  outputCommitment1 : U256
  publicAmount : U256
  extDataHash : List UInt8
  aspMembershipRoot : U256
  aspNonMembershipRoot : U256
  deriving DecidableEq

structure ExtData where
  recipient : Address
  extAmount : I256
  encryptedOutput0 : List UInt8
  encryptedOutput1 : List UInt8
  deriving DecidableEq

inductive Event where
  | newCommitment (commitment : U256) (index : Nat) (encryptedOutput : List UInt8)
  | newNullifier (nullifier : U256)
  deriving DecidableEq

structure Storage where
  admin : Option Address
  token : Option Address
  verifier : Option Address
  aspMembership : Option Address
  aspNonMembership : Option Address
  maximumDepositAmount : Option U256
  nullifiers : Option (U256 → Option Bool)
  merkle : MerkleTreeWithHistory.Storage
  events : List Event

abbrev Balances := Address → Address → Int

/-- The storage of the pool and the state of the tokens it moves. -/
structure Ledger where
  pool : Storage
  balances : Balances

namespace Ledger

def setMerkle (m : MerkleTreeWithHistory.Storage) (l : Ledger) : Ledger :=
  { l with pool := { l.pool with merkle := m } }

def setNullifiers (nullifiers : U256 → Option Bool) (l : Ledger) : Ledger :=
  { l with pool := { l.pool with nullifiers := some nullifiers } }

def publish (l : Ledger) (event : Event) : Ledger :=
  { l with pool := { l.pool with events := l.pool.events ++ [event] } }

def setBalances (balances : Balances) (l : Ledger) : Ledger := { l with balances := balances }

def empty (balances : Balances) : Ledger where
  pool := { admin := none, token := none, verifier := none, aspMembership := none,
            aspNonMembership := none, maximumDepositAmount := none, nullifiers := none,
            merkle := MerkleTreeWithHistory.Storage.empty, events := [] }
  balances := balances

end Ledger

/-- The deployment: the address of the pool, the hash of the host (a digest as the number it spells) and
the contracts it calls. A call that fails gives nothing. -/
structure Deployment where
  this : Address
  keccak256 : List UInt8 → U256
  verify : (verifier : Address) → Groth16Proof → List Fr → Option Bool
  transfer : (token source target : Address) → Int → Balances → Option Balances

/-- What `get_root` of each contract answers. -/
structure Roots where
  membership : Address → Option U256
  nonMembership : Address → Option U256

abbrev Contract := Host Ledger Error

def merkle {α : Type} (program : MerkleTreeWithHistory.Contract α) : Contract α :=
  Host.zoom (fun l : Ledger => l.pool.merkle) Ledger.setMerkle Error.ofMerkle program

/-- `__constructor`. -/
def construct (admin token verifier aspMembership aspNonMembership : Address)
    (maximumDepositAmount : U256) (levels : Nat) : Contract Unit := do
  Host.update fun l =>
    { l with pool :=
      { l.pool with admin := some admin, token := some token, verifier := some verifier,
                    aspMembership := some aspMembership, aspNonMembership := some aspNonMembership,
                    maximumDepositAmount := some maximumDepositAmount,
                    nullifiers := some fun _ => none } }
  merkle (MerkleTreeWithHistory.init levels)

def maxExtAmount : Nat := 2 ^ 248

/-- `bn256_modulus` as a host integer. -/
def fieldSize : U256 := BitVec.ofNat 256 bn256Modulus

theorem toNat_fieldSize : fieldSize.toNat = bn256Modulus := by decide +kernel

def i256ToI128Nonneg (v : I256) : Contract Int :=
  if v.toInt < 0 then Host.fail .wrongExtAmount
  else Host.okOr (if v.toInt < 2 ^ 127 then some v.toInt else none) .wrongExtAmount

def i256AbsToU256 (v : I256) : Contract U256 :=
  if 0 ≤ v.toInt then pure v else Host.i256Neg v

def calculatePublicAmount (extAmount : I256) : Contract U256 := do
  let absExt ← i256AbsToU256 extAmount
  if maxExtAmount ≤ absExt.toNat then Host.fail .wrongExtAmount
  else if 0 ≤ extAmount.toInt then return extAmount
  else
    let neg ← Host.i256Neg extAmount
    Host.u256Sub fieldSize neg

def getNullifiers : Contract (U256 → Option Bool) := do
  Host.okOr (← Host.storage).pool.nullifiers .notInitialized

def isSpent (n : U256) : Contract Bool := do
  let nulls ← getNullifiers
  return (nulls n).getD false

def markSpent (n : U256) : Contract Unit := do
  let nulls ← getNullifiers
  Host.update (·.setNullifiers (Function.update nulls n (some true)))

def checkNullifiers : List U256 → Contract Unit
  | [] => pure ()
  | n :: rest => do
      if ← isSpent n then Host.fail .alreadySpentNullifier
      checkNullifiers rest

/-- The `for` loop over the nullifiers that marks each. The error of `mark_spent` is dropped. -/
def markNullifiers : List U256 → Contract Unit
  | [] => pure ()
  | n :: rest => do
      tryCatch (markSpent n) fun
        | .error _ => pure ()
        | .trap => throw .trap
      Host.update (·.publish (.newNullifier n))
      markNullifiers rest

def validateBn256PublicInput (value modulus : U256) : Contract Unit :=
  if modulus.toNat ≤ value.toNat then Host.fail .nonCanonicalPublicInput else pure ()

def validateNullifiers (modulus : U256) : List U256 → Contract Unit
  | [] => pure ()
  | n :: rest => do
      validateBn256PublicInput n modulus
      validateNullifiers modulus rest

def validateBn256PublicInputs (proof : Proof) (modulus : U256) : Contract Unit := do
  validateBn256PublicInput proof.root modulus
  validateBn256PublicInput proof.publicAmount modulus
  validateNullifiers modulus proof.inputNullifiers
  validateBn256PublicInput proof.outputCommitment0 modulus
  validateBn256PublicInput proof.outputCommitment1 modulus
  validateBn256PublicInput proof.aspMembershipRoot modulus
  validateBn256PublicInput proof.aspNonMembershipRoot modulus

def u256ToBytes (v : U256) : List UInt8 := toBeBytes 32 v.toNat

def frFromBytes (bytes : List UInt8) : Fr := (fromBeBytes bytes : Fr)

/-- The public inputs, in the order the policy circuit declares. -/
def publicInputs (proof : Proof) : List Fr :=
  [frFromBytes (u256ToBytes proof.root), frFromBytes (u256ToBytes proof.publicAmount),
    frFromBytes proof.extDataHash] ++
  proof.inputNullifiers.map (fun n => frFromBytes (u256ToBytes n)) ++
  [frFromBytes (u256ToBytes proof.outputCommitment0), frFromBytes (u256ToBytes proof.outputCommitment1)] ++
  List.replicate proof.inputNullifiers.length (frFromBytes (u256ToBytes proof.aspMembershipRoot)) ++
  List.replicate proof.inputNullifiers.length (frFromBytes (u256ToBytes proof.aspNonMembershipRoot))

def verifyProof (D : Deployment) (proof : Proof) : Contract Bool := do
  if proof.proof.isEmpty then Host.fail .invalidProof
  let verifier ← Host.okOr (← Host.storage).pool.verifier .notInitialized
  validateBn256PublicInputs proof fieldSize
  Host.called (D.verify verifier proof.proof (publicInputs proof))

/-- A contract type as a value: a map with the names of the fields, in their order, as keys. -/
def ExtData.toScval (ext : ExtData) : ScVal :=
  .map [("encrypted_output0", .bytes ext.encryptedOutput0), ("encrypted_output1", .bytes ext.encryptedOutput1),
    ("ext_amount", .ofI256 ext.extAmount), ("recipient", .address ext.recipient.toScAddress)]

def ExtData.ofScval : ScVal → Option ExtData
  | .map [("encrypted_output0", .bytes encryptedOutput0), ("encrypted_output1", .bytes encryptedOutput1),
      ("ext_amount", .i256 hiHi hiLo loHi loLo), ("recipient", .address a)] => do
      let recipient ← Address.ofScAddress a
      return { recipient := recipient, extAmount := ofLimbs hiHi hiLo loHi loLo,
               encryptedOutput0 := encryptedOutput0, encryptedOutput1 := encryptedOutput1 }
  | _ => none

def hashExtData (keccak256 : List UInt8 → U256) (ext : ExtData) : List UInt8 :=
  let digest := keccak256 ext.toScval.toXdr
  toBeBytes 32 (digest.toNat % bn256Modulus)

def getAspMembershipRoot (roots : Roots) : Contract U256 := do
  let aspAddress ← Host.okOr (← Host.storage).pool.aspMembership .notInitialized
  Host.called (roots.membership aspAddress)

def getAspNonMembershipRoot (roots : Roots) : Contract U256 := do
  let aspAddress ← Host.okOr (← Host.storage).pool.aspNonMembership .notInitialized
  Host.called (roots.nonMembership aspAddress)

def getToken : Contract Address := do
  Host.okOr (← Host.storage).pool.token .notInitialized

/-- `transfer` of the token client. -/
def tokenTransfer (D : Deployment) (token source target : Address) (amount : Int) : Contract Unit := do
  let balances ← Host.called (D.transfer token source target amount (← Host.storage).balances)
  Host.update (·.setBalances balances)

def validate (D : Deployment) (roots : Roots) (proof : Proof) (extData : ExtData) : Contract Unit := do
  if !(← merkle (MerkleTreeWithHistory.isKnownRoot proof.root)) then Host.fail .unknownRoot
  checkNullifiers proof.inputNullifiers
  if hashExtData D.keccak256 extData ≠ proof.extDataHash then Host.fail .wrongExtHash
  let expectedPublicAmount ← calculatePublicAmount extData.extAmount
  if proof.publicAmount ≠ expectedPublicAmount then Host.fail .wrongExtAmount
  let memberRoot ← getAspMembershipRoot roots
  let nonMemberRoot ← getAspNonMembershipRoot roots
  if memberRoot ≠ proof.aspMembershipRoot ∨ nonMemberRoot ≠ proof.aspNonMembershipRoot then
    Host.fail .invalidProof
  if !(← verifyProof D proof) then Host.fail .invalidProof

def settle (D : Deployment) (H : Hasher) (proof : Proof) (extData : ExtData) : Contract Unit := do
  markNullifiers proof.inputNullifiers
  let token ← getToken
  if extData.extAmount.toInt < 0 then
    let abs ← Host.i256Neg extData.extAmount
    let amount ← i256ToI128Nonneg abs
    tokenTransfer D token D.this extData.recipient amount
  let (idx0, idx1) ← merkle
    (MerkleTreeWithHistory.insertTwoLeaves H proof.outputCommitment0 proof.outputCommitment1)
  Host.update (·.publish (.newCommitment proof.outputCommitment0 idx0 extData.encryptedOutput0))
  Host.update (·.publish (.newCommitment proof.outputCommitment1 idx1 extData.encryptedOutput1))

def internalTransact (D : Deployment) (H : Hasher) (roots : Roots) (proof : Proof) (extData : ExtData) :
    Contract Unit := do
  validate D roots proof extData
  settle D H proof extData

def deposit (D : Deployment) (token sender : Address) (extAmount : I256) : Contract Unit := do
  if 0 < extAmount.toInt then
    let max ← Host.okOr (← Host.storage).pool.maximumDepositAmount .notInitialized
    if max.toNat < extAmount.toNat then Host.fail .wrongExtAmount
    let amount ← i256ToI128Nonneg extAmount
    tokenTransfer D token sender D.this amount

def transact (D : Deployment) (H : Hasher) (roots : Roots) (auths : List Address) (proof : Proof)
    (extData : ExtData) (sender : Address) : Contract Unit := do
  Host.requireAuth auths sender
  let token ← getToken
  deposit D token sender extData.extAmount
  internalTransact D H roots proof extData

/-- The contract checks that there is an admin, then `soroban_utils::update_admin` asks for it. -/
def updateAdmin (auths : List Address) (newAdmin : Address) : Contract Unit := do
  let admin ← Host.okOr (← Host.storage).pool.admin .notInitialized
  Host.requireAuth auths admin
  Host.update fun l => { l with pool := { l.pool with admin := some newAdmin } }

def updateAspMembership (auths : List Address) (newAspMembership : Address) : Contract Unit := do
  let admin ← Host.okOr (← Host.storage).pool.admin .notInitialized
  Host.requireAuth auths admin
  Host.update fun l => { l with pool := { l.pool with aspMembership := some newAspMembership } }

def updateAspNonMembership (auths : List Address) (newAspNonMembership : Address) : Contract Unit := do
  let admin ← Host.okOr (← Host.storage).pool.admin .notInitialized
  Host.requireAuth auths admin
  Host.update fun l => { l with pool := { l.pool with aspNonMembership := some newAspNonMembership } }

end PrivatePayments.Pool
