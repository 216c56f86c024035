import PrivatePayments.LocalState.HostileOutputs
import PrivatePayments.Prover.Builder

/-!
The keys of the accounts: they are derived from a signature of the wallet and stored row after row,
and the last row of an account is the one that counts.
-/

namespace PrivatePayments.Worker
open Bn254 Poseidon2 LocalState Library Library.LittleEndian
open Prover hiding Bytes

structure KeyPair where
  privateKey : Key
  publicKey : Key
  deriving DecidableEq

structure StoredUserKeys where
  noteKeypair : KeyPair
  encryptionKeypair : KeyPair
  membershipBlinding : Fr
  deriving DecidableEq

/-- The hash that keys are derived with, and the public key of an X25519 secret. -/
structure Derivation where
  sha256 : Bytes → Key
  x25519 : Key → Key

def noteKeyDomain : Bytes := "privacy-pool/note-key/v1".toUTF8.toList

def encryptionKeyDomain : Bytes := "privacy-pool/encryption-key/v1".toUTF8.toList

def membershipBlindingDomain : Bytes := "privacy-pool/asp-secret/v1".toUTF8.toList

section Derive

variable (H : Hasher) (V : Derivation)

def hashSignatureWithDomain (signature domain : Bytes) : Key := V.sha256 (domain ++ signature)

def hashSignatureWithDomainAndContext (signature domain context : Bytes) : Key :=
  V.sha256 (domain ++ [0] ++ context ++ [0] ++ signature)

def checkSignature (signature : Bytes) : Except String Unit :=
  refuse (signature.length ≠ 64) "Signature must be 64 bytes (Ed25519)"

/-- The hash is reduced to a scalar and serialized again. -/
def deriveNotePrivateKey (signature : Bytes) : Except String Key := do
  checkSignature signature
  let scalar := (hashSignatureWithDomain V signature noteKeyDomain).scalar
  return ⟨scalarToBytes scalar, length_toLeBytes 32 _⟩

def deriveKeypairFromSignature (signature : Bytes) : Except String KeyPair := do
  checkSignature signature
  let secret := hashSignatureWithDomain V signature encryptionKeyDomain
  return { privateKey := secret, publicKey := V.x25519 secret }

/-- `try_into` of a vector into the bytes of a key. -/
def keyOfBytes (bytes : Bytes) : Except String Key :=
  let got := bytes.length
  if whole : bytes.length = 32 then .ok ⟨bytes, whole⟩ else .error s!"Expected 32 bytes, but got {got}"

def deriveNoteKeypair (signature : Bytes) : Except String KeyPair := do
  let notePrivateKey ← deriveNotePrivateKey V signature
  let notePublicKey ← keyOfBytes (← derivePublicKey H notePrivateKey.bytes)
  return { privateKey := notePrivateKey, publicKey := notePublicKey }

def deriveMembershipBlinding (signature : Bytes) (networkContext : String) : Except String Fr := do
  checkSignature signature
  return (hashSignatureWithDomainAndContext V signature membershipBlindingDomain networkContext.toUTF8.toList).scalar

/-- What `DeriveSaveUserKeys` saves. -/
def deriveUserKeys (signature : Bytes) (networkContext : String) : Except String StoredUserKeys := do
  let noteKeypair ← deriveNoteKeypair H V signature
  let encryptionKeypair ← deriveKeypairFromSignature V signature
  let membershipBlinding ← deriveMembershipBlinding V signature networkContext
  return { noteKeypair := noteKeypair
           encryptionKeypair := encryptionKeypair
           membershipBlinding := membershipBlinding }

end Derive

/-- A row of `keypairs`. -/
structure KeypairsRow where
  accountId : Nat
  keys : StoredUserKeys
  deriving DecidableEq

/-- The addresses of `accounts` in the order of their ids, which go from one on, and the rows of `keypairs`. -/
structure Keyring where
  accounts : List String
  keypairs : List KeypairsRow
  deriving DecidableEq

namespace Keyring

def empty : Keyring where
  accounts := []
  keypairs := []

/-- The join with `accounts`, restricted to an address. -/
def owns (ring : Keyring) (address : String) (accountId : Nat) : Bool :=
  decide (0 < accountId) && decide (ring.accounts[accountId - 1]? = some address)

/-- `ORDER BY keypairs.id DESC LIMIT 1`. -/
def getUserKeys (ring : Keyring) (address : String) : Option StoredUserKeys :=
  ((ring.keypairs.filter fun row => ring.owns address row.accountId).getLast?).map (·.keys)

/-- `INSERT OR IGNORE` into `accounts`. -/
def getOrCreateAccount (ring : Keyring) (address : String) : Keyring :=
  { ring with accounts := if address ∈ ring.accounts then ring.accounts else ring.accounts ++ [address] }

def saveEncryptionAndNoteKeypairs (ring : Keyring) (address : String) (keys : StoredUserKeys) : Keyring :=
  let ring := ring.getOrCreateAccount address
  { ring with keypairs := ring.keypairs ++ [⟨ring.accounts.idxOf address + 1, keys⟩] }

end Keyring

/-- What the note scan takes of the keys. -/
def StoredUserKeys.account (keys : StoredUserKeys) (accountId : Nat) : AccountKeys where
  accountId := accountId
  noteKeypair := ⟨keys.noteKeypair.privateKey.scalar, keys.noteKeypair.publicKey.scalar⟩
  encryptionPrivate := keys.encryptionKeypair.privateKey.bytes

def KeypairsRow.wallet (row : KeypairsRow) : KeypairRow where
  accountId := some row.accountId
  noteKeypair := (row.keys.account row.accountId).noteKeypair
  encryptionPrivate := (row.keys.account row.accountId).encryptionPrivate

/-- The same tables, with the columns the note scan reads. -/
def Keyring.wallet (ring : Keyring) : Wallet where
  accounts := ring.accounts.length
  keypairs := ring.keypairs.map KeypairsRow.wallet

def scalarKey (scalar : Fr) : Key := ⟨scalarToBytes scalar, length_toLeBytes 32 _⟩

section Derived

variable (H : Hasher) (V : Derivation)

def noteKeypairOf (signature : Bytes) : KeyPair :=
  let scalar := (hashSignatureWithDomain V signature noteKeyDomain).scalar
  { privateKey := scalarKey scalar, publicKey := scalarKey (H.hash2 scalar 0 3) }

def encryptionKeypairOf (signature : Bytes) : KeyPair :=
  let secret := hashSignatureWithDomain V signature encryptionKeyDomain
  { privateKey := secret, publicKey := V.x25519 secret }

def userKeysOf (signature : Bytes) (networkContext : String) : StoredUserKeys where
  noteKeypair := noteKeypairOf H V signature
  encryptionKeypair := encryptionKeypairOf V signature
  membershipBlinding :=
    (hashSignatureWithDomainAndContext V signature membershipBlindingDomain networkContext.toUTF8.toList).scalar

variable {H V}

theorem scalarKey_scalar (scalar : Fr) : (scalarKey scalar).scalar = scalar := by
  change ((fromLeBytes (scalarToBytes scalar) : Nat) : Fr) = scalar
  rw [fromLeBytes_scalarToBytes, ZMod.natCast_zmod_val]

theorem keyOfBytes_scalarToBytes (scalar : Fr) : keyOfBytes (scalarToBytes scalar) = .ok (scalarKey scalar) := by
  have whole : (scalarToBytes scalar).length = 32 := length_toLeBytes 32 _
  rw [keyOfBytes, dif_pos whole]
  rfl

theorem checkSignature_bind {signature : Bytes} (whole : signature.length = 64) {β : Type}
    (f : Unit → Except String β) : (checkSignature signature >>= f) = f () := refuse_bind (not_not.mpr whole) f

theorem deriveNoteKeypair_eq {signature : Bytes} (whole : signature.length = 64) :
    deriveNoteKeypair H V signature = .ok (noteKeypairOf H V signature) := by
  have privateKey : deriveNotePrivateKey V signature =
      .ok (scalarKey (hashSignatureWithDomain V signature noteKeyDomain).scalar) := by
    rw [deriveNotePrivateKey, checkSignature_bind whole]
    rfl
  rw [deriveNoteKeypair, bind_of_ok privateKey, bind_of_ok (derivePublicKey_key _),
    bind_of_ok (keyOfBytes_scalarToBytes _),
    scalarKey_scalar]
  rfl

/-- Keys are derived of a signature of 64 bytes, and of nothing else. -/
theorem deriveUserKeys_ok_iff {signature : Bytes} {networkContext : String} {keys : StoredUserKeys} :
    deriveUserKeys H V signature networkContext = .ok keys ↔
      signature.length = 64 ∧ keys = userKeysOf H V signature networkContext := by
  by_cases whole : signature.length = 64
  · have encryption : deriveKeypairFromSignature V signature = .ok (encryptionKeypairOf V signature) := by
      rw [deriveKeypairFromSignature, checkSignature_bind whole]
      rfl
    have blinding : deriveMembershipBlinding V signature networkContext =
        .ok (userKeysOf H V signature networkContext).membershipBlinding := by
      rw [deriveMembershipBlinding, checkSignature_bind whole]
      rfl
    rw [deriveUserKeys, bind_of_ok (deriveNoteKeypair_eq whole), bind_of_ok encryption, bind_of_ok blinding]
    constructor
    · intro returned
      exact ⟨whole, (Except.ok.inj returned).symm⟩
    · intro same
      rw [same.2]
      rfl
  · refine iff_of_false (fun derived => ?_) fun same => whole same.1
    obtain ⟨noteKeypair, derivedNote, -⟩ := of_bind_ok derived
    obtain ⟨privateKey, derivedPrivate, -⟩ := of_bind_ok derivedNote
    obtain ⟨u, checked, -⟩ := of_bind_ok derivedPrivate
    exact refuse_ok_iff.mp checked whole

theorem userKeysOf_publicKey (signature : Bytes) (networkContext : String) :
    (userKeysOf H V signature networkContext).noteKeypair.publicKey.scalar =
      H.hash2 (userKeysOf H V signature networkContext).noteKeypair.privateKey.scalar 0 3 := by
  change (scalarKey (H.hash2 _ 0 3)).scalar = H.hash2 (scalarKey _).scalar 0 3
  rw [scalarKey_scalar, scalarKey_scalar]

end Derived

section Latest

variable {ring : Keyring} {address : String} {accountId : Nat}

theorem owns_iff :
    ring.owns address accountId = true ↔ 0 < accountId ∧ ring.accounts[accountId - 1]? = some address := by
  rw [Keyring.owns, Bool.and_eq_true, decide_eq_true_iff, decide_eq_true_iff]

theorem owner_unique {other : String} (first : ring.owns address accountId = true)
    (second : ring.owns other accountId = true) : address = other :=
  Option.some.inj ((owns_iff.mp first).2.symm.trans (owns_iff.mp second).2)

end Latest

end PrivatePayments.Worker
