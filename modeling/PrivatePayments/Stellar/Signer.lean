import PrivatePayments.Soroban.Xdr

/-!
Signing of prepared transactions: which authorization entries the wallet has to sign, over
what, and how its signatures are put into the entries and the entries into the envelope.
XDR, address texts and SHA-256 are the libraries'.
-/

namespace PrivatePayments.Stellar
open Bn254 Soroban

/-- Soroban values, as far as signatures are built of them. -/
inductive ScVal (α : Type) where
  | void
  | symbol (text : String)
  | bytes (content : List UInt8)
  | vec (items : List (ScVal α))
  | map (entries : List (ScVal α × ScVal α))
  | other (v : α)

structure SorobanAddressCredentials (α : Type) where
  address : ScAddress
  nonce : BitVec 64
  signatureExpirationLedger : BitVec 32
  signature : ScVal α

inductive SorobanCredentials (α : Type) where
  | sourceAccount
  | address (creds : SorobanAddressCredentials α)

/-- Invocations are of type `ι`; `α` is whatever else is carried along unread. -/
structure SorobanAuthorizationEntry (ι α : Type) where
  credentials : SorobanCredentials α
  rootInvocation : ι

inductive OperationBody (ι α : Type) where
  | invokeHostFunction (hostFunction : α) (auth : List (SorobanAuthorizationEntry ι α))
  | other (body : α)

structure Operation (ι α : Type) where
  sourceAccount : α
  body : OperationBody ι α

inductive TransactionEnvelope (ι α : Type) where
  | tx (operations : List (Operation ι α)) (rest : α)
  | other (envelope : α)

structure PreparedSorobanTx where
  txXdr : String
  authEntries : List String
  latestLedger : BitVec 32

/-- `HashIdPreimage::SorobanAuthorization`. -/
structure HashIdPreimage (ι : Type) where
  networkId : U256
  nonce : BitVec 64
  signatureExpirationLedger : BitVec 32
  invocation : ι

structure AuthSignStep (ι : Type) where
  entryIndex : Nat
  preimage : HashIdPreimage ι

/-- Ed25519 signature (64 bytes). -/
abbrev Signature := BitVec 512

/-- What the client takes from libraries: base64 XDR, the text form of addresses, SHA-256. -/
structure Codec (ι α : Type) where
  entryFromXdrBase64 : String → Option (SorobanAuthorizationEntry ι α)
  envelopeFromXdrBase64 : String → Option (TransactionEnvelope ι α)
  envelopeToXdrBase64 : TransactionEnvelope ι α → Option String
  accountText : U256 → String
  contractText : U256 → String
  parsePublicKey : String → Option U256
  sha256 : String → U256

inductive SignError where
  | invalidAuthEntry
  | unsupportedAddress
  | preimageRequiresAddress
  | invalidUserAddress
  | missingSignature (entryIndex : Nat)
  | applyRequiresAddress
  | alreadySigned
  | unexpectedSignatures
  | invalidPreparedTx
  | unsupportedEnvelope
  | attachEntries
  | noInvokeHostFunction
  | encodePatchedTx
  deriving DecidableEq

/-- The outermost text of each error. -/
def SignError.message : SignError → String
  | invalidAuthEntry => "invalid auth entry xdr"
  | unsupportedAddress => "Unsupported Address type"
  | preimageRequiresAddress => "soroban_auth_preimage requires address credentials"
  | invalidUserAddress => "invalid user address strkey"
  | missingSignature entryIndex => s!"missing auth signature for entry index {entryIndex}"
  | applyRequiresAddress => "apply_address_auth_signature requires address credentials"
  | alreadySigned => "auth entry already signed"
  | unexpectedSignatures => "unexpected auth signatures for non-wallet auth entries"
  | invalidPreparedTx => "invalid prepared tx xdr"
  | unsupportedEnvelope => "unsupported transaction envelope (expected v1)"
  | attachEntries => "attach signed auth entries"
  | noInvokeHostFunction => "no invokeHostFunction operation found to attach auth entries"
  | encodePatchedTx => "encode patched tx xdr"

/-- `context` on what a library returns. -/
def context {β : Type} (e : SignError) : Option β → Except SignError β
  | some b => .ok b
  | none => .error e

variable {ι α : Type} (X : Codec ι α)

def networkId (networkPassphrase : String) : U256 := X.sha256 networkPassphrase

def authExpirationLedgers : BitVec 32 := 100

/-- `saturating_add`. -/
def authExpirationLedger (prepared : PreparedSorobanTx) : BitVec 32 :=
  if prepared.latestLedger.toNat + authExpirationLedgers.toNat < 2 ^ 32 then
    prepared.latestLedger + authExpirationLedgers
  else BitVec.allOnes 32

/-- `scval_to_address_string` of an address. -/
def scvalToAddressString : ScAddress → Except SignError String
  | .account key => .ok (X.accountText key)
  | .contract id => .ok (X.contractText id)
  | _ => .error .unsupportedAddress

def needsWalletAuth (entry : SorobanAuthorizationEntry ι α) (address : String) : Except SignError Bool :=
  match entry.credentials with
  | .sourceAccount => .ok false
  | .address creds =>
    match creds.signature with
    | .void => do return (← scvalToAddressString X creds.address) == address
    | _ => .ok false

def sorobanAuthPreimage (entry : SorobanAuthorizationEntry ι α) (networkPassphrase : String)
    (expirationLedger : BitVec 32) : Except SignError (HashIdPreimage ι) :=
  match entry.credentials with
  | .sourceAccount => .error .preimageRequiresAddress
  | .address creds =>
    .ok {
      networkId := networkId X networkPassphrase
      nonce := creds.nonce
      signatureExpirationLedger := expirationLedger
      invocation := entry.rootInvocation
    }

/-- A turn of the loop of `auth_sign_steps`. -/
def collectStep (networkPassphrase userAddress : String) (expiration : BitVec 32) (steps : List (AuthSignStep ι))
    (item : String × Nat) : Except SignError (List (AuthSignStep ι)) := do
  let entry ← context .invalidAuthEntry (X.entryFromXdrBase64 item.1)
  if ← needsWalletAuth X entry userAddress then
    return steps ++ [{
      entryIndex := item.2
      preimage := ← sorobanAuthPreimage X entry networkPassphrase expiration
    }]
  else return steps

def authSignSteps (prepared : PreparedSorobanTx) (networkPassphrase userAddress : String) :
    Except SignError (List (AuthSignStep ι)) :=
  prepared.authEntries.zipIdx.foldlM
    (collectStep X networkPassphrase userAddress (authExpirationLedger prepared)) []

/-- `address_credentials_signature`; symbols and byte strings of these lengths fit their types. -/
def addressCredentialsSignature (publicKey : U256) (signature : Signature) : ScVal α :=
  .vec [.map [
    (.symbol "public_key", .bytes (toBeBytes 32 publicKey.toNat)),
    (.symbol "signature", .bytes (toBeBytes 64 signature.toNat))]]

def applyAddressAuthSignature (entry : SorobanAuthorizationEntry ι α) (publicKey : U256) (signature : Signature)
    (expirationLedger : BitVec 32) : Except SignError (SorobanAuthorizationEntry ι α) :=
  match entry.credentials with
  | .sourceAccount => .error .applyRequiresAddress
  | .address creds =>
    match creds.signature with
    | .void => .ok { entry with
        credentials := .address { creds with
          signatureExpirationLedger := expirationLedger
          signature := addressCredentialsSignature publicKey signature } }
    | _ => .error .alreadySigned

/-- A `BTreeMap<usize, Signature>` by its entries; a key is in it once. -/
abbrev SignatureMap := List (Nat × Signature)

/-- `collect`: of two entries with one key the later one stays. -/
def collectSignatures (authSignatures : List (Nat × Signature)) : SignatureMap :=
  authSignatures.foldl (fun sigs entry => entry :: sigs.filter fun old => old.1 ≠ entry.1) []

def SignatureMap.remove (sigs : SignatureMap) (entryIndex : Nat) : Option Signature × SignatureMap :=
  (sigs.lookup entryIndex, sigs.filter fun entry => entry.1 ≠ entryIndex)

/-- The variables of the loop of `unsigned_tx_for_signing`. -/
structure Signing (ι α : Type) where
  sigsByIndex : SignatureMap
  needsPatch : Bool
  signedAuth : List (SorobanAuthorizationEntry ι α)

def signEntry (userAddress : String) (publicKey : U256) (expiration : BitVec 32) (s : Signing ι α)
    (item : String × Nat) : Except SignError (Signing ι α) := do
  let entry ← context .invalidAuthEntry (X.entryFromXdrBase64 item.1)
  if ← needsWalletAuth X entry userAddress then
    let (found, sigsByIndex) := s.sigsByIndex.remove item.2
    let signature ← context (.missingSignature item.2) found
    let entry ← applyAddressAuthSignature entry publicKey signature expiration
    return { sigsByIndex, needsPatch := true, signedAuth := s.signedAuth ++ [entry] }
  else return { s with signedAuth := s.signedAuth ++ [entry] }

/-- The loop over the operations in `patch_auth_entries`. -/
def patchOperations (signedAuth : List (SorobanAuthorizationEntry ι α)) :
    List (Operation ι α) → Except SignError (List (Operation ι α))
  | [] => .error .noInvokeHostFunction
  | op :: ops =>
    match op.body with
    | .invokeHostFunction hostFunction _ =>
      if signedAuth.length < 2 ^ 32 then
        .ok ({ op with body := .invokeHostFunction hostFunction signedAuth } :: ops)
      else .error .attachEntries
    | .other _ => do return op :: (← patchOperations signedAuth ops)

def patchAuthEntries (envelope : TransactionEnvelope ι α) (signedAuth : List (SorobanAuthorizationEntry ι α)) :
    Except SignError (TransactionEnvelope ι α) :=
  match envelope with
  | .tx operations rest => do return .tx (← patchOperations signedAuth operations) rest
  | .other _ => .error .unsupportedEnvelope

/-- The end of `unsigned_tx_for_signing`. -/
def attachSigned (prepared : PreparedSorobanTx) (s : Signing ι α) : Except SignError String := do
  if s.sigsByIndex.isEmpty then
    if s.needsPatch then
      let envelope ← context .invalidPreparedTx (X.envelopeFromXdrBase64 prepared.txXdr)
      let envelope ← patchAuthEntries envelope s.signedAuth
      context .encodePatchedTx (X.envelopeToXdrBase64 envelope)
    else return prepared.txXdr
  else throw .unexpectedSignatures

def unsignedTxForSigning (prepared : PreparedSorobanTx) (userAddress : String)
    (authSignatures : List (Nat × Signature)) : Except SignError String := do
  let expiration := authExpirationLedger prepared
  let publicKey ← context .invalidUserAddress (X.parsePublicKey userAddress)
  let s ← prepared.authEntries.zipIdx.foldlM (signEntry X userAddress publicKey expiration)
    { sigsByIndex := collectSignatures authSignatures, needsPatch := false, signedAuth := [] }
  attachSigned X prepared s

end PrivatePayments.Stellar
