import PrivatePayments.Bn254
import PrivatePayments.Library.LittleEndian
import PrivatePayments.Soroban.Xdr

/-!
Disclosure receipts: their fields, the checks on them that ask nobody, the hash of the
context and the public inputs as bytes.
-/

namespace PrivatePayments.Disclosure
open Bn254 Soroban Library Library.LittleEndian

/-- A string of the program: its length in bytes is a `usize`, of 64 bits at most. -/
structure Text where
  content : String
  bounded : content.utf8ByteSize < 2 ^ 64
  deriving DecidableEq

def Text.bytes (t : Text) : List UInt8 := t.content.toByteArray.data.toList

theorem Text.length_bytes (t : Text) : t.bytes.length = t.content.utf8ByteSize := rfl

theorem Text.bytes_injective : Function.Injective Text.bytes := by
  intro s t same
  have arrays : s.content.toByteArray = t.content.toByteArray := ByteArray.ext (Array.ext' same)
  cases s
  cases t
  rw [Text.mk.injEq]
  exact String.toByteArray_inj.mp arrays

structure DisclosureContext where
  network : Text
  poolAddress : Text
  authorityLabel : Text
  authorityIdentityPayloadHex : Text
  purpose : Text
  contextNonce : Fr
  deriving DecidableEq

structure DisclosureCircuitMetadata where
  name : Text
  levels : Nat
  nNotes : Nat
  vkHash : Text
  deriving DecidableEq

structure DisclosurePublicInputs where
  roots : List Fr
  noteCommitments : List Fr
  extContextHash : Fr
  deriving DecidableEq

structure DisclosureReceipt where
  version : Nat
  circuit : DisclosureCircuitMetadata
  context : DisclosureContext
  publicInputs : DisclosurePublicInputs
  proofCompressedHex : Text
  issuedAt : Text
  deriving DecidableEq

/-- What `parse_0x_hex` and `parse_0x_hex_exact` refuse. -/
inductive HexError where
  | expectedPrefix
  | emptyPayload
  | oddLength
  | expectedLowercase
  | invalidHex
  | expectedBytes (expected got : Nat)
  deriving DecidableEq

inductive ReceiptError where
  | invalidJson (text : String)
  | hex (name : String) (e : HexError)
  | unsupportedVersion
  | emptyCircuitName
  | zeroLevels
  | zeroNotes
  | emptyNetwork
  | emptyPoolAddress
  | emptyAuthorityLabel
  | emptyPurpose
  | rootsLength
  | noteCommitmentsLength
  | emptyIssuedAt
  | unknownCircuit (name : Text)
  | metadataMismatch
  | capacityOverflow
  | unknownPublicInput (name : String)
  | verifyingKeyHashMismatch
  | prover (text : String)
  | loadVerifyingKey
  | processVerifyingKey
  | loadProof
  | invalidVerifyingKey
  | publicInputsSize
  | publicInputCount (got expected : Nat)
  | fieldSize (got : Nat)
  | verification
  | poolNotEnabled (pool : Text)
  | simulation (text : String)
  deriving DecidableEq

/-- One digit in the alphabet of `hex::decode`, which takes both cases. -/
def hexDigit (b : UInt8) : Option UInt8 :=
  if 48 ≤ b ∧ b ≤ 57 then some (b - 48)
  else if 97 ≤ b ∧ b ≤ 102 then some (b - 87)
  else if 65 ≤ b ∧ b ≤ 70 then some (b - 55)
  else none

def hexDecode : List UInt8 → Option (List UInt8)
  | [] => some []
  | [_] => none
  | high :: low :: rest => do
      let high ← hexDigit high
      let low ← hexDigit low
      return (16 * high + low) :: (← hexDecode rest)

def isAsciiUppercase (b : UInt8) : Bool := 65 ≤ b ∧ b ≤ 90

def parse0xHex (name : String) (value : Text) : Except ReceiptError (List UInt8) :=
  match value.bytes.dropPrefix? [48, 120] with
  | none => .error (.hex name .expectedPrefix)
  | some hexValue =>
      if hexValue.isEmpty then .error (.hex name .emptyPayload)
      else if hexValue.length % 2 ≠ 0 then .error (.hex name .oddLength)
      else if hexValue.any isAsciiUppercase then .error (.hex name .expectedLowercase)
      else
        match hexDecode hexValue with
        | some bytes => .ok bytes
        | none => .error (.hex name .invalidHex)

def parse0xHexExact (name : String) (value : Text) (expectedBytes : Nat) : Except ReceiptError (List UInt8) := do
  let bytes ← parse0xHex name value
  if bytes.length ≠ expectedBytes then .error (.hex name (.expectedBytes expectedBytes bytes.length)) else return bytes

/-- `if c { return Err(e); }`. -/
def refuse (c : Prop) [Decidable c] (e : ReceiptError) : Except ReceiptError Unit := if c then .error e else .ok ()

def DisclosureContext.validate (context : DisclosureContext) : Except ReceiptError Unit := do
  refuse (context.network.content = "") .emptyNetwork
  refuse (context.poolAddress.content = "") .emptyPoolAddress
  refuse (context.authorityLabel.content = "") .emptyAuthorityLabel
  let _ ← parse0xHex "authority_identity_payload_hex" context.authorityIdentityPayloadHex
  refuse (context.purpose.content = "") .emptyPurpose

def DisclosureCircuitMetadata.validate (circuit : DisclosureCircuitMetadata) : Except ReceiptError Unit := do
  refuse (circuit.name.content = "") .emptyCircuitName
  refuse (circuit.levels = 0) .zeroLevels
  refuse (circuit.nNotes = 0) .zeroNotes
  let _ ← parse0xHexExact "vk_hash" circuit.vkHash 32

def DisclosurePublicInputs.validate (inputs : DisclosurePublicInputs) (nNotes : Nat) : Except ReceiptError Unit := do
  refuse (inputs.roots.length ≠ nNotes) .rootsLength
  refuse (inputs.noteCommitments.length ≠ nNotes) .noteCommitmentsLength

def disclosureReceiptVersion : Nat := 1

def compressedGroth16ProofBytes : Nat := 128

def DisclosureReceipt.proofCompressedBytes (receipt : DisclosureReceipt) : Except ReceiptError (List UInt8) :=
  parse0xHexExact "proof_compressed_hex" receipt.proofCompressedHex compressedGroth16ProofBytes

def DisclosureReceipt.validate (receipt : DisclosureReceipt) : Except ReceiptError Unit := do
  refuse (receipt.version ≠ disclosureReceiptVersion) .unsupportedVersion
  receipt.circuit.validate
  receipt.context.validate
  receipt.publicInputs.validate receipt.circuit.nNotes
  let _ ← receipt.proofCompressedBytes
  refuse (receipt.issuedAt.content = "") .emptyIssuedAt

/-- A registered circuit; its artifacts are files, which nothing here reads. -/
structure RegisteredCircuit where
  name : Text
  levels : Nat
  nNotes : Nat
  publicInputsOrder : List String

def selectiveDisclosure1Circuit : Text := ⟨"selectiveDisclosure_1", by decide +kernel⟩

def selectiveDisclosure1 : RegisteredCircuit where
  name := selectiveDisclosure1Circuit
  levels := 10
  nNotes := 1
  publicInputsOrder := ["roots", "noteCommitments", "extContextHash"]

def findCircuit (name : Text) : Option RegisteredCircuit :=
  if name = selectiveDisclosure1Circuit then some selectiveDisclosure1 else none

namespace RegisteredCircuit

def receiptMetadata (circuit : RegisteredCircuit) (vkHash : Text) : DisclosureCircuitMetadata where
  name := circuit.name
  levels := circuit.levels
  nNotes := circuit.nNotes
  vkHash := vkHash

def validateReceipt (circuit : RegisteredCircuit) (receipt : DisclosureReceipt) (expectedVkHash : Text) :
    Except ReceiptError Unit := do
  receipt.validate
  (circuit.receiptMetadata expectedVkHash).validate
  refuse (receipt.circuit ≠ circuit.receiptMetadata expectedVkHash) .metadataMismatch

end RegisteredCircuit

def validateRegisteredReceipt (receipt : DisclosureReceipt) (expectedVkHash : Text) :
    Except ReceiptError RegisteredCircuit :=
  match findCircuit receipt.circuit.name with
  | none => .error (.unknownCircuit receipt.circuit.name)
  | some circuit => do
      circuit.validateReceipt receipt expectedVkHash
      return circuit

def fromLeBytesModOrder (bytes : List UInt8) : Fr := (fromLeBytes bytes : Fr)

def fieldBytes (x : Fr) : List UInt8 := toLeBytes 32 x.val

namespace RegisteredCircuit

def publicInput (receipt : DisclosureReceipt) : String → Except ReceiptError (List UInt8)
  | "roots" => .ok (receipt.publicInputs.roots.flatMap fieldBytes)
  | "noteCommitments" => .ok (receipt.publicInputs.noteCommitments.flatMap fieldBytes)
  | "extContextHash" => .ok (fieldBytes receipt.publicInputs.extContextHash)
  | other => .error (.unknownPublicInput other)

def publicInputsBytes (circuit : RegisteredCircuit) (receipt : DisclosureReceipt) :
    Except ReceiptError (List UInt8) := do
  refuse (2 ^ 32 ≤ (2 * circuit.nNotes + 1) * 32) .capacityOverflow
  return (← circuit.publicInputsOrder.mapM (publicInput receipt)).flatten

end RegisteredCircuit

/-- The bytes of `b"disclosure-context-v1"`. -/
def contextHashDomain : List UInt8 := "disclosure-context-v1".toByteArray.data.toList

/-- A string after its length in eight bytes. -/
def feedStr (s : Text) : List UInt8 := toLeBytes 8 s.bytes.length ++ s.bytes

def contextBytes (context : DisclosureContext) : List UInt8 :=
  contextHashDomain ++ (feedStr context.network ++ (feedStr context.poolAddress ++ (feedStr context.authorityLabel ++
    (feedStr context.authorityIdentityPayloadHex ++ (feedStr context.purpose ++ fieldBytes context.contextNonce)))))

/-- `Sha256::digest`. -/
abbrev Sha256 := List UInt8 → List UInt8

def deriveExtContextHash (sha256 : Sha256) (context : DisclosureContext) : Except ReceiptError Fr := do
  context.validate
  return fromLeBytesModOrder (sha256 (contextBytes context))

def verifyReceiptContext (sha256 : Sha256) (receipt : DisclosureReceipt) : Except ReceiptError Bool := do
  let expected ← deriveExtContextHash sha256 receipt.context
  return decide (expected = receipt.publicInputs.extContextHash)

/-- One byte in the alphabet of `hex::encode`. -/
def hexPair (b : UInt8) : List Char :=
  let digit (n : Nat) : Char := Char.ofNat (if n < 10 then 48 + n else 87 + n)
  [digit (b.toNat / 16), digit (b.toNat % 16)]

def verifyingKeyHash (sha256 : Sha256) (vkBytes : List UInt8) : String :=
  String.ofList ('0' :: 'x' :: (sha256 vkBytes).flatMap hexPair)

section Encoding

theorem fromLeBytesModOrder_fieldBytes (x : Fr) : fromLeBytesModOrder (fieldBytes x) = x := by
  have small := ZMod.val_lt x
  have bound := bn256Modulus_lt
  rw [fromLeBytesModOrder, fieldBytes, fromLeBytes_toLeBytes (by omega), ZMod.natCast_zmod_val]

theorem separates_fieldBytes : Separates (fun _ => True) fieldBytes := by
  refine Separates.of_length (n := 32) (fun x _ => length_toLeBytes 32 _) fun x y _ _ same => ?_
  rw [← fromLeBytesModOrder_fieldBytes x, same, fromLeBytesModOrder_fieldBytes]

theorem separates_feedStr : Separates (fun _ => True) feedStr := by
  intro s t rest rest' _ _ same
  have fits (u : Text) : u.bytes.length < 256 ^ 8 := by
    have bounded := u.bounded
    rw [u.length_bytes]
    omega
  rw [feedStr, feedStr, List.append_assoc, List.append_assoc] at same
  obtain ⟨lengths, tail⟩ := List.append_inj same (by rw [length_toLeBytes, length_toLeBytes])
  have length := congrArg fromLeBytes lengths
  rw [fromLeBytes_toLeBytes (fits s), fromLeBytes_toLeBytes (fits t)] at length
  obtain ⟨bytes, rests⟩ := List.append_inj tail length
  exact ⟨Text.bytes_injective bytes, rests⟩

def DisclosureContext.fields (c : DisclosureContext) : Text × Text × Text × Text × Text × Fr :=
  (c.network, c.poolAddress, c.authorityLabel, c.authorityIdentityPayloadHex, c.purpose, c.contextNonce)

theorem contextBytes_injective : Function.Injective contextBytes := by
  intro c c' same
  have text := separates_feedStr
  have all := (text.seq (text.seq (text.seq (text.seq (text.seq separates_fieldBytes))))).after contextHashDomain
  have fields : c.fields = c'.fields := all.eq_of_encode c.fields c'.fields
    ⟨trivial, trivial, trivial, trivial, trivial, trivial⟩ ⟨trivial, trivial, trivial, trivial, trivial, trivial⟩ same
  cases c
  cases c'
  simpa [DisclosureContext.fields] using fields

theorem separates_hexPair : Separates (fun _ => True) hexPair := by
  refine Separates.of_length (n := 2) (fun _ _ => rfl) fun a b _ _ same => ?_
  have digits : ∀ m < 16, ∀ n < 16, Char.ofNat (if m < 10 then 48 + m else 87 + m) =
      Char.ofNat (if n < 10 then 48 + n else 87 + n) → m = n := by decide
  have smallA := a.toNat_lt
  have smallB := b.toNat_lt
  rw [hexPair, hexPair, List.cons.injEq, List.cons.injEq] at same
  have high := digits (a.toNat / 16) (by omega) (b.toNat / 16) (by omega) same.1
  have low := digits (a.toNat % 16) (by omega) (b.toNat % 16) (by omega) same.2.1
  exact UInt8.toNat_inj.mp (by omega)

theorem verifyingKeyHash_eq {sha256 : Sha256} {vk vk' : List UInt8}
    (same : verifyingKeyHash sha256 vk = verifyingKeyHash sha256 vk') : sha256 vk = sha256 vk' := by
  have chars := String.ofList_injective same
  rw [List.cons.injEq, List.cons.injEq] at chars
  exact separates_hexPair.flatMap_injective (fun _ => List.cons_ne_nil _ _) chars.2.2

end Encoding

end PrivatePayments.Disclosure
