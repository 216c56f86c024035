import PrivatePayments.Disclosure.Receipt
import PrivatePayments.Library.Outcome

/-!
Verification of a disclosure receipt: the proof against the verifying key, the roots against
the pool that the receipt names, the context against the hash in the public inputs.
-/

namespace PrivatePayments.Disclosure
open Bn254 Soroban Library Library.LittleEndian

/-- The proof system: the parsers of keys and proofs, and the verifier. -/
structure Groth16 where
  VerifyingKey : Type
  PreparedVerifyingKey : Type
  Proof : Type
  deserializeVerifyingKey : List UInt8 → Option VerifyingKey
  processVk : VerifyingKey → Option PreparedVerifyingKey
  /-- The length of `gamma_abc_g1`. -/
  gammaAbcG1 : VerifyingKey → Nat
  deserializeProof : List UInt8 → Option Proof
  verifyWithProcessedVk : PreparedVerifyingKey → List Fr → Proof → Option Bool

/-- `ok_or_else`. -/
def okOr {α : Type} (x : Option α) (e : ReceiptError) : Except ReceiptError α :=
  match x with
  | some a => .ok a
  | none => .error e

def fieldSize : Nat := 32

def chunksExact (size : Nat) (bytes : List UInt8) : List (List UInt8) :=
  (List.range (bytes.length / size)).map fun i => (bytes.drop (i * size)).take size

def bytesToFr (bytes : List UInt8) : Except ReceiptError Fr := do
  refuse (bytes.length ≠ fieldSize) (.fieldSize bytes.length)
  return fromLeBytesModOrder bytes

def verifyProofWithProcessedVk (G : Groth16) (pvk : G.PreparedVerifyingKey) (expectedInputs : Nat) (proof : G.Proof)
    (publicInputsBytes : List UInt8) : Except ReceiptError Bool := do
  refuse (publicInputsBytes.length % fieldSize ≠ 0) .publicInputsSize
  let numInputs := publicInputsBytes.length / fieldSize
  refuse (numInputs ≠ expectedInputs) (.publicInputCount numInputs expectedInputs)
  let publicInputs ← (chunksExact fieldSize publicInputsBytes).mapM bytesToFr
  okOr (G.verifyWithProcessedVk pvk publicInputs proof) .verification

def verifyProof (G : Groth16) (vkBytes proofBytes publicInputsBytes : List UInt8) : Except ReceiptError Bool := do
  let vk ← okOr (G.deserializeVerifyingKey vkBytes) .loadVerifyingKey
  let pvk ← okOr (G.processVk vk) .processVerifyingKey
  let proof ← okOr (G.deserializeProof proofBytes) .loadProof
  -- `checked_sub(1)`
  refuse (G.gammaAbcG1 vk = 0) .invalidVerifyingKey
  verifyProofWithProcessedVk G pvk (G.gammaAbcG1 vk - 1) proof publicInputsBytes

def validateVerifyingKeyHash (sha256 : Sha256) (vkBytes : List UInt8) (expectedVkHash : Text) :
    Except ReceiptError Unit :=
  refuse (verifyingKeyHash sha256 vkBytes ≠ expectedVkHash.content) .verifyingKeyHashMismatch

def verifyReceiptProof (G : Groth16) (sha256 : Sha256) (receipt : DisclosureReceipt) (vkBytes : List UInt8)
    (expectedVkHash : Text) : Except ReceiptError Bool := do
  validateVerifyingKeyHash sha256 vkBytes expectedVkHash
  let circuit ← validateRegisteredReceipt receipt expectedVkHash
  let proofBytes ← receipt.proofCompressedBytes
  let publicInputs ← circuit.publicInputsBytes receipt
  verifyProof G vkBytes proofBytes publicInputs

structure PoolConfigEntry where
  poolContractId : Text
  enabled : Bool

structure ContractConfig where
  network : Text
  pools : List PoolConfigEntry

/-- The web client, and what it asks: the reader of receipts, the prover worker and the ledger. -/
structure WebClient where
  config : ContractConfig
  fromStr : String → Except String DisclosureReceipt
  pingProver : Except String Unit
  getVerifyingKey : Except String (List UInt8)
  /-- A simulated call of `is_known_root`. -/
  simulateIsKnownRoot : Text → U256 → Except String Bool

structure DisclosureVerificationReport where
  proofVerified : Bool
  contextVerified : Bool
  knownRootStatus : Bool
  deriving DecidableEq

namespace WebClient

/-- `map_err`. -/
def orElse {α : Type} (x : Except String α) (e : String → ReceiptError) : Except ReceiptError α :=
  match x with
  | .ok a => .ok a
  | .error text => .error (e text)

def enabledPoolFor (client : WebClient) (poolContractId : Text) : Except ReceiptError PoolConfigEntry :=
  okOr (client.config.pools.find? fun p => p.enabled && p.poolContractId == poolContractId)
    (.poolNotEnabled poolContractId)

def isPoolKnownRoot (client : WebClient) (poolContractId : Text) (root : Fr) : Except ReceiptError Bool := do
  let pool ← client.enabledPoolFor poolContractId
  orElse (client.simulateIsKnownRoot pool.poolContractId (toU256 root)) .simulation

/-- The loop over the roots, left at the first that is not known. -/
def knownRoots (client : WebClient) (poolContractId : Text) : List Fr → Except ReceiptError Bool
  | [] => .ok true
  | root :: rest => do
      let isKnown ← client.isPoolKnownRoot poolContractId root
      if isKnown then client.knownRoots poolContractId rest else return false

/-- The prover worker on `VerifyDisclosureProof`. -/
def verifyDisclosureProof (G : Groth16) (sha256 : Sha256) (client : WebClient) (receipt : DisclosureReceipt)
    (expectedVkHash : Text) : Except ReceiptError Bool := do
  let _ ← validateRegisteredReceipt receipt expectedVkHash
  let vkBytes ← orElse client.getVerifyingKey .prover
  verifyReceiptProof G sha256 receipt vkBytes expectedVkHash

def verifySelectiveDisclosure (G : Groth16) (sha256 : Sha256) (client : WebClient) (receiptJson : String)
    (expectedVkHash : Text) : Except ReceiptError DisclosureVerificationReport := do
  let receipt ← orElse (client.fromStr receiptJson) .invalidJson
  orElse client.pingProver .prover
  let proofVerified ← client.verifyDisclosureProof G sha256 receipt expectedVkHash
  let knownRootStatus ← client.knownRoots receipt.context.poolAddress receipt.publicInputs.roots
  let contextVerified ← verifyReceiptContext sha256 receipt
  return { proofVerified := proofVerified, contextVerified := contextVerified, knownRootStatus := knownRootStatus }

end WebClient

section Inversion

variable {G : Groth16} {sha256 : Sha256} {client : WebClient} {receipt : DisclosureReceipt} {expectedVkHash : Text}

theorem refuse_ok {c : Prop} [Decidable c] {e : ReceiptError} {u : Unit} (done : refuse c e = .ok u) : ¬c := by
  intro bad
  rw [refuse, if_pos bad] at done
  cases done

theorem okOr_ok {α : Type} {x : Option α} {e : ReceiptError} {a : α} (done : okOr x e = .ok a) : x = some a := by
  cases x with
  | some b => exact congrArg some (Except.ok.inj done)
  | none => cases done

theorem orElse_ok {α : Type} {x : Except String α} {e : String → ReceiptError} {a : α}
    (done : WebClient.orElse x e = .ok a) : x = .ok a := by
  cases x with
  | ok b => exact congrArg Except.ok (Except.ok.inj done)
  | error text => cases done

theorem chunksExact_append {size : Nat} (positive : 0 < size) {chunk : List UInt8} (length : chunk.length = size)
    (rest : List UInt8) : chunksExact size (chunk ++ rest) = chunk :: chunksExact size rest := by
  have count : (chunk ++ rest).length / size = rest.length / size + 1 := by
    rw [List.length_append, length, Nat.add_div_left _ positive]
  rw [chunksExact, count, List.range_succ_eq_map, List.map_cons, List.map_map]
  congr 1
  · rw [Nat.zero_mul, List.drop_zero, ← length, List.take_left]
  · refine List.map_congr_left fun i _ => ?_
    have skip : (i + 1) * size = chunk.length + i * size := by
      rw [length, Nat.add_mul, Nat.one_mul, Nat.add_comm]
    change ((chunk ++ rest).drop ((i + 1) * size)).take size = _
    rw [skip, List.drop_append, List.drop_eq_nil_of_le (Nat.le_add_right _ _), List.nil_append, Nat.add_sub_cancel_left]

theorem mapM_bytesToFr (xs : List Fr) : (chunksExact fieldSize (xs.flatMap fieldBytes)).mapM bytesToFr = .ok xs := by
  induction xs with
  | nil => rfl
  | cons x xs ih =>
    have length : (fieldBytes x).length = fieldSize := length_toLeBytes 32 _
    have read : bytesToFr (fieldBytes x) = .ok x := by
      rw [bytesToFr, refuse, if_neg (not_not_intro length), fromLeBytesModOrder_fieldBytes]
      rfl
    rw [List.flatMap_cons, chunksExact_append (by decide) length, List.mapM_cons, read, ih]
    rfl

theorem verifyProof_ok {vkBytes proofBytes : List UInt8} {inputs : List Fr}
    (done : verifyProof G vkBytes proofBytes (inputs.flatMap fieldBytes) = .ok true) :
    ∃ vk pvk proof, G.deserializeVerifyingKey vkBytes = some vk ∧ G.processVk vk = some pvk ∧
      G.deserializeProof proofBytes = some proof ∧ G.verifyWithProcessedVk pvk inputs proof = some true := by
  obtain ⟨vk, loaded, done⟩ := of_bind_ok done
  obtain ⟨pvk, processed, done⟩ := of_bind_ok done
  obtain ⟨proof, read, done⟩ := of_bind_ok done
  obtain ⟨_, _, done⟩ := of_bind_ok done
  obtain ⟨_, _, done⟩ := of_bind_ok done
  obtain ⟨_, _, done⟩ := of_bind_ok done
  rw [mapM_bytesToFr] at done
  exact ⟨vk, pvk, proof, okOr_ok loaded, okOr_ok processed, okOr_ok read, okOr_ok done⟩

theorem validateRegisteredReceipt_ok {circuit : RegisteredCircuit}
    (done : validateRegisteredReceipt receipt expectedVkHash = .ok circuit) :
    circuit = selectiveDisclosure1 ∧ receipt.publicInputs.roots.length = 1 ∧
      receipt.publicInputs.noteCommitments.length = 1 := by
  unfold validateRegisteredReceipt findCircuit at done
  split at done
  next => cases done
  next found registered =>
    split at registered
    next =>
      cases Option.some.inj registered
      obtain ⟨_, valid, done⟩ := of_bind_ok done
      obtain ⟨_, fields, valid⟩ := of_bind_ok valid
      obtain ⟨_, _, valid⟩ := of_bind_ok valid
      have metadata := not_not.mp (refuse_ok valid)
      have one : receipt.circuit.nNotes = 1 := congrArg DisclosureCircuitMetadata.nNotes metadata
      obtain ⟨_, _, fields⟩ := of_bind_ok fields
      obtain ⟨_, _, fields⟩ := of_bind_ok fields
      obtain ⟨_, _, fields⟩ := of_bind_ok fields
      obtain ⟨_, inputs, _⟩ := of_bind_ok fields
      obtain ⟨_, roots, commitments⟩ := of_bind_ok inputs
      exact ⟨(Except.ok.inj done).symm, (not_not.mp (refuse_ok roots)).trans one,
        (not_not.mp (refuse_ok commitments)).trans one⟩
    next => cases registered

def DisclosurePublicInputs.elements (inputs : DisclosurePublicInputs) : List Fr :=
  inputs.roots ++ inputs.noteCommitments ++ [inputs.extContextHash]

theorem publicInputsBytes_selectiveDisclosure1 (receipt : DisclosureReceipt) :
    selectiveDisclosure1.publicInputsBytes receipt = .ok (receipt.publicInputs.elements.flatMap fieldBytes) := by
  have flat : [receipt.publicInputs.roots.flatMap fieldBytes, receipt.publicInputs.noteCommitments.flatMap fieldBytes,
      fieldBytes receipt.publicInputs.extContextHash].flatten = receipt.publicInputs.elements.flatMap fieldBytes := by
    simp [DisclosurePublicInputs.elements]
  rw [← flat]
  rfl

/-- The proof of an accepted receipt is over its public inputs, under a key with the expected hash. -/
theorem verifyDisclosureProof_ok (done : client.verifyDisclosureProof G sha256 receipt expectedVkHash = .ok true) :
    validateRegisteredReceipt receipt expectedVkHash = .ok selectiveDisclosure1 ∧
      ∃ vkBytes proofBytes, client.getVerifyingKey = .ok vkBytes ∧
        verifyingKeyHash sha256 vkBytes = expectedVkHash.content ∧
        receipt.proofCompressedBytes = .ok proofBytes ∧
        verifyProof G vkBytes proofBytes (receipt.publicInputs.elements.flatMap fieldBytes) = .ok true := by
  obtain ⟨circuit, registered, done⟩ := of_bind_ok done
  obtain ⟨vkBytes, key, done⟩ := of_bind_ok done
  obtain ⟨_, hashed, done⟩ := of_bind_ok done
  obtain ⟨again, same, done⟩ := of_bind_ok done
  obtain ⟨proofBytes, proof, done⟩ := of_bind_ok done
  obtain ⟨inputs, serialized, done⟩ := of_bind_ok done
  obtain ⟨rfl, -⟩ := validateRegisteredReceipt_ok registered
  obtain ⟨rfl, -⟩ := validateRegisteredReceipt_ok same
  rw [publicInputsBytes_selectiveDisclosure1] at serialized
  cases Except.ok.inj serialized
  exact ⟨registered, vkBytes, proofBytes, orElse_ok key, not_not.mp (refuse_ok hashed), proof, done⟩

theorem knownRoots_ok {pool : Text} {roots : List Fr} (done : client.knownRoots pool roots = .ok true) :
    ∀ root ∈ roots, client.isPoolKnownRoot pool root = .ok true := by
  induction roots with
  | nil => exact fun root none => absurd none List.not_mem_nil
  | cons first rest ih =>
    obtain ⟨known, asked, done⟩ := of_bind_ok done
    cases known with
    | true => exact List.forall_mem_cons.mpr ⟨asked, ih done⟩
    | false => cases done

theorem isPoolKnownRoot_ok {pool : Text} {root : Fr} {b : Bool} (done : client.isPoolKnownRoot pool root = .ok b) :
    (∃ entry ∈ client.config.pools, entry.enabled = true ∧ entry.poolContractId = pool) ∧
      client.simulateIsKnownRoot pool (toU256 root) = .ok b := by
  obtain ⟨entry, enabled, done⟩ := of_bind_ok done
  have found := okOr_ok enabled
  have fits := List.find?_some found
  rw [Bool.and_eq_true, beq_iff_eq] at fits
  rw [fits.2] at done
  exact ⟨⟨entry, List.mem_of_find?_eq_some found, fits⟩, orElse_ok done⟩

theorem verifyReceiptContext_ok (done : verifyReceiptContext sha256 receipt = .ok true) :
    deriveExtContextHash sha256 receipt.context = .ok receipt.publicInputs.extContextHash := by
  obtain ⟨expected, derived, done⟩ := of_bind_ok done
  rw [derived, of_decide_eq_true (Except.ok.inj done)]

theorem deriveExtContextHash_ok {context : DisclosureContext} {hash : Fr}
    (done : deriveExtContextHash sha256 context = .ok hash) :
    hash = fromLeBytesModOrder (sha256 (contextBytes context)) := by
  obtain ⟨_, _, done⟩ := of_bind_ok done
  exact (Except.ok.inj done).symm

theorem verifySelectiveDisclosure_ok {receiptJson : String} {report : DisclosureVerificationReport}
    (parsed : client.fromStr receiptJson = .ok receipt)
    (done : client.verifySelectiveDisclosure G sha256 receiptJson expectedVkHash = .ok report) :
    client.verifyDisclosureProof G sha256 receipt expectedVkHash = .ok report.proofVerified ∧
      client.knownRoots receipt.context.poolAddress receipt.publicInputs.roots = .ok report.knownRootStatus ∧
      verifyReceiptContext sha256 receipt = .ok report.contextVerified := by
  obtain ⟨read, same, done⟩ := of_bind_ok done
  cases Except.ok.inj ((orElse_ok same).symm.trans parsed)
  obtain ⟨_, _, done⟩ := of_bind_ok done
  obtain ⟨proofVerified, proof, done⟩ := of_bind_ok done
  obtain ⟨knownRootStatus, known, done⟩ := of_bind_ok done
  obtain ⟨contextVerified, context, done⟩ := of_bind_ok done
  rw [← Except.ok.inj done]
  exact ⟨proof, known, context⟩

theorem verifyReceiptContext_iff : verifyReceiptContext sha256 receipt = .ok true ↔
    deriveExtContextHash sha256 receipt.context = .ok receipt.publicInputs.extContextHash := by
  constructor
  · exact verifyReceiptContext_ok
  · intro derived
    unfold verifyReceiptContext
    rw [derived]
    exact congrArg Except.ok (decide_eq_true rfl)

end Inversion

end PrivatePayments.Disclosure
