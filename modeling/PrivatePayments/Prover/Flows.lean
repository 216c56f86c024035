import PrivatePayments.Client.ExtDataHash
import PrivatePayments.Client.NonMembershipProof
import PrivatePayments.LocalState.NoteDecryption
import PrivatePayments.Planner.Combination
import PrivatePayments.Prover.CircuitInputs

/-!
The builder of transactions: it checks the amounts and the shapes of the proofs, fills up the
slots with dummies, derives nullifiers and commitments, encrypts the outputs and names the
inputs of the circuit. Deposit, withdrawal and transfer are its three uses.
-/

namespace PrivatePayments.Prover
open Bn254 Poseidon2 Client LocalState Planner Library.LittleEndian

structure Key where
  bytes : Bytes
  length : bytes.length = 32
  deriving DecidableEq

def nInputs : Nat := 2

def nOutputs : Nat := 2

structure TransactInputNote where
  amount : NoteAmount
  blinding : Fr
  merklePathElements : List Fr
  merklePathIndices : Fr
  deriving DecidableEq

/-- An output; without the keys of a recipient it goes to the sender. -/
structure TransactOutput where
  amount : NoteAmount
  blinding : Fr
  recipientNotePubkey : Option Key
  recipientEncryptionPubkey : Option Key
  deriving DecidableEq

structure PreparedTx where
  poolRoot : Fr
  inputNullifiers : List Fr
  outputCommitments : List Fr
  publicAmountField : Fr
  extDataHashBe : Bytes
  aspMembershipRoot : Fr
  aspNonMembershipRoot : Fr

structure TransactArtifacts where
  circuitInputs : CircuitInputs
  extData : Client.ExtData
  prepared : PreparedTx

structure AspMembershipProof where
  leaf : Fr
  blinding : Fr
  pathElements : List Fr
  pathIndices : Fr
  root : Fr
  deriving DecidableEq

structure TransactParams where
  privKey : Key
  encryptionPubkey : Key
  poolRoot : Fr
  extRecipient : String
  extAmount : ExtAmount
  inputs : List TransactInputNote
  outputs : List TransactOutput
  membershipProof : AspMembershipProof
  nonMembershipProof : AspNonMembershipProof
  treeDepth : Nat
  smtDepth : Nat
  deriving DecidableEq

/-- What the builder draws: a blinding for the dummy in each slot, for the notes of a withdrawal, and the
choices of the encryption of each output. -/
structure Draws where
  inputBlinding : Nat → Fr
  outputBlinding : Nat → Fr
  changeBlinding : Nat → Fr
  encryption : Nat → Randomness

/-- `if c { return Err(anyhow!(text)); }`. -/
def refuse (c : Prop) [Decidable c] (text : String) : Except String Unit := if c then .error text else .ok ()

/-- `ok_or_else`. -/
def okOr {α : Type} (x : Option α) (text : String) : Except String α :=
  match x with
  | some a => .ok a
  | none => .error text

/-- `NoteAmount::try_from` of an external amount. -/
def noteAmountOfExt (value : ExtAmount) : Except String NoteAmount :=
  let number := value.toInt
  if number < 0 then .error s!"NoteAmount out of range: {number}" else .ok value

def checkedNeg (value : ExtAmount) : Option ExtAmount := if value = BitVec.intMin 128 then none else some (-value)

/-- The loops of `sum_note_amounts_inputs` and `sum_note_amounts_outputs`. -/
def sumNoteAmounts (text : String) : NoteAmount → List NoteAmount → Except String NoteAmount
  | sum, [] => .ok sum
  | sum, amount :: rest => do sumNoteAmounts text (← okOr (Planner.checkedAdd sum amount) text) rest

def sumNoteAmountsInputs (inputs : List TransactInputNote) : Except String NoteAmount :=
  sumNoteAmounts "overflow summing input amounts" 0 (inputs.map (·.amount))

def sumNoteAmountsOutputs (outputs : List TransactOutput) : Except String NoteAmount :=
  sumNoteAmounts "overflow summing output amounts" 0 (outputs.map (·.amount))

def balanced (inputsSum outputsSum : NoteAmount) (extAmount : ExtAmount) : Except String Bool := do
  if 0 ≤ extAmount.toInt then
    let publicNote ← noteAmountOfExt extAmount
    let lhs ← okOr (Planner.checkedAdd inputsSum publicNote) "overflow computing note amount LHS"
    return decide (lhs = outputsSum)
  else
    let negated ← okOr (checkedNeg extAmount) "public amount negation overflow"
    let publicNote ← noteAmountOfExt negated
    let rhs ← okOr (Planner.checkedAdd outputsSum publicNote) "overflow computing note amount RHS"
    return decide (inputsSum = rhs)

def checkBalance (inputs : List TransactInputNote) (outputs : List TransactOutput) (extAmount : ExtAmount) :
    Except String Unit := do
  let inputsSum ← sumNoteAmountsInputs inputs
  let outputsSum ← sumNoteAmountsOutputs outputs
  let held ← balanced inputsSum outputsSum extAmount
  let ins := inputsSum.toNat
  let outs := outputsSum.toNat
  let ext := extAmount.toInt
  refuse (held = false) s!"not balanced: inputs({ins}) + public({ext}) != outputs({outs})"

def dummyInput (D : Draws) (treeDepth slot : Nat) : TransactInputNote where
  amount := 0
  blinding := D.inputBlinding slot
  merklePathElements := List.replicate treeDepth 0
  merklePathIndices := 0

def padInputs (D : Draws) (treeDepth : Nat) (inputs : List TransactInputNote) : List TransactInputNote :=
  inputs ++ (List.range' inputs.length (nInputs - inputs.length)).map (dummyInput D treeDepth)

def dummyOutput (D : Draws) (slot : Nat) : TransactOutput where
  amount := 0
  blinding := D.outputBlinding slot
  recipientNotePubkey := none
  recipientEncryptionPubkey := none

def padOutputs (D : Draws) (outputs : List TransactOutput) : List TransactOutput :=
  outputs ++ (List.range' outputs.length (nOutputs - outputs.length)).map (dummyOutput D)

def checkInputShapes (treeDepth : Nat) : Nat → List TransactInputNote → Except String Unit
  | _, [] => .ok ()
  | slot, inp :: rest => do
      let got := inp.merklePathElements.length
      refuse (got ≠ treeDepth)
        s!"input[{slot}].merkle_path_elements length mismatch: expected {treeDepth}, got {got}"
      checkInputShapes treeDepth (slot + 1) rest

/-- A recipient has both keys or none. -/
def checkRecipients : Nat → List TransactOutput → Except String Unit
  | _, [] => .ok ()
  | slot, out :: rest => do
      refuse (out.recipientNotePubkey.isSome ≠ out.recipientEncryptionPubkey.isSome)
        s!"output[{slot}]: recipient_note_pubkey and recipient_encryption_pubkey must be both set or both unset"
      checkRecipients (slot + 1) rest

def derivePublicKey (H : Hasher) (privateKey : Bytes) : Except String Bytes := do
  return scalarToBytes (H.hash2 (← bytesToScalar privateKey) 0 3)

/-- A function of three scalars on their bytes. -/
def onBytes (f : Fr → Fr → Fr → Fr) (a b c : Bytes) : Except String Bytes := do
  return scalarToBytes (f (← bytesToScalar a) (← bytesToScalar b) (← bytesToScalar c))

/-- `try_into` of a vector, then `Field::try_from_le_bytes`. -/
def fieldOfBytes (what : String) (bytes : Bytes) : Except String Fr :=
  let got := bytes.length
  if got ≠ 32 then .error s!"{what}: expected 32 bytes, got {got}"
  else if bn256Modulus ≤ fromLeBytes bytes then .error "field element out of range"
  else .ok (fromLeBytes bytes : Fr)

def fieldToLeBytes (field : Fr) : Bytes := toLeBytes 32 field.val

def noteAmountToField (amount : NoteAmount) : Fr := (amount.toNat : Fr)

structure InputSlot where
  nullifier : Fr
  nullifierHex : String
  amountHex : String
  privHex : String
  blindingHex : String
  pathIndicesHex : String
  pathElementsHex : List String

def inputSlot (H : Hasher) (privKey senderNotePubkey : Bytes) (privKeyHex : String) (inp : TransactInputNote) :
    Except String InputSlot := do
  let amountField := noteAmountToField inp.amount
  let path := fieldToLeBytes inp.merklePathIndices
  let commitment ← onBytes (computeCommitment H) (fieldToLeBytes amountField) senderNotePubkey
    (fieldToLeBytes inp.blinding)
  let signature ← onBytes (computeSignature H) privKey commitment path
  let nullifier ← onBytes (computeNullifier H) commitment path signature
  let nullifierField ← fieldOfBytes "nullifier" nullifier
  return { nullifier := nullifierField
           nullifierHex := ← fieldToCircuitHex nullifierField
           amountHex := ← fieldToCircuitHex amountField
           privHex := privKeyHex
           blindingHex := ← fieldBytesToHex (fieldToLeBytes inp.blinding)
           pathIndicesHex := ← fieldToCircuitHex inp.merklePathIndices
           pathElementsHex := ← inp.merklePathElements.mapM fieldToCircuitHex }

structure OutputSlot where
  commitment : Fr
  encrypted : Bytes
  amountHex : String
  pubkeyHex : String
  blindingHex : String
  commitmentHex : String

def outputSlot (H : Hasher) (X : Cipher) (D : Draws) (senderNotePubkey : Bytes) (encryptionPubkey : Key)
    (out : TransactOutput) (slot : Nat) : Except String OutputSlot := do
  let recipientNotePubkey := (out.recipientNotePubkey.map Key.bytes).getD senderNotePubkey
  let recipientEncPubkey := out.recipientEncryptionPubkey.getD encryptionPubkey
  let amountField := noteAmountToField out.amount
  let commitment ← onBytes (computeCommitment H) (fieldToLeBytes amountField) recipientNotePubkey
    (fieldToLeBytes out.blinding)
  let commitmentField ← fieldOfBytes "commitment" commitment
  return { commitment := commitmentField
           encrypted := encryptOutputNote X recipientEncPubkey.bytes (D.encryption slot) out.amount out.blinding
           amountHex := ← fieldToCircuitHex amountField
           pubkeyHex := ← fieldBytesToHex recipientNotePubkey
           blindingHex := ← fieldBytesToHex (fieldToLeBytes out.blinding)
           commitmentHex := ← fieldToCircuitHex commitmentField }

def membershipCalls (proof : AspMembershipProof) (slot : Nat) : Except String (List (String × InputValue)) := do
  let prefixM := s!"membershipProofs[{slot}][0]."
  return [(prefixM ++ "leaf", .single (← fieldToCircuitHex proof.leaf)),
    (prefixM ++ "blinding", .single (← fieldToCircuitHex proof.blinding)),
    (prefixM ++ "pathIndices", .single (← fieldToCircuitHex proof.pathIndices)),
    (prefixM ++ "pathElements", .array (← proof.pathElements.mapM fieldToCircuitHex)),
    (prefixM ++ "root", .single (← fieldToCircuitHex proof.root))]

def nonMembershipCalls (proof : AspNonMembershipProof) (slot : Nat) : Except String (List (String × InputValue)) := do
  let prefixN := s!"nonMembershipProofs[{slot}][0]."
  return [(prefixN ++ "key", .single (← fieldToCircuitHex proof.key)),
    (prefixN ++ "oldKey", .single (← fieldToCircuitHex proof.oldKey)),
    (prefixN ++ "oldValue", .single (← fieldToCircuitHex proof.oldValue)),
    (prefixN ++ "isOld0", .single (← fieldToCircuitHex (if proof.isOld0 then noteAmountToField 1 else 0))),
    (prefixN ++ "siblings", .array (← proof.siblings.mapM fieldToCircuitHex)),
    (prefixN ++ "root", .single (← fieldToCircuitHex proof.root))]

/-- The loop that sets the policy proofs, which are the same for both slots. -/
def policyCalls (p : AspMembershipProof) (q : AspNonMembershipProof) : Except String (List (String × InputValue)) := do
  return (← membershipCalls p 0) ++ (← nonMembershipCalls q 0) ++ (← membershipCalls p 1) ++ (← nonMembershipCalls q 1)

def circuitCalls (rootHex publicAmountHex membershipRootHex nonMembershipRootHex : String) (ins : List InputSlot)
    (outs : List OutputSlot) (policy : List (String × InputValue)) (extDataHashBe : Bytes) :
    List (String × InputValue) :=
  [("root", .single rootHex), ("publicAmount", .single publicAmountHex),
    ("inputNullifier", .array (ins.map (·.nullifierHex))),
    ("outputCommitment", .array (outs.map (·.commitmentHex))),
    ("inAmount", .array (ins.map (·.amountHex))),
    ("inPrivateKey", .array (ins.map (·.privHex))),
    ("inBlinding", .array (ins.map (·.blindingHex))),
    ("inPathIndices", .array (ins.map (·.pathIndicesHex))),
    ("inPathElements", .array (ins.flatMap (·.pathElementsHex))),
    ("outAmount", .array (outs.map (·.amountHex))),
    ("outPubkey", .array (outs.map (·.pubkeyHex))),
    ("outBlinding", .array (outs.map (·.blindingHex))),
    ("membershipRoots", .array [membershipRootHex, membershipRootHex]),
    ("nonMembershipRoots", .array [nonMembershipRootHex, nonMembershipRootHex])] ++
  policy ++ [("extDataHash", .single (be32To0xHex extDataHashBe))]

def transact (H : Hasher) (X : Cipher) (D : Draws) (hashExtData : Client.ExtData → Except String Bytes)
    (p : TransactParams) : Except String TransactArtifacts := do
  refuse (p.treeDepth = 0) "tree_depth must be > 0"
  refuse (p.smtDepth = 0) "smt_depth must be > 0"
  let treeDepth := p.treeDepth
  let smtDepth := p.smtDepth
  let membershipLength := p.membershipProof.pathElements.length
  refuse (membershipLength ≠ treeDepth)
    s!"membership_proof.path_elements length mismatch: expected {treeDepth}, got {membershipLength}"
  let siblingsLength := p.nonMembershipProof.siblings.length
  refuse (siblingsLength ≠ smtDepth)
    s!"non_membership_proof.siblings length mismatch: expected {smtDepth}, got {siblingsLength}"
  let outputsLength := p.outputs.length
  refuse (nOutputs < outputsLength) s!"too many outputs: expected at most {nOutputs}, got {outputsLength}"
  checkBalance p.inputs p.outputs p.extAmount
  let senderNotePubkey ← derivePublicKey H p.privKey.bytes
  let inputsLength := p.inputs.length
  refuse (nInputs < inputsLength) s!"too many inputs: expected at most {nInputs}, got {inputsLength}"
  let inputSlots := padInputs D treeDepth p.inputs
  checkInputShapes treeDepth 0 inputSlots
  let outputSlots := padOutputs D p.outputs
  checkRecipients 0 outputSlots
  let rootHex ← fieldToCircuitHex p.poolRoot
  let publicAmountField := ofU256 (← fieldOfExtAmount p.extAmount)
  let publicAmountHex ← fieldToCircuitHex publicAmountField
  let privKeyHex ← fieldBytesToHex p.privKey.bytes
  let ins ← inputSlots.mapM (inputSlot H p.privKey.bytes senderNotePubkey privKeyHex)
  let outs ← outputSlots.zipIdx.mapM fun out => outputSlot H X D senderNotePubkey p.encryptionPubkey out.1 out.2
  let membershipRootHex ← fieldToCircuitHex p.membershipProof.root
  let nonMembershipRootHex ← fieldToCircuitHex p.nonMembershipProof.root
  let policy ← policyCalls p.membershipProof p.nonMembershipProof
  let encrypted := outs.map (·.encrypted)
  let extData : Client.ExtData :=
    { recipient := p.extRecipient
      extAmount := p.extAmount
      encryptedOutput0 := encrypted.getD 0 []
      encryptedOutput1 := encrypted.getD 1 [] }
  let extDataHashBe ← hashExtData extData
  return { circuitInputs :=
             .ofCalls (circuitCalls rootHex publicAmountHex membershipRootHex nonMembershipRootHex ins outs
               policy extDataHashBe)
           extData := extData
           prepared :=
             { poolRoot := p.poolRoot
               inputNullifiers := ins.map (·.nullifier)
               outputCommitments := outs.map (·.commitment)
               publicAmountField := publicAmountField
               extDataHashBe := extDataHashBe
               aspMembershipRoot := p.membershipProof.root
               aspNonMembershipRoot := p.nonMembershipProof.root } }

structure DepositParams where
  privKey : Key
  encryptionPubkey : Key
  poolRoot : Fr
  poolAddress : String
  amount : ExtAmount
  outputs : List TransactOutput
  membershipProof : AspMembershipProof
  nonMembershipProof : AspNonMembershipProof
  treeDepth : Nat
  smtDepth : Nat

structure WithdrawParams where
  privKey : Key
  encryptionPubkey : Key
  poolRoot : Fr
  withdrawRecipient : String
  withdrawAmount : ExtAmount
  inputs : List TransactInputNote
  outputs : Option (List TransactOutput)
  membershipProof : AspMembershipProof
  nonMembershipProof : AspNonMembershipProof
  treeDepth : Nat
  smtDepth : Nat

structure TransferParams where
  privKey : Key
  encryptionPubkey : Key
  poolRoot : Fr
  poolAddress : String
  inputs : List TransactInputNote
  outputs : List TransactOutput
  membershipProof : AspMembershipProof
  nonMembershipProof : AspNonMembershipProof
  treeDepth : Nat
  smtDepth : Nat

section Uses

variable (H : Hasher) (X : Cipher) (D : Draws) (hashExtData : Client.ExtData → Except String Bytes)

def deposit (params : DepositParams) : Except String TransactArtifacts :=
  transact H X D hashExtData
    { privKey := params.privKey
      encryptionPubkey := params.encryptionPubkey
      poolRoot := params.poolRoot
      extRecipient := params.poolAddress
      extAmount := params.amount
      inputs := []
      outputs := params.outputs
      membershipProof := params.membershipProof
      nonMembershipProof := params.nonMembershipProof
      treeDepth := params.treeDepth
      smtDepth := params.smtDepth }

def ownOutput (amount : NoteAmount) (blinding : Fr) : TransactOutput where
  amount := amount
  blinding := blinding
  recipientNotePubkey := none
  recipientEncryptionPubkey := none

def changeOutputs (change : NoteAmount) : List TransactOutput :=
  [ownOutput change (D.changeBlinding 0), ownOutput 0 (D.changeBlinding 1)]

def withdraw (params : WithdrawParams) : Except String TransactArtifacts := do
  let inputTotal ← sumNoteAmountsInputs params.inputs
  let withdrawNoteAmount ← noteAmountOfExt params.withdrawAmount
  let have_ := inputTotal.toNat
  let need := params.withdrawAmount.toInt
  refuse (inputTotal.toNat < withdrawNoteAmount.toNat) s!"insufficient input amount: have {have_}, need {need}"
  let change ← okOr (checkedSub inputTotal withdrawNoteAmount) "insufficient input amount"
  let outputs := params.outputs.getD (changeOutputs D change)
  let extAmount ← okOr (checkedNeg params.withdrawAmount) "withdraw amount overflow"
  transact H X D hashExtData
    { privKey := params.privKey
      encryptionPubkey := params.encryptionPubkey
      poolRoot := params.poolRoot
      extRecipient := params.withdrawRecipient
      extAmount := extAmount
      inputs := params.inputs
      outputs := outputs
      membershipProof := params.membershipProof
      nonMembershipProof := params.nonMembershipProof
      treeDepth := params.treeDepth
      smtDepth := params.smtDepth }

def transfer (params : TransferParams) : Except String TransactArtifacts :=
  transact H X D hashExtData
    { privKey := params.privKey
      encryptionPubkey := params.encryptionPubkey
      poolRoot := params.poolRoot
      extRecipient := params.poolAddress
      extAmount := 0
      inputs := params.inputs
      outputs := params.outputs
      membershipProof := params.membershipProof
      nonMembershipProof := params.nonMembershipProof
      treeDepth := params.treeDepth
      smtDepth := params.smtDepth }

end Uses

end PrivatePayments.Prover
