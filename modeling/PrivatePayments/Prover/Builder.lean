import PrivatePayments.Library.Outcome
import PrivatePayments.Prover.Flows

/-!
What a transaction that was built is made of: two inputs and two outputs whose amounts balance,
and the field elements under the names of the circuit's signals.
-/

namespace PrivatePayments.Prover
open Bn254 Poseidon2 Client LocalState Planner Library Library.LittleEndian

def Key.scalar (key : Key) : Fr := (fromLeBytes key.bytes : Fr)

section Slots

variable (H : Hasher) (X : Cipher) (D : Draws) (p : TransactParams)

def slotInput (slot : Nat) : TransactInputNote := p.inputs.getD slot (dummyInput D p.treeDepth slot)

def slotOutput (slot : Nat) : TransactOutput := p.outputs.getD slot (dummyOutput D slot)

def senderPubkey : Fr := H.hash2 p.privKey.scalar 0 3

def recipientPubkey (slot : Nat) : Fr :=
  ((slotOutput D p slot).recipientNotePubkey.map Key.scalar).getD (senderPubkey H p)

def recipientKey (slot : Nat) : Key := (slotOutput D p slot).recipientEncryptionPubkey.getD p.encryptionPubkey

def slotNullifier (slot : Nat) : Fr :=
  let inp := slotInput D p slot
  let commitment := computeCommitment H (noteAmountToField inp.amount) (senderPubkey H p) inp.blinding
  computeNullifier H commitment inp.merklePathIndices
    (computeSignature H p.privKey.scalar commitment inp.merklePathIndices)

def slotCommitment (slot : Nat) : Fr :=
  let out := slotOutput D p slot
  computeCommitment H (noteAmountToField out.amount) (recipientPubkey H D p slot) out.blinding

def slotEncrypted (slot : Nat) : Bytes :=
  let out := slotOutput D p slot
  encryptOutputNote X (recipientKey D p slot).bytes (D.encryption slot) out.amount out.blinding

def publicAmount : Fr := ofU256 (BitVec.ofNat 256 (publicAmountValue p.extAmount))

def builtExtData : Client.ExtData where
  recipient := p.extRecipient
  extAmount := p.extAmount
  encryptedOutput0 := slotEncrypted X D p 0
  encryptedOutput1 := slotEncrypted X D p 1

def perSlot (f : Nat → Fr) : List Fr := (List.range 2).map f

def membershipSignals (proof : AspMembershipProof) (slot : Nat) : List (String × List Fr) :=
  let prefixM := s!"membershipProofs[{slot}][0]."
  [(prefixM ++ "leaf", [proof.leaf]), (prefixM ++ "blinding", [proof.blinding]),
    (prefixM ++ "pathIndices", [proof.pathIndices]), (prefixM ++ "pathElements", proof.pathElements),
    (prefixM ++ "root", [proof.root])]

def nonMembershipSignals (proof : AspNonMembershipProof) (slot : Nat) : List (String × List Fr) :=
  let prefixN := s!"nonMembershipProofs[{slot}][0]."
  [(prefixN ++ "key", [proof.key]), (prefixN ++ "oldKey", [proof.oldKey]), (prefixN ++ "oldValue", [proof.oldValue]),
    (prefixN ++ "isOld0", [if proof.isOld0 then 1 else 0]), (prefixN ++ "siblings", proof.siblings),
    (prefixN ++ "root", [proof.root])]

def policySignals (proof : AspMembershipProof) (absence : AspNonMembershipProof) : List (String × List Fr) :=
  membershipSignals proof 0 ++ nonMembershipSignals absence 0 ++ membershipSignals proof 1 ++
    nonMembershipSignals absence 1

def transactSignals (hash : Fr) : List (String × List Fr) :=
  [("root", [p.poolRoot]), ("publicAmount", [publicAmount p]),
      ("inputNullifier", perSlot (slotNullifier H D p)), ("outputCommitment", perSlot (slotCommitment H D p)),
      ("inAmount", perSlot fun slot => noteAmountToField (slotInput D p slot).amount),
      ("inPrivateKey", perSlot fun _ => p.privKey.scalar),
      ("inBlinding", perSlot fun slot => (slotInput D p slot).blinding),
      ("inPathIndices", perSlot fun slot => (slotInput D p slot).merklePathIndices),
      ("inPathElements", (List.range 2).flatMap fun slot => (slotInput D p slot).merklePathElements),
      ("outAmount", perSlot fun slot => noteAmountToField (slotOutput D p slot).amount),
      ("outPubkey", perSlot (recipientPubkey H D p)),
      ("outBlinding", perSlot fun slot => (slotOutput D p slot).blinding),
      ("membershipRoots", [p.membershipProof.root, p.membershipProof.root]),
      ("nonMembershipRoots", [p.nonMembershipProof.root, p.nonMembershipProof.root])] ++
    policySignals p.membershipProof p.nonMembershipProof ++ [("extDataHash", [hash])]

def builtInput (slot : Nat) : InputSlot :=
  let inp := slotInput D p slot
  { nullifier := slotNullifier H D p slot
    nullifierHex := scalarToHex (slotNullifier H D p slot)
    amountHex := scalarToHex (noteAmountToField inp.amount)
    privHex := scalarToHex p.privKey.scalar
    blindingHex := scalarToHex inp.blinding
    pathIndicesHex := scalarToHex inp.merklePathIndices
    pathElementsHex := inp.merklePathElements.map scalarToHex }

def builtOutput (slot : Nat) : OutputSlot :=
  let out := slotOutput D p slot
  { commitment := slotCommitment H D p slot
    encrypted := slotEncrypted X D p slot
    amountHex := scalarToHex (noteAmountToField out.amount)
    pubkeyHex := scalarToHex (recipientPubkey H D p slot)
    blindingHex := scalarToHex out.blinding
    commitmentHex := scalarToHex (slotCommitment H D p slot) }

def builtPrepared (hash : Bytes) : PreparedTx where
  poolRoot := p.poolRoot
  inputNullifiers := perSlot (slotNullifier H D p)
  outputCommitments := perSlot (slotCommitment H D p)
  publicAmountField := publicAmount p
  extDataHashBe := hash
  aspMembershipRoot := p.membershipProof.root
  aspNonMembershipRoot := p.nonMembershipProof.root

def builtCalls (policy : List (String × InputValue)) (hash : Bytes) : List (String × InputValue) :=
  circuitCalls (scalarToHex p.poolRoot) (scalarToHex (publicAmount p)) (scalarToHex p.membershipProof.root)
    (scalarToHex p.nonMembershipProof.root) ((List.range 2).map (builtInput H D p))
    ((List.range 2).map (builtOutput H X D p)) policy hash

def built (policy : List (String × InputValue)) (hash : Bytes) : TransactArtifacts where
  circuitInputs := .ofCalls (builtCalls H X D p policy hash)
  extData := builtExtData X D p
  prepared := builtPrepared H D p hash

end Slots

section Values

theorem mapM_ok {ε α β : Type} {f : α → Except ε β} {g : α → β} {items : List α}
    (turns : ∀ a ∈ items, f a = .ok (g a)) : items.mapM f = .ok (items.map g) := by
  induction items with
  | nil => rfl
  | cons a items ih =>
    rw [List.forall_mem_cons] at turns
    rw [List.mapM_cons, turns.1, ih turns.2]
    rfl

theorem mapM_fieldToCircuitHex (xs : List Fr) : xs.mapM fieldToCircuitHex = .ok (xs.map scalarToHex) :=
  mapM_ok fun x _ => fieldToCircuitHex_eq x

theorem bytesToScalar_key (key : Key) : bytesToScalar key.bytes = .ok key.scalar := by
  rw [bytesToScalar, if_neg (show ¬key.bytes.length ≠ fieldSize from not_not.mpr key.length)]
  rfl

theorem bytesToScalar_scalarToBytes (x : Fr) : bytesToScalar (scalarToBytes x) = .ok x := bytesToScalar_toLeBytes x

theorem fieldBytesToHex_scalarToBytes (x : Fr) : fieldBytesToHex (scalarToBytes x) = .ok (scalarToHex x) :=
  fieldToCircuitHex_eq x

theorem fieldOfBytes_scalarToBytes (what : String) (x : Fr) : fieldOfBytes what (scalarToBytes x) = .ok x := by
  have length : (scalarToBytes x).length = 32 := length_toLeBytes 32 _
  have small := ZMod.val_lt x
  rw [fieldOfBytes, if_neg (not_not.mpr length), fromLeBytes_scalarToBytes, if_neg (Nat.not_le.mpr small),
    ZMod.natCast_zmod_val]

theorem fieldToLeBytes_eq (x : Fr) : fieldToLeBytes x = scalarToBytes x := rfl

theorem onBytes_scalars (f : Fr → Fr → Fr → Fr) (x y z : Fr) :
    onBytes f (scalarToBytes x) (scalarToBytes y) (scalarToBytes z) = .ok (scalarToBytes (f x y z)) := by
  simp only [onBytes, bytesToScalar_scalarToBytes, ok_bind]
  rfl

theorem onBytes_key (f : Fr → Fr → Fr → Fr) (key : Key) (y z : Fr) :
    onBytes f key.bytes (scalarToBytes y) (scalarToBytes z) = .ok (scalarToBytes (f key.scalar y z)) := by
  simp only [onBytes, bytesToScalar_key, bytesToScalar_scalarToBytes, ok_bind]
  rfl

variable {H : Hasher}

theorem derivePublicKey_key (key : Key) :
    derivePublicKey H key.bytes = .ok (scalarToBytes (H.hash2 key.scalar 0 3)) := by
  rw [derivePublicKey, bytesToScalar_key]
  rfl

theorem inputSlot_eq (D : Draws) (p : TransactParams) (slot : Nat) :
    inputSlot H p.privKey.bytes (scalarToBytes (senderPubkey H p)) (scalarToHex p.privKey.scalar) (slotInput D p slot) =
      .ok (builtInput H D p slot) := by
  simp only [inputSlot, fieldToLeBytes_eq, onBytes_scalars, onBytes_key, ok_bind, fieldOfBytes_scalarToBytes,
    fieldToCircuitHex_eq, fieldBytesToHex_scalarToBytes, mapM_fieldToCircuitHex]
  rfl

theorem bytesToScalar_recipient (recipient : Option Key) (pubkey : Fr) :
    bytesToScalar ((recipient.map Key.bytes).getD (scalarToBytes pubkey)) =
      .ok ((recipient.map Key.scalar).getD pubkey) := by
  cases recipient with
  | none => exact bytesToScalar_scalarToBytes pubkey
  | some key => exact bytesToScalar_key key

theorem outputSlot_eq (X : Cipher) (D : Draws) (p : TransactParams) (slot : Nat) :
    outputSlot H X D (scalarToBytes (senderPubkey H p)) p.encryptionPubkey (slotOutput D p slot) slot =
      .ok (builtOutput H X D p slot) := by
  have read := bytesToScalar_recipient (slotOutput D p slot).recipientNotePubkey (senderPubkey H p)
  have committed : onBytes (computeCommitment H) (scalarToBytes (noteAmountToField (slotOutput D p slot).amount))
      (((slotOutput D p slot).recipientNotePubkey.map Key.bytes).getD (scalarToBytes (senderPubkey H p)))
      (scalarToBytes (slotOutput D p slot).blinding) = .ok (scalarToBytes (slotCommitment H D p slot)) := by
    simp only [onBytes, bytesToScalar_scalarToBytes, read, ok_bind]
    rfl
  have shown : fieldBytesToHex
      (((slotOutput D p slot).recipientNotePubkey.map Key.bytes).getD (scalarToBytes (senderPubkey H p))) =
        .ok (scalarToHex (recipientPubkey H D p slot)) := by
    rw [fieldBytesToHex, read]
    rfl
  simp only [outputSlot, fieldToLeBytes_eq, committed, shown, ok_bind, fieldOfBytes_scalarToBytes,
    fieldToCircuitHex_eq, fieldBytesToHex_scalarToBytes]
  rfl

theorem membershipCalls_eq (proof : AspMembershipProof) (slot : Nat) :
    ∃ calls, membershipCalls proof slot = .ok calls ∧ Sets calls (membershipSignals proof slot) := by
  simp only [membershipCalls, fieldToCircuitHex_eq, mapM_fieldToCircuitHex, ok_bind]
  exact ⟨_, rfl, rfl⟩

theorem nonMembershipCalls_eq (proof : AspNonMembershipProof) (slot : Nat) :
    ∃ calls, nonMembershipCalls proof slot = .ok calls ∧ Sets calls (nonMembershipSignals proof slot) := by
  have one : noteAmountToField 1 = 1 := Nat.cast_one
  simp only [nonMembershipCalls, fieldToCircuitHex_eq, mapM_fieldToCircuitHex, ok_bind, one]
  exact ⟨_, rfl, rfl⟩

theorem Sets.append {calls calls' : List (String × InputValue)} {signals signals' : List (String × List Fr)}
    (sets : Sets calls signals) (sets' : Sets calls' signals') : Sets (calls ++ calls') (signals ++ signals') := by
  rw [Sets, List.map_append, List.map_append, sets, sets']

theorem policyCalls_eq (proof : AspMembershipProof) (absence : AspNonMembershipProof) :
    ∃ calls, policyCalls proof absence = .ok calls ∧ Sets calls (policySignals proof absence) := by
  obtain ⟨member0, done0, sets0⟩ := membershipCalls_eq proof 0
  obtain ⟨absent0, none0, unset0⟩ := nonMembershipCalls_eq absence 0
  obtain ⟨member1, done1, sets1⟩ := membershipCalls_eq proof 1
  obtain ⟨absent1, none1, unset1⟩ := nonMembershipCalls_eq absence 1
  refine ⟨member0 ++ absent0 ++ member1 ++ absent1, ?_, ((sets0.append unset0).append sets1).append unset1⟩
  rw [policyCalls, done0, none0, done1, none1]
  rfl

theorem sets_builtCalls (X : Cipher) (D : Draws) (p : TransactParams) {policy : List (String × InputValue)}
    (sets : Sets policy (policySignals p.membershipProof p.nonMembershipProof)) {hash : Bytes} {x : Fr}
    (spells : be32To0xHex hash = scalarToHex x) : Sets (builtCalls H X D p policy hash) (transactSignals H D p x) := by
  refine Sets.append (Sets.append ?_ sets) ?_
  · have paths : ((List.range 2).map (builtInput H D p)).flatMap (·.pathElementsHex) =
        ((List.range 2).flatMap fun slot => (slotInput D p slot).merklePathElements).map scalarToHex := by
      rw [List.flatMap_map, List.map_flatMap]
      rfl
    rw [paths]
    rfl
  · rw [spells]
    rfl

end Values

section Padding

variable {D : Draws}

theorem padded_eq {α : Type} {items : List α} (few : items.length ≤ 2) (dummy : Nat → α) :
    items ++ (List.range' items.length (2 - items.length)).map dummy =
      (List.range 2).map fun slot => items.getD slot (dummy slot) := by
  rcases items with _ | ⟨first, _ | ⟨second, _ | ⟨third, rest⟩⟩⟩
  · rfl
  · rfl
  · rfl
  · rw [List.length_cons, List.length_cons, List.length_cons] at few
    omega

theorem padInputs_eq {p : TransactParams} (few : p.inputs.length ≤ 2) :
    padInputs D p.treeDepth p.inputs = (List.range 2).map (slotInput D p) := padded_eq few _

theorem padOutputs_eq {p : TransactParams} (few : p.outputs.length ≤ 2) :
    padOutputs D p.outputs = (List.range 2).map (slotOutput D p) := padded_eq few _

end Padding

section Checks

theorem refuse_ok_iff {c : Prop} [Decidable c] {text : String} : refuse c text = .ok () ↔ ¬c := by
  unfold refuse
  split
  next holds => exact iff_of_false (fun done => by cases done) (not_not.mpr holds)
  next fails => exact iff_of_true rfl fails

theorem okOr_ok_iff {α : Type} {x : Option α} {text : String} {a : α} : okOr x text = .ok a ↔ x = some a := by
  cases x with
  | none => exact iff_of_false (fun done => by cases done) (fun found => by cases found)
  | some b => exact ⟨fun done => congrArg some (Except.ok.inj done),
      fun found => congrArg Except.ok (Option.some.inj found)⟩

theorem checkedAdd_eq_some_iff {a b c : NoteAmount} :
    Planner.checkedAdd a b = some c ↔ c.toNat = a.toNat + b.toNat := by
  have small := c.isLt
  constructor
  · intro added
    unfold Planner.checkedAdd at added
    split at added
    next fits =>
      obtain rfl := Option.some.inj added
      exact (checkedAdd_eq fits).2
    next => cases added
  · intro sum
    obtain ⟨added, value⟩ := checkedAdd_eq (a := a) (b := b) (by omega)
    rw [added, Option.some.injEq]
    exact BitVec.eq_of_toNat_eq (value.trans sum.symm)

theorem sumNoteAmounts_ok_iff {text : String} {start total : NoteAmount} {amounts : List NoteAmount} :
    sumNoteAmounts text start amounts = .ok total ↔ total.toNat = start.toNat + (amounts.map BitVec.toNat).sum := by
  induction amounts generalizing start with
  | nil =>
    rw [sumNoteAmounts, List.map_nil, List.sum_nil, Nat.add_zero, Except.ok.injEq]
    exact ⟨fun same => congrArg BitVec.toNat same.symm, fun same => BitVec.eq_of_toNat_eq same.symm⟩
  | cons amount amounts ih =>
    have small := total.isLt
    rw [sumNoteAmounts, List.map_cons, List.sum_cons, ← Nat.add_assoc]
    constructor
    · intro done
      obtain ⟨next, added, rest⟩ := of_bind_ok done
      rw [← checkedAdd_eq_some_iff.mp (okOr_ok_iff.mp added)]
      exact ih.mp rest
    · intro sum
      obtain ⟨added, value⟩ := checkedAdd_eq (a := start) (b := amount) (by omega)
      rw [added]
      change sumNoteAmounts text (start + amount) amounts = .ok total
      exact ih.mpr (by rw [value, sum])

theorem noteAmountOfExt_eq {value : ExtAmount} (positive : 0 ≤ value.toInt) :
    noteAmountOfExt value = .ok value ∧ (value.toNat : Int) = value.toInt := by
  refine ⟨if_neg (not_lt.mpr positive), ?_⟩
  rw [BitVec.toInt_eq_toNat_of_msb]
  rw [BitVec.msb_eq_toInt, decide_eq_false (not_lt.mpr positive)]

theorem checkedNeg_eq {value : ExtAmount} (negatable : value ≠ BitVec.intMin 128) :
    checkedNeg value = some (-value) ∧ (-value).toInt = -value.toInt :=
  ⟨if_neg negatable, BitVec.toInt_neg_of_ne_intMin negatable⟩

/-- The comparison says what it should: the amounts balance as integers. -/
theorem balanced_ok_iff {ins outs : NoteAmount} {ext : ExtAmount} :
    balanced ins outs ext = .ok true ↔ ext ≠ BitVec.intMin 128 ∧ (ins.toNat : Int) + ext.toInt = outs.toNat := by
  have inSmall := ins.isLt
  have outSmall := outs.isLt
  unfold balanced
  by_cases positive : 0 ≤ ext.toInt
  · obtain ⟨converted, number⟩ := noteAmountOfExt_eq positive
    have negatable : ext ≠ BitVec.intMin 128 := by
      rintro rfl
      exact absurd positive (by decide)
    rw [if_pos positive, converted, ok_bind, and_iff_right negatable]
    constructor
    · intro done
      obtain ⟨lhs, added, held⟩ := of_bind_ok done
      have sum := checkedAdd_eq_some_iff.mp (okOr_ok_iff.mp added)
      have same : lhs = outs := of_decide_eq_true (Except.ok.inj held)
      rw [← same, sum]
      omega
    · intro balance
      obtain ⟨added, value⟩ := checkedAdd_eq (a := ins) (b := ext) (by omega)
      have same : ins + ext = outs := BitVec.eq_of_toNat_eq (by omega)
      rw [added]
      exact congrArg Except.ok (decide_eq_true same)
  · rw [if_neg positive]
    constructor
    · intro done
      obtain ⟨negated, minus, done⟩ := of_bind_ok done
      have negatable : ext ≠ BitVec.intMin 128 := by
        rintro rfl
        cases okOr_ok_iff.mp minus
      obtain ⟨isMinus, opposite⟩ := checkedNeg_eq negatable
      obtain rfl := Option.some.inj (isMinus.symm.trans (okOr_ok_iff.mp minus))
      obtain ⟨converted, number⟩ := noteAmountOfExt_eq (show 0 ≤ (-ext).toInt by omega)
      rw [converted, ok_bind] at done
      obtain ⟨rhs, added, held⟩ := of_bind_ok done
      have sum := checkedAdd_eq_some_iff.mp (okOr_ok_iff.mp added)
      have same : ins = rhs := of_decide_eq_true (Except.ok.inj held)
      refine ⟨negatable, ?_⟩
      rw [same, sum]
      omega
    · rintro ⟨negatable, balance⟩
      obtain ⟨isMinus, opposite⟩ := checkedNeg_eq negatable
      obtain ⟨converted, number⟩ := noteAmountOfExt_eq (show 0 ≤ (-ext).toInt by omega)
      obtain ⟨added, value⟩ := checkedAdd_eq (a := outs) (b := -ext) (by omega)
      have same : ins = outs + -ext := BitVec.eq_of_toNat_eq (by omega)
      rw [isMinus]
      change (noteAmountOfExt (-ext) >>= _) = _
      rw [converted, ok_bind, added]
      exact congrArg Except.ok (decide_eq_true same)

def inputTotal (inputs : List TransactInputNote) : Nat := (inputs.map (·.amount.toNat)).sum

def outputTotal (outputs : List TransactOutput) : Nat := (outputs.map (·.amount.toNat)).sum

/-- The amounts of a transaction: both sums fit in 128 bits and the external amount makes up the difference. -/
structure Balanced (inputs : List TransactInputNote) (outputs : List TransactOutput) (ext : ExtAmount) : Prop where
  inputsFit : inputTotal inputs < 2 ^ 128
  outputsFit : outputTotal outputs < 2 ^ 128
  negatable : ext ≠ BitVec.intMin 128
  balance : (inputTotal inputs : Int) + ext.toInt = outputTotal outputs

theorem sumNoteAmountsInputs_ok_iff {inputs : List TransactInputNote} {total : NoteAmount} :
    sumNoteAmountsInputs inputs = .ok total ↔ total.toNat = inputTotal inputs := by
  rw [sumNoteAmountsInputs, sumNoteAmounts_ok_iff, List.map_map]
  exact Eq.congr_right (Nat.zero_add _)

theorem sumNoteAmountsOutputs_ok_iff {outputs : List TransactOutput} {total : NoteAmount} :
    sumNoteAmountsOutputs outputs = .ok total ↔ total.toNat = outputTotal outputs := by
  rw [sumNoteAmountsOutputs, sumNoteAmounts_ok_iff, List.map_map]
  exact Eq.congr_right (Nat.zero_add _)

theorem checkBalance_ok_iff {inputs : List TransactInputNote} {outputs : List TransactOutput} {ext : ExtAmount} :
    checkBalance inputs outputs ext = .ok () ↔ Balanced inputs outputs ext := by
  constructor
  · intro done
    obtain ⟨ins, summed, done⟩ := of_bind_ok done
    obtain ⟨outs, summed', done⟩ := of_bind_ok done
    obtain ⟨held, compared, done⟩ := of_bind_ok done
    have inSum := sumNoteAmountsInputs_ok_iff.mp summed
    have outSum := sumNoteAmountsOutputs_ok_iff.mp summed'
    obtain rfl : held = true := Bool.eq_true_of_not_eq_false (refuse_ok_iff.mp done)
    obtain ⟨negatable, balance⟩ := balanced_ok_iff.mp compared
    exact
      { inputsFit := inSum ▸ ins.isLt
        outputsFit := outSum ▸ outs.isLt
        negatable := negatable
        balance := by rw [← inSum, ← outSum]; exact balance }
  · intro amounts
    have ins := BitVec.toNat_ofNatLT _ amounts.inputsFit
    have outs := BitVec.toNat_ofNatLT _ amounts.outputsFit
    have held : balanced (.ofNatLT _ amounts.inputsFit) (.ofNatLT _ amounts.outputsFit) ext = .ok true :=
      balanced_ok_iff.mpr ⟨amounts.negatable, amounts.balance⟩
    rw [checkBalance, sumNoteAmountsInputs_ok_iff.mpr ins, ok_bind,
      sumNoteAmountsOutputs_ok_iff.mpr outs, ok_bind, held,
      ok_bind]
    exact refuse_ok_iff.mpr (fun false_ => by cases false_)

theorem checkSlots_ok_iff {α : Type} {check : Nat → List α → Except String Unit} {c : α → Prop} [DecidablePred c]
    {t : Nat → α → String} (stop : ∀ slot, check slot [] = .ok ())
    (turn : ∀ slot a rest, check slot (a :: rest) = refuse (c a) (t slot a) >>= fun _ => check (slot + 1) rest)
    (slot : Nat) {slots : List α} : check slot slots = .ok () ↔ ∀ a ∈ slots, ¬c a := by
  induction slots generalizing slot with
  | nil => exact iff_of_true (stop slot) fun a none => absurd none List.not_mem_nil
  | cons a slots ih =>
    rw [turn, List.forall_mem_cons, ← ih (slot + 1), bind_ok_iff]
    constructor
    · rintro ⟨u, passed, rest⟩
      exact ⟨refuse_ok_iff.mp passed, rest⟩
    · rintro ⟨good, rest⟩
      exact ⟨(), refuse_ok_iff.mpr good, rest⟩

theorem checkInputShapes_ok_iff {treeDepth : Nat} (slot : Nat) {slots : List TransactInputNote} :
    checkInputShapes treeDepth slot slots = .ok () ↔ ∀ inp ∈ slots, inp.merklePathElements.length = treeDepth := by
  rw [checkSlots_ok_iff (c := fun inp => inp.merklePathElements.length ≠ treeDepth) (fun _ => rfl) fun _ _ _ => rfl]
  simp only [not_not]

theorem checkRecipients_ok_iff (slot : Nat) {slots : List TransactOutput} : checkRecipients slot slots = .ok () ↔
    ∀ out ∈ slots, out.recipientNotePubkey.isSome = out.recipientEncryptionPubkey.isSome := by
  rw [checkSlots_ok_iff (c := fun out => out.recipientNotePubkey.isSome ≠ out.recipientEncryptionPubkey.isSome)
    (fun _ => rfl) fun _ _ _ => rfl]
  simp only [not_not]

end Checks

/-- What the builder asks of its parameters. -/
structure Ready (p : TransactParams) : Prop where
  levels : p.treeDepth ≠ 0
  smtLevels : p.smtDepth ≠ 0
  membershipPath : p.membershipProof.pathElements.length = p.treeDepth
  siblings : p.nonMembershipProof.siblings.length = p.smtDepth
  outputsFew : p.outputs.length ≤ 2
  balanced : Balanced p.inputs p.outputs p.extAmount
  inputsFew : p.inputs.length ≤ 2
  shapes : ∀ inp ∈ p.inputs, inp.merklePathElements.length = p.treeDepth
  recipients : ∀ out ∈ p.outputs, out.recipientNotePubkey.isSome = out.recipientEncryptionPubkey.isSome

section Transact

variable {H : Hasher} {X : Cipher} {D : Draws} {hashExtData : Client.ExtData → Except String Bytes} {p : TransactParams}

theorem refuse_bind {c : Prop} [Decidable c] {text : String} (fails : ¬c) {β : Type} (f : Unit → Except String β) :
    (refuse c text >>= f) = f () := bind_of_ok (refuse_ok_iff.mpr fails) f

theorem shapes_slotInput (shapes : ∀ inp ∈ p.inputs, inp.merklePathElements.length = p.treeDepth) (slot : Nat) :
    (slotInput D p slot).merklePathElements.length = p.treeDepth := by
  rw [slotInput, List.getD_eq_getElem?_getD]
  cases found : p.inputs[slot]? with
  | none => exact List.length_replicate
  | some inp => exact shapes inp (List.mem_of_getElem? found)

theorem recipients_slotOutput
    (recipients : ∀ out ∈ p.outputs, out.recipientNotePubkey.isSome =
      out.recipientEncryptionPubkey.isSome) (slot : Nat) :
    (slotOutput D p slot).recipientNotePubkey.isSome = (slotOutput D p slot).recipientEncryptionPubkey.isSome := by
  rw [slotOutput, List.getD_eq_getElem?_getD]
  cases found : p.outputs[slot]? with
  | none => rfl
  | some out => exact recipients out (List.mem_of_getElem? found)

theorem ready_of_transact {a : TransactArtifacts} (done : transact H X D hashExtData p = .ok a) : Ready p := by
  obtain ⟨u, levels, done⟩ := of_bind_ok done
  obtain ⟨u, smtLevels, done⟩ := of_bind_ok done
  obtain ⟨u, membershipPath, done⟩ := of_bind_ok done
  obtain ⟨u, siblings, done⟩ := of_bind_ok done
  obtain ⟨u, outputsFew, done⟩ := of_bind_ok done
  obtain ⟨u, balance, done⟩ := of_bind_ok done
  obtain ⟨pubkey, derived, done⟩ := of_bind_ok done
  obtain ⟨u, inputsFew, done⟩ := of_bind_ok done
  obtain ⟨u, shapes, done⟩ := of_bind_ok done
  obtain ⟨u, recipients, done⟩ := of_bind_ok done
  exact
    { levels := refuse_ok_iff.mp levels
      smtLevels := refuse_ok_iff.mp smtLevels
      membershipPath := not_not.mp (refuse_ok_iff.mp membershipPath)
      siblings := not_not.mp (refuse_ok_iff.mp siblings)
      outputsFew := Nat.not_lt.mp (refuse_ok_iff.mp outputsFew)
      balanced := checkBalance_ok_iff.mp balance
      inputsFew := Nat.not_lt.mp (refuse_ok_iff.mp inputsFew)
      shapes := fun inp member => (checkInputShapes_ok_iff 0).mp shapes inp (List.mem_append_left _ member)
      recipients := fun out member => (checkRecipients_ok_iff 0).mp recipients out (List.mem_append_left _ member) }

/-- Where it asks no more, the hash of the external data is all that can fail. -/
theorem transact_of_ready (ready : Ready p) : ∃ policy,
    Sets policy (policySignals p.membershipProof p.nonMembershipProof) ∧
      transact H X D hashExtData p =
        (hashExtData (builtExtData X D p) >>= fun hash => .ok (built H X D p policy hash)) := by
  have ins := padInputs_eq (D := D) ready.inputsFew
  have outs := padOutputs_eq (D := D) ready.outputsFew
  have slots : (padOutputs D p.outputs).zipIdx = (List.range 2).map fun slot => (slotOutput D p slot, slot) := by
    rw [outs]
    rfl
  have shapes : ∀ inp ∈ padInputs D p.treeDepth p.inputs, inp.merklePathElements.length = p.treeDepth := by
    rw [ins]
    exact List.forall_mem_map.mpr fun slot _ => shapes_slotInput ready.shapes slot
  have recipients : ∀ out ∈ padOutputs D p.outputs,
      out.recipientNotePubkey.isSome = out.recipientEncryptionPubkey.isSome := by
    rw [outs]
    exact List.forall_mem_map.mpr fun slot _ => recipients_slotOutput ready.recipients slot
  have priv : fieldBytesToHex p.privKey.bytes = .ok (scalarToHex p.privKey.scalar) := by
    rw [fieldBytesToHex, bytesToScalar_key]
    rfl
  have inputSlots : (padInputs D p.treeDepth p.inputs).mapM
      (inputSlot H p.privKey.bytes (scalarToBytes (senderPubkey H p)) (scalarToHex p.privKey.scalar)) =
        .ok ((List.range 2).map (builtInput H D p)) := by
    rw [ins, List.mapM_map]
    exact mapM_ok fun slot _ => inputSlot_eq D p slot
  have outputSlots : (padOutputs D p.outputs).zipIdx.mapM (fun out =>
      outputSlot H X D (scalarToBytes (senderPubkey H p)) p.encryptionPubkey out.1 out.2) =
        .ok ((List.range 2).map (builtOutput H X D p)) := by
    rw [slots, List.mapM_map]
    exact mapM_ok fun slot _ => outputSlot_eq X D p slot
  obtain ⟨policy, called, sets⟩ := policyCalls_eq p.membershipProof p.nonMembershipProof
  refine ⟨policy, sets, ?_⟩
  refine (refuse_bind ready.levels _).trans ?_
  refine (refuse_bind ready.smtLevels _).trans ?_
  refine (refuse_bind (not_not.mpr ready.membershipPath) _).trans ?_
  refine (refuse_bind (not_not.mpr ready.siblings) _).trans ?_
  refine (refuse_bind (Nat.not_lt.mpr ready.outputsFew) _).trans ?_
  refine (bind_of_ok (checkBalance_ok_iff.mpr ready.balanced) _).trans ?_
  refine (bind_of_ok (derivePublicKey_key p.privKey) _).trans ?_
  refine (refuse_bind (Nat.not_lt.mpr ready.inputsFew) _).trans ?_
  refine (bind_of_ok ((checkInputShapes_ok_iff 0).mpr shapes) _).trans ?_
  refine (bind_of_ok ((checkRecipients_ok_iff 0).mpr recipients) _).trans ?_
  refine (bind_of_ok (fieldToCircuitHex_eq p.poolRoot) _).trans ?_
  refine (bind_of_ok (fieldOfExtAmount_eq p.extAmount) _).trans ?_
  refine (bind_of_ok (fieldToCircuitHex_eq (publicAmount p)) _).trans ?_
  refine (bind_of_ok priv _).trans ?_
  refine (bind_of_ok inputSlots _).trans ?_
  refine (bind_of_ok outputSlots _).trans ?_
  refine (bind_of_ok (fieldToCircuitHex_eq p.membershipProof.root) _).trans ?_
  refine (bind_of_ok (fieldToCircuitHex_eq p.nonMembershipProof.root) _).trans ?_
  refine (bind_of_ok called _).trans ?_
  rfl

theorem transact_of_hash {hashExtData : Client.ExtData → Except String Bytes} (ready : Ready p) {hash : Bytes}
    (hashed : hashExtData (builtExtData X D p) = .ok hash) : ∃ a, transact H X D hashExtData p = .ok a := by
  obtain ⟨policy, -, run⟩ := transact_of_ready ready
  exact ⟨built H X D p policy hash, run.trans (bind_of_ok hashed _)⟩

/-- The builder returns where its parameters are ready and the external data have a hash, and nowhere else; what it
returns is made of the slots. -/
theorem transact_returns_iff (H : Hasher) (X : Cipher) (D : Draws) (hashExtData : Client.ExtData → Except String Bytes)
    (p : TransactParams) :
    ((∃ a, transact H X D hashExtData p = .ok a) ↔ Ready p ∧ ∃ hash, hashExtData (builtExtData X D p) = .ok hash) ∧
      ∀ a, transact H X D hashExtData p = .ok a → ∃ policy hash,
        Sets policy (policySignals p.membershipProof p.nonMembershipProof) ∧
          hashExtData (builtExtData X D p) = .ok hash ∧ a = built H X D p policy hash := by
  have whole (a : TransactArtifacts) (done : transact H X D hashExtData p = .ok a) : ∃ policy hash,
      Sets policy (policySignals p.membershipProof p.nonMembershipProof) ∧
        hashExtData (builtExtData X D p) = .ok hash ∧ a = built H X D p policy hash := by
    obtain ⟨policy, sets, run⟩ := transact_of_ready (ready_of_transact done)
    rw [run] at done
    obtain ⟨hash, hashed, same⟩ := of_bind_ok done
    exact ⟨policy, hash, sets, hashed, (Except.ok.inj same).symm⟩
  constructor
  · constructor
    · rintro ⟨a, done⟩
      obtain ⟨policy, hash, -, hashed, -⟩ := whole a done
      exact ⟨ready_of_transact done, hash, hashed⟩
    · rintro ⟨ready, hash, hashed⟩
      exact transact_of_hash ready hashed
  · exact whole

end Transact

section Uses

variable {H : Hasher} {X : Cipher} {D : Draws} {hashExtData : Client.ExtData → Except String Bytes}
    {a : TransactArtifacts}

def DepositParams.transactParams (params : DepositParams) : TransactParams where
  privKey := params.privKey
  encryptionPubkey := params.encryptionPubkey
  poolRoot := params.poolRoot
  extRecipient := params.poolAddress
  extAmount := params.amount
  inputs := []
  outputs := params.outputs
  membershipProof := params.membershipProof
  nonMembershipProof := params.nonMembershipProof
  treeDepth := params.treeDepth
  smtDepth := params.smtDepth

def TransferParams.transactParams (params : TransferParams) : TransactParams where
  privKey := params.privKey
  encryptionPubkey := params.encryptionPubkey
  poolRoot := params.poolRoot
  extRecipient := params.poolAddress
  extAmount := 0
  inputs := params.inputs
  outputs := params.outputs
  membershipProof := params.membershipProof
  nonMembershipProof := params.nonMembershipProof
  treeDepth := params.treeDepth
  smtDepth := params.smtDepth

/-- The amount that stays with the sender of a withdrawal. -/
def WithdrawParams.change (params : WithdrawParams) : NoteAmount :=
  BitVec.ofNat 128 (inputTotal params.inputs) - params.withdrawAmount

def WithdrawParams.transactParams (D : Draws) (params : WithdrawParams) : TransactParams where
  privKey := params.privKey
  encryptionPubkey := params.encryptionPubkey
  poolRoot := params.poolRoot
  extRecipient := params.withdrawRecipient
  extAmount := -params.withdrawAmount
  inputs := params.inputs
  outputs := params.outputs.getD (changeOutputs D params.change)
  membershipProof := params.membershipProof
  nonMembershipProof := params.nonMembershipProof
  treeDepth := params.treeDepth
  smtDepth := params.smtDepth

theorem deposit_total {params : DepositParams} (made : deposit H X D hashExtData params = .ok a) :
    (outputTotal params.outputs : Int) = params.amount.toInt := by
  have balance := (ready_of_transact (p := params.transactParams) made).balanced.balance
  change (0 : Int) + params.amount.toInt = outputTotal params.outputs at balance
  omega

theorem transfer_total {params : TransferParams} (made : transfer H X D hashExtData params = .ok a) :
    outputTotal params.outputs = inputTotal params.inputs := by
  have balance := (ready_of_transact (p := params.transactParams) made).balanced.balance
  change (inputTotal params.inputs : Int) + 0 = outputTotal params.outputs at balance
  omega

theorem noteAmountOfExt_ok_iff {value : ExtAmount} {amount : NoteAmount} :
    noteAmountOfExt value = .ok amount ↔ 0 ≤ value.toInt ∧ value = amount := by
  unfold noteAmountOfExt
  by_cases negative : value.toInt < 0
  · rw [if_pos negative]
    exact iff_of_false (fun done => by cases done) fun same => absurd same.1 (not_le.mpr negative)
  · rw [if_neg negative, Except.ok.injEq]
    exact (and_iff_right (not_lt.mp negative)).symm

theorem checkedNeg_of_nonneg {value : ExtAmount} (positive : 0 ≤ value.toInt) :
    checkedNeg value = some (-value) ∧ (-value).toInt = -value.toInt := by
  refine checkedNeg_eq fun lowest => ?_
  rw [lowest] at positive
  exact absurd positive (by decide)

/-- The inputs of a withdrawal cover its amount wherever the builder finds the amounts balanced. -/
theorem withdrawal_covered {params : WithdrawParams} (positive : 0 ≤ params.withdrawAmount.toInt)
    (balanced : Balanced params.inputs (params.transactParams D).outputs (-params.withdrawAmount)) :
    outputTotal (params.transactParams D).outputs + params.withdrawAmount.toNat = inputTotal params.inputs := by
  have opposite := (checkedNeg_of_nonneg positive).2
  have number := (noteAmountOfExt_eq positive).2
  have balance := balanced.balance
  omega

/-- A withdrawal is refused if its amount is negative, and otherwise is what the builder makes of its parameters. -/
theorem withdraw_ok_iff {params : WithdrawParams} : withdraw H X D hashExtData params = .ok a ↔
    0 ≤ params.withdrawAmount.toInt ∧ transact H X D hashExtData (params.transactParams D) = .ok a := by
  constructor
  · intro done
    obtain ⟨total, summed, done⟩ := of_bind_ok done
    obtain ⟨amount, converted, done⟩ := of_bind_ok done
    obtain ⟨u, covered, done⟩ := of_bind_ok done
    obtain ⟨change, left, done⟩ := of_bind_ok done
    obtain ⟨ext, negated, made⟩ := of_bind_ok done
    obtain ⟨positive, rfl⟩ := noteAmountOfExt_ok_iff.mp converted
    have isTotal : BitVec.ofNat 128 (inputTotal params.inputs) = total := by
      rw [← sumNoteAmountsInputs_ok_iff.mp summed, BitVec.ofNat_toNat, BitVec.setWidth_eq]
    have isChange : params.change = change := by
      have enough := Nat.not_lt.mp (refuse_ok_iff.mp covered)
      rw [(checkedSub_eq enough).1] at left
      rw [WithdrawParams.change, isTotal]
      exact Option.some.inj (okOr_ok_iff.mp left)
    have isExt : -params.withdrawAmount = ext :=
      Option.some.inj ((checkedNeg_of_nonneg positive).1.symm.trans (okOr_ok_iff.mp negated))
    rw [WithdrawParams.transactParams, isChange, isExt]
    exact ⟨positive, made⟩
  · rintro ⟨positive, made⟩
    have balanced : Balanced params.inputs (params.transactParams D).outputs (-params.withdrawAmount) :=
      (ready_of_transact made).balanced
    have covered := withdrawal_covered positive balanced
    have total : (BitVec.ofNat 128 (inputTotal params.inputs)).toNat = inputTotal params.inputs := by
      rw [BitVec.toNat_ofNat, Nat.mod_eq_of_lt balanced.inputsFit]
    have enough : params.withdrawAmount.toNat ≤ (BitVec.ofNat 128 (inputTotal params.inputs)).toNat := by omega
    refine (bind_of_ok (sumNoteAmountsInputs_ok_iff.mpr total) _).trans ?_
    refine (bind_of_ok (noteAmountOfExt_eq positive).1 _).trans ?_
    refine (refuse_bind (Nat.not_lt.mpr enough) _).trans ?_
    refine (bind_of_ok (okOr_ok_iff.mpr (checkedSub_eq enough).1) _).trans ?_
    refine (bind_of_ok (okOr_ok_iff.mpr (checkedNeg_of_nonneg positive).1) _).trans ?_
    exact made

theorem changeOutputs_balanced {params : WithdrawParams} (positive : 0 ≤ params.withdrawAmount.toInt)
    (fits : inputTotal params.inputs < 2 ^ 128) (enough : params.withdrawAmount.toNat ≤ inputTotal params.inputs) :
    Balanced params.inputs (changeOutputs D params.change) (-params.withdrawAmount) := by
  have total : (BitVec.ofNat 128 (inputTotal params.inputs)).toNat = inputTotal params.inputs := by
    rw [BitVec.toNat_ofNat, Nat.mod_eq_of_lt fits]
  have left := (checkedSub_eq (a := BitVec.ofNat 128 (inputTotal params.inputs))
      (b := params.withdrawAmount) (by omega)).2
  have outs : outputTotal (changeOutputs D params.change) = params.change.toNat := Nat.add_zero _
  have opposite := (checkedNeg_of_nonneg positive).2
  have number := (noteAmountOfExt_eq positive).2
  rw [total] at left
  change inputTotal params.inputs = params.withdrawAmount.toNat + params.change.toNat at left
  exact
    { inputsFit := fits
      outputsFit := by omega
      negatable := fun lowest => by
        have value : (-params.withdrawAmount).toInt = -2 ^ 127 := by rw [lowest]; decide
        have small := BitVec.toInt_lt (x := params.withdrawAmount)
        omega
      balance := by omega }

/-- A withdrawal is what the builder makes of the opposite amount, and nothing is lost in it: what its outputs hold and
what it takes out is what its inputs held. With no outputs given, the change balances all that the inputs cover. -/
theorem withdraw_returns_iff (H : Hasher) (X : Cipher) (D : Draws) (hashExtData : Client.ExtData → Except String Bytes)
    (params : WithdrawParams) :
    (∀ a, withdraw H X D hashExtData params = .ok a ↔
      0 ≤ params.withdrawAmount.toInt ∧ transact H X D hashExtData (params.transactParams D) = .ok a) ∧
    (∀ a, withdraw H X D hashExtData params = .ok a →
      outputTotal (params.transactParams D).outputs + params.withdrawAmount.toNat = inputTotal params.inputs) ∧
    (params.outputs = none → 0 ≤ params.withdrawAmount.toInt →
      (Balanced params.inputs (params.transactParams D).outputs (-params.withdrawAmount) ↔
        inputTotal params.inputs < 2 ^ 128 ∧ params.withdrawAmount.toNat ≤ inputTotal params.inputs)) := by
  refine ⟨fun a => withdraw_ok_iff, fun a done => ?_, fun unset positive => ?_⟩
  · obtain ⟨positive, made⟩ := withdraw_ok_iff.mp done
    exact withdrawal_covered positive (ready_of_transact made).balanced
  · have own : (params.transactParams D).outputs = changeOutputs D params.change := by
      rw [WithdrawParams.transactParams, unset, Option.getD_none]
    constructor
    · intro balanced
      have covered := withdrawal_covered positive balanced
      exact ⟨balanced.inputsFit, by omega⟩
    · rintro ⟨fits, enough⟩
      rw [own]
      exact changeOutputs_balanced positive fits enough

end Uses

end PrivatePayments.Prover
