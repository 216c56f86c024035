import PrivatePayments.Circuits.Completeness
import PrivatePayments.Pool.Extraction
import PrivatePayments.Prover.Builder

/-!
What the builder hands to the witness calculator satisfies the circuit when the proofs it was
given are valid, and the public signals are those the pool assembles from the submission.
-/

namespace PrivatePayments.Prover
open Bn254 Poseidon2 Soroban Client LocalState Planner Library Library.LittleEndian Circuits PolicyTransaction

/-- A field of a bus under the name that the calculator has for it. -/
def busField (bus : String) (tx i : Nat) (field : String) : String :=
  Witness.nestedKey (Witness.indexedKey (Witness.indexedKey bus tx) i) field

def valuesOf (xs : List Fr) : Option (List Int) := some (xs.map fun x => (x.val : Int))

/-- The map gives every input signal of the circuit its values, arrays row after row. -/
structure Assigns (m : Witness.Inputs) (size : Size) (x : PolicyTransaction.Inputs) : Prop where
  root : m "root" = valuesOf [x.root]
  publicAmount : m "publicAmount" = valuesOf [x.publicAmount]
  extDataHash : m "extDataHash" = valuesOf [x.extDataHash]
  inputNullifier : m "inputNullifier" = valuesOf ((List.range size.nIns).map x.inputNullifier)
  outputCommitment : m "outputCommitment" = valuesOf ((List.range size.nOuts).map x.outputCommitment)
  membershipRoots : m "membershipRoots" = valuesOf
    ((List.range size.nIns).flatMap fun tx => (List.range size.nMembershipProofs).map (x.membershipRoots tx))
  nonMembershipRoots : m "nonMembershipRoots" = valuesOf
    ((List.range size.nIns).flatMap fun tx => (List.range size.nNonMembershipProofs).map (x.nonMembershipRoots tx))
  membershipProofs : ∀ tx, tx < size.nIns → ∀ i, i < size.nMembershipProofs →
    m (busField "membershipProofs" tx i "leaf") = valuesOf [(x.membershipProofs tx i).leaf] ∧
    m (busField "membershipProofs" tx i "blinding") = valuesOf [(x.membershipProofs tx i).blinding] ∧
    m (busField "membershipProofs" tx i "pathElements") =
      valuesOf ((List.range size.levels).map (x.membershipProofs tx i).pathElements) ∧
    m (busField "membershipProofs" tx i "pathIndices") = valuesOf [(x.membershipProofs tx i).pathIndices]
  nonMembershipProofs : ∀ tx, tx < size.nIns → ∀ i, i < size.nNonMembershipProofs →
    m (busField "nonMembershipProofs" tx i "key") = valuesOf [(x.nonMembershipProofs tx i).key] ∧
    m (busField "nonMembershipProofs" tx i "siblings") =
      valuesOf ((List.range size.smtLevels).map (x.nonMembershipProofs tx i).siblings) ∧
    m (busField "nonMembershipProofs" tx i "oldKey") = valuesOf [(x.nonMembershipProofs tx i).oldKey] ∧
    m (busField "nonMembershipProofs" tx i "oldValue") = valuesOf [(x.nonMembershipProofs tx i).oldValue] ∧
    m (busField "nonMembershipProofs" tx i "isOld0") = valuesOf [(x.nonMembershipProofs tx i).isOld0]
  inAmount : m "inAmount" = valuesOf ((List.range size.nIns).map x.inAmount)
  inPrivateKey : m "inPrivateKey" = valuesOf ((List.range size.nIns).map x.inPrivateKey)
  inBlinding : m "inBlinding" = valuesOf ((List.range size.nIns).map x.inBlinding)
  inPathIndices : m "inPathIndices" = valuesOf ((List.range size.nIns).map x.inPathIndices)
  inPathElements : m "inPathElements" = valuesOf
    ((List.range size.nIns).flatMap fun tx => (List.range size.levels).map (x.inPathElements tx))
  outAmount : m "outAmount" = valuesOf ((List.range size.nOuts).map x.outAmount)
  outPubkey : m "outPubkey" = valuesOf ((List.range size.nOuts).map x.outPubkey)
  outBlinding : m "outBlinding" = valuesOf ((List.range size.nOuts).map x.outBlinding)

section Assignment

variable (H : Hasher) (D : Draws) (p : TransactParams)

def assignment (hash : Fr) : PolicyTransaction.Inputs where
  root := p.poolRoot
  publicAmount := publicAmount p
  extDataHash := hash
  inputNullifier := slotNullifier H D p
  outputCommitment := slotCommitment H D p
  membershipRoots _ _ := p.membershipProof.root
  nonMembershipRoots _ _ := p.nonMembershipProof.root
  membershipProofs _ _ :=
    { leaf := p.membershipProof.leaf
      blinding := p.membershipProof.blinding
      pathElements := fun i => p.membershipProof.pathElements.getD i 0
      pathIndices := p.membershipProof.pathIndices }
  nonMembershipProofs _ _ :=
    { key := p.nonMembershipProof.key
      siblings := fun i => p.nonMembershipProof.siblings.getD i 0
      oldKey := p.nonMembershipProof.oldKey
      oldValue := p.nonMembershipProof.oldValue
      isOld0 := if p.nonMembershipProof.isOld0 then 1 else 0 }
  inAmount slot := noteAmountToField (slotInput D p slot).amount
  inPrivateKey _ := p.privKey.scalar
  inBlinding slot := (slotInput D p slot).blinding
  inPathIndices slot := (slotInput D p slot).merklePathIndices
  inPathElements slot i := (slotInput D p slot).merklePathElements.getD i 0
  outAmount slot := noteAmountToField (slotOutput D p slot).amount
  outPubkey := recipientPubkey H D p
  outBlinding slot := (slotOutput D p slot).blinding

end Assignment

section Reading

variable {H : Hasher} {X : Cipher} {D : Draws} {p : TransactParams} {parseBytes : String → Nat → Option Int}

def signalNames : List String :=
  ["root", "publicAmount", "inputNullifier", "outputCommitment", "inAmount", "inPrivateKey", "inBlinding",
    "inPathIndices", "inPathElements", "outAmount", "outPubkey", "outBlinding", "membershipRoots", "nonMembershipRoots",
    "membershipProofs[0][0].leaf", "membershipProofs[0][0].blinding", "membershipProofs[0][0].pathIndices",
    "membershipProofs[0][0].pathElements", "membershipProofs[0][0].root", "nonMembershipProofs[0][0].key",
    "nonMembershipProofs[0][0].oldKey", "nonMembershipProofs[0][0].oldValue", "nonMembershipProofs[0][0].isOld0",
    "nonMembershipProofs[0][0].siblings", "nonMembershipProofs[0][0].root", "membershipProofs[1][0].leaf",
    "membershipProofs[1][0].blinding", "membershipProofs[1][0].pathIndices", "membershipProofs[1][0].pathElements",
    "membershipProofs[1][0].root", "nonMembershipProofs[1][0].key", "nonMembershipProofs[1][0].oldKey",
    "nonMembershipProofs[1][0].oldValue", "nonMembershipProofs[1][0].isOld0", "nonMembershipProofs[1][0].siblings",
    "nonMembershipProofs[1][0].root", "extDataHash"]

theorem map_fst_transactSignals (H : Hasher) (D : Draws) (p : TransactParams) (x : Fr) :
    (transactSignals H D p x).map Prod.fst = signalNames := rfl

theorem signalNames_nodup : signalNames.Nodup := by decide

theorem map_getD_range {xs : List Fr} {n : Nat} (length : xs.length = n) :
    (List.range n).map (fun i => xs.getD i 0) = xs := by
  subst length
  apply List.ext_getElem
  · rw [List.length_map, List.length_range]
  · intro i inLeft inRight
    rw [List.getElem_map, List.getElem_range, List.getD_eq_getElem _ _ inRight]

theorem circuitInputs_built (policy : List (String × InputValue)) (hash : Bytes) :
    (built H X D p policy hash).circuitInputs = .ofCalls (builtCalls H X D p policy hash) := by
  rw [built]

theorem assigns_built (reads : ReadsHex parseBytes) (ready : Ready p) {policy : List (String × InputValue)}
    (sets : Sets policy (policySignals p.membershipProof p.nonMembershipProof)) {hash : Bytes} {x : Fr}
    (spells : be32To0xHex hash = scalarToHex x) :
    ∃ m, Witness.inputsHashmap parseBytes (built H X D p policy hash).circuitInputs.toJson = .ok m ∧
      Assigns m (Pool.circuitSize p.treeDepth p.smtDepth) (assignment H D p x) := by
  have distinct : ((transactSignals H D p x).map Prod.fst).Nodup := by
    rw [map_fst_transactSignals]
    exact signalNames_nodup
  obtain ⟨m, run, lists⟩ := CircuitInputs.reads_ofCalls reads (sets_builtCalls (H := H) X D p sets spells) distinct
  have read {name : String} (element : Fr) (rest : List Fr)
      (member : (name, element :: rest) ∈ transactSignals H D p x) :
      m name = valuesOf (element :: rest) := lists name (element :: rest) member (List.cons_ne_nil _ _)
  have paths {name : String} {path : List Fr} {n : Nat} (length : path.length = n) (positive : n ≠ 0)
      (member : (name, path) ∈ transactSignals H D p x) :
      m name = valuesOf ((List.range n).map fun i => path.getD i 0) := by
    rw [map_getD_range length]
    refine lists name path member fun empty => positive ?_
    rw [← length, empty]
    rfl
  have member {n : Nat} {name : String} {elements : List Fr}
      (here : (transactSignals H D p x)[n]? = some (name, elements)) : (name, elements) ∈ transactSignals H D p x :=
    List.mem_of_getElem? here
  have positive := ready.levels
  rw [circuitInputs_built]
  refine ⟨m, run, ?_⟩
  exact
    { root := read _ _ (member (n := 0) rfl)
      publicAmount := read _ _ (member (n := 1) rfl)
      extDataHash := read _ _ (member (n := 36) rfl)
      inputNullifier := read _ _ (member (n := 2) rfl)
      outputCommitment := read _ _ (member (n := 3) rfl)
      membershipRoots := read _ _ (member (n := 12) rfl)
      nonMembershipRoots := read _ _ (member (n := 13) rfl)
      membershipProofs := by
        intro tx low i first
        obtain rfl : i = 0 := Nat.lt_one_iff.mp first
        obtain rfl | rfl : tx = 0 ∨ tx = 1 := Nat.le_one_iff_eq_zero_or_eq_one.mp (Nat.le_of_lt_succ low)
        · exact ⟨read _ _ (member (n := 14) rfl), read _ _ (member (n := 15) rfl),
            paths ready.membershipPath ready.levels (member (n := 17) rfl), read _ _ (member (n := 16) rfl)⟩
        · exact ⟨read _ _ (member (n := 25) rfl), read _ _ (member (n := 26) rfl),
            paths ready.membershipPath ready.levels (member (n := 28) rfl), read _ _ (member (n := 27) rfl)⟩
      nonMembershipProofs := by
        intro tx low i first
        obtain rfl : i = 0 := Nat.lt_one_iff.mp first
        obtain rfl | rfl : tx = 0 ∨ tx = 1 := Nat.le_one_iff_eq_zero_or_eq_one.mp (Nat.le_of_lt_succ low)
        · exact ⟨read _ _ (member (n := 19) rfl), paths ready.siblings ready.smtLevels (member (n := 23) rfl),
            read _ _ (member (n := 20) rfl), read _ _ (member (n := 21) rfl), read _ _ (member (n := 22) rfl)⟩
        · exact ⟨read _ _ (member (n := 30) rfl), paths ready.siblings ready.smtLevels (member (n := 34) rfl),
            read _ _ (member (n := 31) rfl), read _ _ (member (n := 32) rfl), read _ _ (member (n := 33) rfl)⟩
      inAmount := read _ _ (member (n := 4) rfl)
      inPrivateKey := read _ _ (member (n := 5) rfl)
      inBlinding := read _ _ (member (n := 6) rfl)
      inPathIndices := read _ _ (member (n := 7) rfl)
      inPathElements := by
        have rows : ((List.range 2).flatMap fun tx => (slotInput D p tx).merklePathElements) =
            (List.range 2).flatMap fun tx =>
              (List.range p.treeDepth).map fun i => (slotInput D p tx).merklePathElements.getD i 0 :=
          congrArg List.flatten (List.map_congr_left
            fun tx _ => (map_getD_range (shapes_slotInput ready.shapes tx)).symm)
        have filled : ((List.range 2).flatMap fun tx => (slotInput D p tx).merklePathElements) ≠ [] := by
          intro empty
          have first := List.flatMap_eq_nil_iff.mp empty 0 (List.mem_range.mpr Nat.two_pos)
          rw [← shapes_slotInput ready.shapes 0, first] at positive
          exact positive rfl
        refine (lists _ _ (member (n := 8) rfl) filled).trans ?_
        rw [rows]
        rfl
      outAmount := read _ _ (member (n := 9) rfl)
      outPubkey := read _ _ (member (n := 10) rfl)
      outBlinding := read _ _ (member (n := 11) rfl) }

end Reading

def spentInputs (H : Hasher) (p : TransactParams) (inp : TransactInputNote) : MerkleProof.Inputs where
  leaf := computeCommitment H (noteAmountToField inp.amount) (senderPubkey H p) inp.blinding
  pathElements i := inp.merklePathElements.getD i 0
  pathIndices := inp.merklePathIndices

def memberInputs (proof : AspMembershipProof) : MerkleProof.Inputs where
  leaf := proof.leaf
  pathElements i := proof.pathElements.getD i 0
  pathIndices := proof.pathIndices

/-- An input whose path leads to the pool's root; one without an amount leads nowhere. -/
structure Spendable (H : Hasher) (p : TransactParams) (inp : TransactInputNote) : Prop where
  fits : inp.merklePathIndices.val < 2 ^ p.treeDepth
  opens : inp.amount ≠ 0 →
    MerkleProof.walkTo H (spentInputs H p inp) inp.merklePathIndices.val p.treeDepth = p.poolRoot

/-- A proof that the sender is in the membership tree. -/
structure MembershipProven (H : Hasher) (p : TransactParams) : Prop where
  leaf : p.membershipProof.leaf = H.hash2 (senderPubkey H p) p.membershipProof.blinding 1
  fits : p.membershipProof.pathIndices.val < 2 ^ p.treeDepth
  walks : MerkleProof.walkTo H (memberInputs p.membershipProof) p.membershipProof.pathIndices.val p.treeDepth =
    p.membershipProof.root

/-- A proof that the sender is not in the non-membership tree. -/
structure AbsenceProven (H : Hasher) (p : TransactParams) : Prop where
  key : p.nonMembershipProof.key = senderPubkey H p
  compiles : 2 ≤ p.smtDepth ∧ p.smtDepth ≤ 254
  climbs : ∃ L, L < p.smtDepth ∧
    InsertionLevel p.smtDepth (fun i => p.nonMembershipProof.siblings.getD i 0) L ∧
    p.nonMembershipProof.root = climb H (SMTVerifier.bitsFrom p.nonMembershipProof.key 0 L)
      (SMTVerifier.siblingsFrom (fun i => p.nonMembershipProof.siblings.getD i 0) 0 L)
      (SMTVerifier.startOf H (circuitInputs p.nonMembershipProof))
  apart : p.nonMembershipProof.isOld0 = true ∨ p.nonMembershipProof.oldKey ≠ p.nonMembershipProof.key

/-- What the builder takes on trust: the proofs, and that its two nullifiers differ. -/
structure Proven (H : Hasher) (D : Draws) (p : TransactParams) : Prop where
  inputs : ∀ inp ∈ p.inputs, Spendable H p inp
  membership : MembershipProven H p
  nonMembership : AbsenceProven H p
  nullifiers : slotNullifier H D p 0 ≠ slotNullifier H D p 1

section Usable

variable {H : Hasher} {D : Draws} {p : TransactParams} {x : Fr}

theorem exists_slotInput (few : p.inputs.length ≤ 2) {inp : TransactInputNote} (member : inp ∈ p.inputs) :
    ∃ slot, slot < 2 ∧ slotInput D p slot = inp := by
  obtain ⟨slot, low, found⟩ := List.getElem_of_mem member
  refine ⟨slot, by omega, ?_⟩
  rw [slotInput, List.getD_eq_getElem _ _ low]
  exact found

/-- A dummy leads nowhere. -/
theorem spendable_slotInput (inputs : ∀ inp ∈ p.inputs, Spendable H p inp) (slot : Nat) :
    Spendable H p (slotInput D p slot) := by
  rw [slotInput, List.getD_eq_getElem?_getD]
  cases found : p.inputs[slot]? with
  | none =>
    exact
      { fits := by
          change (0 : Fr).val < _
          rw [ZMod.val_zero]
          exact Nat.two_pow_pos _
        opens := fun amount => absurd rfl amount }
  | some inp => exact inputs inp (List.mem_of_getElem? found)

theorem val_noteAmountToField (amount : NoteAmount) : (noteAmountToField amount).val = amount.toNat :=
  ZMod.val_natCast_of_lt (amount.isLt.trans (by decide))

theorem noteAmountToField_eq_zero {amount : NoteAmount} : noteAmountToField amount = 0 ↔ amount = 0 := by
  rw [← ZMod.val_eq_zero, val_noteAmountToField, BitVec.toNat_eq]
  rfl

theorem sum_padded {α : Type} {items : List α} (few : items.length ≤ 2) (dummy : Nat → α) (amount : α → NoteAmount)
    (nothing : ∀ slot, amount (dummy slot) = 0) :
    ∑ slot ∈ Finset.range 2, noteAmountToField (amount (items.getD slot (dummy slot))) =
      (((items.map fun item => (amount item).toNat).sum : Nat) : Fr) := by
  have zero : noteAmountToField 0 = 0 := Nat.cast_zero
  rw [Finset.sum_range_succ, Finset.sum_range_one]
  rcases items with _ | ⟨first, _ | ⟨second, _ | ⟨third, rest⟩⟩⟩
  · simp only [List.getD_nil, nothing, zero, List.map_nil, List.sum_nil, Nat.cast_zero, add_zero]
  · simp only [List.getD_cons_zero, List.getD_cons_succ, List.getD_nil, nothing, zero, List.map_cons, List.map_nil,
      List.sum_cons, List.sum_nil, add_zero]
    rfl
  · simp only [List.getD_cons_zero, List.getD_cons_succ, List.map_cons, List.map_nil, List.sum_cons, List.sum_nil,
      add_zero, Nat.cast_add]
    rfl
  · rw [List.length_cons, List.length_cons, List.length_cons] at few
    omega

theorem publicAmount_eq (p : TransactParams) : publicAmount p = (p.extAmount.toInt : Fr) := by
  have bounds := toInt_bounds p.extAmount
  have small : (2 : Int) ^ 127 < bn256Modulus := by decide +kernel
  have below := (publicAmountValue_lt p.extAmount).trans (bn256Modulus_lt.trans (by decide : 2 ^ 254 < 2 ^ 256))
  rw [publicAmount, ofU256, BitVec.toNat_ofNat, Nat.mod_eq_of_lt below, ← Int.cast_natCast, publicAmountValue]
  split
  next positive => rw [Int.toNat_of_nonneg positive]
  next negative =>
    have value : ((bn256Modulus - p.extAmount.toInt.natAbs : Nat) : Int) = bn256Modulus + p.extAmount.toInt := by omega
    rw [value, Int.cast_add, Int.cast_natCast, ZMod.natCast_self, zero_add]

theorem balance_slots (ready : Ready p) :
    ∑ slot ∈ Finset.range 2, noteAmountToField (slotInput D p slot).amount + publicAmount p =
      ∑ slot ∈ Finset.range 2, noteAmountToField (slotOutput D p slot).amount := by
  have ins := sum_padded ready.inputsFew (dummyInput D p.treeDepth) (·.amount) fun _ => rfl
  have outs := sum_padded ready.outputsFew (dummyOutput D) (·.amount) fun _ => rfl
  have balance := congrArg (fun n : Int => (n : Fr)) ready.balanced.balance
  change ((inputTotal p.inputs : Int) + p.extAmount.toInt : Int) =
    (((outputTotal p.outputs : Nat) : Int) : Fr) at balance
  rw [Int.cast_add, Int.cast_natCast, Int.cast_natCast] at balance
  refine (congrArg₂ (· + ·) ins (publicAmount_eq p)).trans ?_
  exact balance.trans outs.symm

theorem ite_bit (b : Bool) : (if b then (1 : Fr) else 0) = 0 ∨ (if b then (1 : Fr) else 0) = 1 := by
  cases b
  · exact Or.inl rfl
  · exact Or.inr rfl

theorem Proven.valid (proven : Proven H D p) (ready : Ready p) : ∃ insertion,
    PolicyTransaction.Valid H (Pool.circuitSize p.treeDepth p.smtDepth) (assignment H D p x) insertion := by
  obtain ⟨L, below, level, climbs⟩ := proven.nonMembership.climbs
  refine ⟨fun _ _ => L, ?_⟩
  exact
    { levels := Nat.pos_of_ne_zero ready.levels
      smtLevels := proven.nonMembership.compiles
      inputs := fun slot _ =>
        { nullifier := rfl
          fits := (spendable_slotInput proven.inputs slot).fits
          opens := fun amount => (spendable_slotInput proven.inputs slot).opens fun none =>
            amount (noteAmountToField_eq_zero.mpr none)
          membership := fun _ _ =>
            { leaf := proven.membership.leaf
              fits := proven.membership.fits
              walks := proven.membership.walks }
          nonMembership := fun _ _ =>
            { key := proven.nonMembership.key
              bit := ite_bit p.nonMembershipProof.isOld0
              below := below
              level := level
              climbs := climbs
              apart := by
                refine proven.nonMembership.apart.imp_left fun isOld0 => ?_
                change (if p.nonMembershipProof.isOld0 then (1 : Fr) else 0) = 1
                rw [isOld0]
                rfl } }
      commitments := fun _ _ => rfl
      amounts := fun slot _ => by
        change (noteAmountToField (slotOutput D p slot).amount).val < _
        rw [val_noteAmountToField]
        exact (slotOutput D p slot).amount.isLt.trans (by decide)
      nullifiers := fun i j before low => by
        obtain ⟨rfl, rfl⟩ : i = 0 ∧ j = 1 := by
          change j < 2 at low
          omega
        exact proven.nullifiers
      balance := balance_slots ready }

theorem proven_of_valid (ready : Ready p) {insertion : Nat → Nat → Nat}
    (valid : PolicyTransaction.Valid H (Pool.circuitSize p.treeDepth p.smtDepth) (assignment H D p x) insertion) :
    Proven H D p := by
  have first := valid.inputs 0 Nat.two_pos
  have member := first.membership 0 Nat.one_pos
  have absent := first.nonMembership 0 Nat.one_pos
  exact
    { inputs := fun inp isInput => by
        obtain ⟨slot, low, rfl⟩ := exists_slotInput (D := D) ready.inputsFew isInput
        have input := valid.inputs slot low
        exact
          { fits := input.fits
            opens := fun amount => input.opens fun zero => amount (noteAmountToField_eq_zero.mp zero) }
      membership := ⟨member.leaf, member.fits, member.walks⟩
      nonMembership :=
        { key := absent.key
          compiles := valid.smtLevels
          climbs := ⟨insertion 0 0, absent.below, absent.level, absent.climbs⟩
          apart := by
            refine absent.apart.imp_left fun isOne => ?_
            by_contra other
            have isZero : (if p.nonMembershipProof.isOld0 then (1 : Fr) else 0) = 0 := if_neg other
            exact zero_ne_one (isZero.symm.trans isOne) }
      nullifiers := valid.nullifiers 0 1 Nat.zero_lt_one (Nat.lt_succ_self 1) }

/-- The circuit has signals for what the builder sets just where the proofs it was given hold. -/
theorem exists_satisfied_iff_proven {C : Circomlib} (lib : C.Published) (ready : Ready p)
    (small : 2 ^ p.treeDepth ≤ bn256Modulus) :
    (∃ w, PolicyTransaction.Satisfied C H (Pool.circuitSize p.treeDepth p.smtDepth) (assignment H D p x) w) ↔
      Proven H D p := by
  constructor
  · rintro ⟨w, satisfied⟩
    obtain ⟨insertion, valid⟩ :=
      PolicyTransaction.exists_valid_of_satisfied lib ⟨Nat.two_pos, Nat.one_pos⟩ small satisfied
    exact proven_of_valid ready valid
  · intro proven
    obtain ⟨insertion, valid⟩ := proven.valid ready
    exact ⟨_, valid.satisfied lib⟩

end Usable

section Samples

variable {H : Hasher} {empty : Fr}

/-- The parameters of the withdrawal of 4 from a note of 9. -/
def spendParams (H : Hasher) (empty : Fr) : TransactParams :=
  let x := PolicyTransaction.firstSpend H empty 0
  { privKey := ⟨toLeBytes 32 1, length_toLeBytes 32 1⟩
    encryptionPubkey := ⟨toLeBytes 32 9, length_toLeBytes 32 9⟩
    poolRoot := x.root
    extRecipient := "GAAAAAAAAAAAAAAAAAAAAAAAAAAAAAAAAAAAAAAAAAAAAAAAAAAAGO6V"
    extAmount := -4
    inputs := [⟨9, 4, (List.range 2).map (x.inPathElements 0), 0⟩]
    outputs := [⟨5, 3, none, none⟩, ⟨0, 9, none, none⟩]
    membershipProof :=
      { leaf := (x.membershipProofs 0 0).leaf
        blinding := (x.membershipProofs 0 0).blinding
        pathElements := (List.range 2).map (x.membershipProofs 0 0).pathElements
        pathIndices := 0
        root := x.membershipRoots 0 0 }
    nonMembershipProof :=
      { key := (x.nonMembershipProofs 0 0).key
        oldKey := (x.nonMembershipProofs 0 0).oldKey
        oldValue := (x.nonMembershipProofs 0 0).oldValue
        isOld0 := false
        siblings := [0, 0]
        root := x.nonMembershipRoots 0 0 }
    treeDepth := 2
    smtDepth := 2 }

def spendDraws : Draws where
  inputBlinding _ := 7
  outputBlinding _ := 0
  changeBlinding _ := 0
  encryption _ := { ephemeralSecret := [], nonce := List.replicate 24 0 }

theorem spendParams_ready (H : Hasher) (empty : Fr) : Ready (spendParams H empty) where
  levels := Nat.succ_ne_zero 1
  smtLevels := Nat.succ_ne_zero 1
  membershipPath := rfl
  siblings := rfl
  outputsFew := Nat.le_refl 2
  balanced :=
    { inputsFit := show 9 < 2 ^ 128 by decide
      outputsFit := show 5 < 2 ^ 128 by decide
      negatable := show (-4 : ExtAmount) ≠ BitVec.intMin 128 by decide
      balance := show (9 : Int) + (-4 : ExtAmount).toInt = 5 by decide }
  inputsFew := Nat.le_succ 1
  shapes := List.forall_mem_singleton.mpr rfl
  recipients := List.forall_mem_cons.mpr ⟨rfl, List.forall_mem_singleton.mpr rfl⟩

theorem spendParams_pubkey : senderPubkey H (spendParams H empty) = keypair H 1 := by
  have one : (spendParams H empty).privKey.scalar = 1 :=
    show (⟨toLeBytes 32 1, length_toLeBytes 32 1⟩ : Key).scalar = 1 by decide
  rw [senderPubkey, one]
  rfl

theorem spendParams_proven (notBlocked : keypair H 1 ≠ 7)
    (apart : slotNullifier H spendDraws (spendParams H empty) 0 ≠ slotNullifier H spendDraws (spendParams H empty) 1) :
    Proven H spendDraws (spendParams H empty) where
  inputs := List.forall_mem_singleton.mpr
    { fits := show 0 < 4 by decide
      opens := fun _ => by
        refine (PolicyTransaction.walkTo_first _).trans ?_
        change H.compress (H.compress (H.hash3 _ (senderPubkey H _) _ 1) _) _ = _
        rw [spendParams_pubkey]
        rfl }
  membership :=
    { leaf := by
        rw [spendParams_pubkey]
        rfl
      fits := show 0 < 4 by decide
      walks := PolicyTransaction.walkTo_first _ }
  nonMembership :=
    { key := spendParams_pubkey.symm
      compiles := ⟨Nat.le_refl 2, show 2 ≤ 254 by decide⟩
      climbs := by
        refine ⟨0, Nat.two_pos, ⟨fun j _ low => ?_, fun above => absurd above (Nat.lt_irrefl 0)⟩, ?_⟩
        · change j < 2 at low
          interval_cases j
          · rfl
          · rfl
        · rw [SMTVerifier.climb_zero, SMTVerifier.startOf]
          change H.hash2 7 9 1 = H.hash2 7 9 1 * (1 - 0)
          rw [sub_zero, mul_one]
      apart := Or.inr fun same => notBlocked same.symm }
  nullifiers := apart

theorem exists_satisfied_iff_proven_spend : ∃ w, PolicyTransaction.Satisfied Circomlib.standard poseidon2
    (Pool.circuitSize 2 2) (assignment poseidon2 spendDraws (spendParams poseidon2 0) 7) w :=
  (exists_satisfied_iff_proven Circomlib.standard_published (spendParams_ready poseidon2 0) (by decide)).mpr
    (spendParams_proven (by decide +kernel) (by decide +kernel))

end Samples

end PrivatePayments.Prover
