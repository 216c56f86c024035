import PrivatePayments.Circuits.Notes

/-!
The signals a prover computes for `PolicyTransaction`, and exactly which
inputs have signals that satisfy it.
-/

namespace PrivatePayments.Circuits.PolicyTransaction
open Bn254 Poseidon2 Library
open Merkle (zeroAt)

variable {C : Circomlib}

section Honest

variable (H : Hasher) (size : Size) (x : Inputs) (insertion : Nat → Nat → Nat)

/-- What the tree of an input reads when its commitment is computed. -/
def spentLeaf (tx : Nat) : MerkleProof.Inputs where
  leaf := (inNote H x tx).commitment H
  pathElements := x.inPathElements tx
  pathIndices := x.inPathIndices tx

/-- What the non-membership check of an input reads when `isOld0` is a bit. -/
def absence (tx i : Nat) : SMTVerifier.Inputs where
  enabled := 1
  root := x.nonMembershipRoots tx i
  siblings := (x.nonMembershipProofs tx i).siblings
  oldKey := (x.nonMembershipProofs tx i).oldKey
  oldValue := (x.nonMembershipProofs tx i).oldValue
  isOld0 := (x.nonMembershipProofs tx i).isOld0
  key := (x.nonMembershipProofs tx i).key
  value := (x.nonMembershipProofs tx i).key
  fnc := 1

/-- The signals a prover computes, with the insertion level of each non-membership proof. -/
def honest : Signals where
  inKeypair tx := keypair H (x.inPrivateKey tx)
  inCommitmentHasher tx := (inNote H x tx).commitment H
  inSignature tx := signature H (x.inPrivateKey tx) ((inNote H x tx).commitment H) (x.inPathIndices tx)
  inNullifierHasher tx := nullifier H (x.inPrivateKey tx) ((inNote H x tx).commitment H) (x.inPathIndices tx)
  inTree tx := MerkleProof.honest H size.levels (spentLeaf H x tx)
  policyMembershipHasher tx i := H.hash2 (keypair H (x.inPrivateKey tx)) (x.membershipProofs tx i).blinding 1
  membershipVerifiers tx i := MerkleProof.honest H size.levels (membershipVerifier x tx i)
  n2bs tx i _ := (x.nonMembershipProofs tx i).isOld0
  nonMembershipVerifiers tx i := SMTVerifier.honest H size.smtLevels (absence x tx i) (insertion tx i)
  outCommitmentHasher tx := (outNote x tx).commitment H
  outAmountCheck tx i := if (x.outAmount tx).val.testBit i then 1 else 0
  sameNullifiers i j := if x.inputNullifier i = x.inputNullifier j then 1 else 0
  extDataSquare := x.extDataHash * x.extDataHash

structure MembershipValid (tx i : Nat) : Prop where
  leaf : (x.membershipProofs tx i).leaf = H.hash2 (keypair H (x.inPrivateKey tx)) (x.membershipProofs tx i).blinding 1
  fits : (x.membershipProofs tx i).pathIndices.val < 2 ^ size.levels
  walks : MerkleProof.walkTo H (membershipVerifier x tx i) (x.membershipProofs tx i).pathIndices.val size.levels =
    x.membershipRoots tx i

/-- A non-membership proof of the owner of an input: a climb to the root from zero or from another key. -/
structure NonMembershipValid (tx i : Nat) : Prop where
  key : (x.nonMembershipProofs tx i).key = keypair H (x.inPrivateKey tx)
  bit : (x.nonMembershipProofs tx i).isOld0 = 0 ∨ (x.nonMembershipProofs tx i).isOld0 = 1
  below : insertion tx i < size.smtLevels
  level : InsertionLevel size.smtLevels (x.nonMembershipProofs tx i).siblings (insertion tx i)
  climbs : x.nonMembershipRoots tx i =
    climb H (SMTVerifier.bitsFrom (x.nonMembershipProofs tx i).key 0 (insertion tx i))
      (SMTVerifier.siblingsFrom (x.nonMembershipProofs tx i).siblings 0 (insertion tx i))
      (SMTVerifier.startOf H (absence x tx i))
  apart : (x.nonMembershipProofs tx i).isOld0 = 1 ∨
    (x.nonMembershipProofs tx i).oldKey ≠ (x.nonMembershipProofs tx i).key

/-- An input that a prover can use; its note is in the tree unless its amount is zero. -/
structure InputValid (tx : Nat) : Prop where
  nullifier : x.inputNullifier tx =
    nullifier H (x.inPrivateKey tx) ((inNote H x tx).commitment H) (x.inPathIndices tx)
  fits : (x.inPathIndices tx).val < 2 ^ size.levels
  opens : x.inAmount tx ≠ 0 → MerkleProof.walkTo H (spentLeaf H x tx) (x.inPathIndices tx).val size.levels = x.root
  membership : ∀ i, i < size.nMembershipProofs → MembershipValid H size x tx i
  nonMembership : ∀ i, i < size.nNonMembershipProofs → NonMembershipValid H size x insertion tx i

/-- Inputs that a prover can use. -/
structure Valid : Prop where
  levels : 0 < size.levels
  smtLevels : 2 ≤ size.smtLevels ∧ size.smtLevels ≤ 254
  inputs : ∀ tx, tx < size.nIns → InputValid H size x insertion tx
  commitments : ∀ tx, tx < size.nOuts → x.outputCommitment tx = (outNote x tx).commitment H
  amounts : ∀ tx, tx < size.nOuts → (x.outAmount tx).val < 2 ^ 248
  nullifiers : ∀ i j, i < j → j < size.nIns → x.inputNullifier i ≠ x.inputNullifier j
  balance : ∑ tx ∈ Finset.range size.nIns, x.inAmount tx + x.publicAmount =
    ∑ tx ∈ Finset.range size.nOuts, x.outAmount tx

end Honest

variable {H : Hasher} {size : Size} {x : Inputs} {insertion : Nat → Nat → Nat} {tx i : Nat}

theorem MembershipValid.satisfied (lib : C.Published) (valid : MembershipValid H size x tx i)
    (levels : 0 < size.levels) :
    MembershipSatisfied C H size.levels x (honest H size x insertion) tx i where
  hasher := rfl
  leaf := valid.leaf
  verifier := MerkleProof.honest_satisfied lib H levels valid.fits
  root := valid.walks

theorem bits_of_bit {input : Fr} (bit : input = 0 ∨ input = 1) : Bits 1 input fun _ => input := by
  refine ⟨fun _ _ => bit, ?_⟩
  rw [Finset.sum_range_one, pow_zero, mul_one]

theorem NonMembershipValid.satisfied (lib : C.Published) (valid : NonMembershipValid H size x insertion tx i)
    (smtLevels : 2 ≤ size.smtLevels ∧ size.smtLevels ≤ 254) :
    NonMembershipSatisfied C H size.smtLevels x (honest H size x insertion) tx i where
  key := valid.key
  n2bs := (lib.num2Bits _ _ _).mpr (bits_of_bit valid.bit)
  verifier := SMTVerifier.honest_satisfied lib H smtLevels rfl rfl valid.below valid.level valid.climbs valid.apart

theorem InputValid.satisfied (lib : C.Published) (valid : InputValid H size x insertion tx) (levels : 0 < size.levels)
    (smtLevels : 2 ≤ size.smtLevels ∧ size.smtLevels ≤ 254) :
    InputSatisfied C H size x (honest H size x insertion) tx where
  inKeypair := rfl
  inCommitmentHasher := rfl
  inSignature := rfl
  inNullifierHasher := rfl
  inputNullifier := valid.nullifier.symm
  inTree := MerkleProof.honest_satisfied lib H levels valid.fits
  inCheckRoot := (lib.forceEqualIfEnabled _ _ _).mpr fun amount => (valid.opens amount).symm
  membership i low := (valid.membership i low).satisfied lib levels
  nonMembership i low := (valid.nonMembership i low).satisfied lib smtLevels

theorem Valid.satisfied (lib : C.Published) (valid : Valid H size x insertion) :
    Satisfied C H size x (honest H size x insertion) where
  inputs tx low := (valid.inputs tx low).satisfied lib valid.levels valid.smtLevels
  outputs tx low :=
    { outCommitmentHasher := rfl
      outputCommitment := (valid.commitments tx low).symm
      outAmountCheck := (lib.num2Bits _ _ _).mpr (bits_of_digits (valid.amounts tx low)).1 }
  sameNullifiers i j before low :=
    ⟨(lib.isEqual _ _ _).mpr rfl, if_neg (valid.nullifiers i j before low)⟩
  amounts := valid.balance
  extDataSquare := rfl

section Converse

variable {w : Signals}

theorem MembershipSatisfied.valid (lib : C.Published) (sat : MembershipSatisfied C H size.levels x w tx i)
    (isKeypair : w.inKeypair tx = keypair H (x.inPrivateKey tx)) (small : 2 ^ size.levels ≤ bn256Modulus) :
    MembershipValid H size x tx i where
  leaf := by rw [sat.leaf, sat.hasher, isKeypair]
  fits := (sat.verifier.walks lib small).1
  walks := (sat.verifier.walks lib small).2.1.symm.trans sat.root

/-- What a satisfied check of a non-membership proof says of the proof, at some level. -/
theorem NonMembershipSatisfied.valid (lib : C.Published) (sat : NonMembershipSatisfied C H size.smtLevels x w tx i)
    (isKeypair : w.inKeypair tx = keypair H (x.inPrivateKey tx)) :
    ∃ L, ∀ insertion : Nat → Nat → Nat, insertion tx i = L → NonMembershipValid H size x insertion tx i := by
  have bits := (lib.num2Bits _ _ _).mp sat.n2bs
  have bit : w.n2bs tx i 0 = (x.nonMembershipProofs tx i).isOld0 := by
    have value := bits.2
    rwa [Finset.sum_range_one, pow_zero, mul_one] at value
  have read : nonMembershipVerifier x w tx i = absence x tx i := by
    rw [nonMembershipVerifier, bit]
    rfl
  have verifier := sat.verifier
  rw [read] at verifier
  obtain ⟨L, below, level, climbs, -, apart⟩ := verifier.climbs lib rfl rfl
  refine ⟨L, fun insertion here => ?_⟩
  subst here
  exact
    { key := sat.key.trans isKeypair
      bit := bit ▸ bits.1 0 Nat.one_pos
      below := below
      level := level
      climbs := climbs
      apart := apart }

/-- Signals that satisfy the circuit tell where the leaf of each non-membership proof is inserted. -/
theorem exists_valid_of_satisfied (lib : C.Published) {size : Size} {x : Inputs} {w : Signals}
    (checked : 0 < size.nIns ∧ 0 < size.nNonMembershipProofs) (small : 2 ^ size.levels ≤ bn256Modulus)
    (sat : Satisfied C H size x w) : ∃ insertion, Valid H size x insertion := by
  have levels (tx i : Nat) : ∃ L, tx < size.nIns → i < size.nNonMembershipProofs →
      ∀ insertion : Nat → Nat → Nat, insertion tx i = L → NonMembershipValid H size x insertion tx i := by
    by_cases low : tx < size.nIns ∧ i < size.nNonMembershipProofs
    · obtain ⟨L, valid⟩ := ((sat.inputs tx low.1).nonMembership i low.2).valid lib (sat.inputs tx low.1).inKeypair
      exact ⟨L, fun _ _ => valid⟩
    · exact ⟨0, fun first second => absurd ⟨first, second⟩ low⟩
  choose insertion valid using levels
  exact ⟨insertion,
    { levels := (sat.inputs 0 checked.1).inTree.compiles
      smtLevels := ((sat.inputs 0 checked.1).nonMembership 0 checked.2).verifier.compiles
      inputs := fun tx low =>
        { nullifier := (sat.inputs tx low).nullifier_eq
          fits := ((sat.inputs tx low).inTree.walks lib small).1
          opens := fun amount => by
            have ends := ((sat.inputs tx low).inTree.walks lib small).2.1
            have read : inTree x w tx = spentLeaf H x tx := by
              rw [inTree, (sat.inputs tx low).commitment_eq]
              rfl
            rw [read] at ends
            exact ends.symm.trans ((lib.forceEqualIfEnabled _ _ _).mp (sat.inputs tx low).inCheckRoot amount).symm
          membership := fun i inside =>
            ((sat.inputs tx low).membership i inside).valid lib (sat.inputs tx low).inKeypair small
          nonMembership := fun i inside => valid tx i low inside insertion rfl }
      commitments := fun tx low => (sat.outputs tx low).commitment_eq
      amounts := fun tx low => (sat.outputs tx low).amount_lt lib
      nullifiers := fun i j before low => sat.nullifiers_ne lib before low
      balance := sat.amounts }⟩

/-- A prover can use the inputs just where some signals satisfy the circuit. -/
theorem exists_satisfied_iff (lib : C.Published) (H : Hasher) {size : Size} (x : Inputs)
    (checked : 0 < size.nIns ∧ 0 < size.nNonMembershipProofs) (small : 2 ^ size.levels ≤ bn256Modulus) :
    (∃ w, Satisfied C H size x w) ↔ ∃ insertion, Valid H size x insertion := by
  constructor
  · rintro ⟨w, sat⟩
    exact exists_valid_of_satisfied lib checked small sat
  · rintro ⟨insertion, valid⟩
    exact ⟨honest H size x insertion, valid.satisfied lib⟩

end Converse

section Samples

/-- Inputs of the owner of the key 1, who is the only member, while the key 7 is blocked. The path of each input is that
of the leaf at index 0, and empty slots of the trees have the leaf `empty`. -/
def ownInputs (H : Hasher) (empty root publicAmount extDataHash : Fr) (ins outs : Nat → Fr × Fr)
    (elements : Nat → Fr) : Inputs :=
  let pubkey := keypair H 1
  let member := H.hash2 pubkey 5 1
  let spent (tx : Nat) : Note := { amount := (ins tx).1, pubkey := pubkey, blinding := (ins tx).2 }
  let made (tx : Nat) : Note := { amount := (outs tx).1, pubkey := pubkey, blinding := (outs tx).2 }
  { root := root
    publicAmount := publicAmount
    extDataHash := extDataHash
    inputNullifier := fun tx => nullifier H 1 ((spent tx).commitment H) 0
    outputCommitment := fun tx => (made tx).commitment H
    membershipRoots := fun _ _ => H.compress (H.compress member empty) (H.compress empty empty)
    nonMembershipRoots := fun _ _ => H.hash2 7 9 1
    membershipProofs := fun _ _ =>
      { leaf := member, blinding := 5, pathElements := fun i => if i = 0 then empty else H.compress empty empty,
        pathIndices := 0 }
    nonMembershipProofs := fun _ _ => { key := pubkey, siblings := fun _ => 0, oldKey := 7, oldValue := 9, isOld0 := 0 }
    inAmount := fun tx => (ins tx).1
    inPrivateKey := fun _ => 1
    inBlinding := fun tx => (ins tx).2
    inPathIndices := fun _ => 0
    inPathElements := fun _ => elements
    outAmount := fun tx => (outs tx).1
    outPubkey := fun _ => pubkey
    outBlinding := fun tx => (outs tx).2 }

def smallSize : Size where
  nIns := 2
  nOuts := 2
  nMembershipProofs := 1
  nNonMembershipProofs := 1
  levels := 2
  smtLevels := 2

theorem walkTo_first {H : Hasher} (tree : MerkleProof.Inputs) : MerkleProof.walkTo H tree (0 : Fr).val 2 =
    H.compress (H.compress tree.leaf (tree.pathElements 0)) (tree.pathElements 1) := by
  rw [ZMod.val_zero, MerkleProof.walkTo, FullTree.walk, FullTree.walk, FullTree.walk, Nat.zero_testBit,
    Nat.zero_testBit]
  rfl

theorem ownInputs_valid {H : Hasher} {empty root publicAmount extDataHash : Fr} {ins outs : Nat → Fr × Fr}
    {elements : Nat → Fr} {x : Inputs} (isX : ownInputs H empty root publicAmount extDataHash ins outs elements = x)
    (opens : ∀ tx, x.inAmount tx ≠ 0 → H.compress (H.compress ((inNote H x tx).commitment H) (elements 0))
      (elements 1) = root)
    (notBlocked : keypair H 1 ≠ 7) (small : ∀ tx, (outs tx).1.val < 2 ^ 248)
    (apart : x.inputNullifier 0 ≠ x.inputNullifier 1)
    (balance : (ins 0).1 + (ins 1).1 + publicAmount = (outs 0).1 + (outs 1).1) : Valid H smallSize x fun _ _ => 0 where
  levels := Nat.two_pos
  smtLevels := ⟨Nat.le_refl 2, by decide⟩
  inputs tx _ := by
    subst isX
    exact
      { nullifier := rfl
        fits := show 0 < 4 by decide
        opens := fun amount => (walkTo_first _).trans (opens tx amount)
        membership := fun i _ =>
          { leaf := rfl
            fits := show 0 < 4 by decide
            walks := walkTo_first _ }
        nonMembership := fun i _ =>
          { key := rfl
            bit := Or.inl rfl
            below := Nat.two_pos
            level := ⟨fun _ _ _ => rfl, fun above => absurd above (Nat.lt_irrefl 0)⟩
            climbs := by
              rw [SMTVerifier.climb_zero, SMTVerifier.startOf]
              change H.hash2 7 9 1 = H.hash2 7 9 1 * (1 - 0)
              rw [sub_zero, mul_one]
            apart := Or.inr fun same => notBlocked same.symm } }
  commitments tx _ := by
    subst isX
    rfl
  amounts tx _ := by
    subst isX
    exact small tx
  nullifiers i j before low := by
    change j < 2 at low
    obtain rfl : i = 0 := by omega
    obtain rfl : j = 1 := by omega
    exact apart
  balance := by
    subst isX
    change ∑ tx ∈ Finset.range 2, (ins tx).1 + publicAmount = ∑ tx ∈ Finset.range 2, (outs tx).1
    rw [Finset.sum_range_succ, Finset.sum_range_one, Finset.sum_range_succ, Finset.sum_range_one]
    exact balance

/-- A deposit of 9 into the empty tree, with two dummy inputs. -/
def firstDeposit (H : Hasher) (empty extDataHash : Fr) : Inputs :=
  ownInputs H empty (H.compress (H.compress empty empty) (H.compress empty empty)) 9 extDataHash
    (fun tx => (0, if tx = 0 then 2 else 3)) (fun tx => if tx = 0 then (9, 4) else (0, 5)) fun _ => 0

/-- The withdrawal of 4 from the note of the deposit: 5 stay in the pool. -/
def firstSpend (H : Hasher) (empty extDataHash : Fr) : Inputs :=
  let deposit := firstDeposit H empty 0
  ownInputs H empty (H.compress (H.compress (deposit.outputCommitment 0) (deposit.outputCommitment 1))
    (H.compress empty empty))
    (-4) extDataHash (fun tx => if tx = 0 then (9, 4) else (0, 7)) (fun tx => if tx = 0 then (5, 3) else (0, 9))
    fun i => if i = 0 then deposit.outputCommitment 1 else H.compress empty empty

theorem firstDeposit_valid (H : Hasher) (empty extDataHash : Fr) (notBlocked : keypair H 1 ≠ 7)
    (apart : (firstDeposit H empty extDataHash).inputNullifier 0 ≠
      (firstDeposit H empty extDataHash).inputNullifier 1) :
    Valid H smallSize (firstDeposit H empty extDataHash) fun _ _ => 0 := by
  refine ownInputs_valid rfl (fun _ amount => absurd rfl amount) notBlocked (fun tx => ?_) apart (by decide)
  split <;> decide

theorem firstSpend_valid (H : Hasher) (empty extDataHash : Fr) (notBlocked : keypair H 1 ≠ 7)
    (apart : (firstSpend H empty extDataHash).inputNullifier 0 ≠ (firstSpend H empty extDataHash).inputNullifier 1) :
    Valid H smallSize (firstSpend H empty extDataHash) fun _ _ => 0 := by
  refine ownInputs_valid rfl (fun tx amount => ?_) notBlocked (fun tx => ?_) apart (by decide)
  · by_cases first : tx = 0
    · subst first
      rfl
    · refine absurd ?_ amount
      exact congrArg Prod.fst (if_neg first)
  · split <;> decide

theorem exists_satisfied_iff_withdrawal :
    ∃ w, Satisfied Circomlib.standard poseidon2 smallSize (firstSpend poseidon2 (zeroAt 0) 2) w :=
  (exists_satisfied_iff Circomlib.standard_published poseidon2 (firstSpend poseidon2 (zeroAt 0) 2)
    ⟨Nat.two_pos, Nat.one_pos⟩ (by decide)).mpr
    ⟨fun _ _ => 0, firstSpend_valid poseidon2 (zeroAt 0) 2 (by decide +kernel) (by decide +kernel)⟩

end Samples

end PrivatePayments.Circuits.PolicyTransaction
