import PrivatePayments.Circuits.MerkleProof
import PrivatePayments.Circuits.SmtVerifier

/-!
`PolicyTransaction` as a system of constraints: the inputs and their policy proofs, the
outputs, the nullifiers and the balance.
-/

namespace PrivatePayments.Circuits
open Bn254 Poseidon2

namespace PolicyTransaction

structure Size where
  nIns : Nat
  nOuts : Nat
  nMembershipProofs : Nat
  nNonMembershipProofs : Nat
  levels : Nat
  smtLevels : Nat

structure MembershipProof where
  leaf : Fr
  blinding : Fr
  pathElements : Nat → Fr
  pathIndices : Fr

structure NonMembershipProof where
  key : Fr
  siblings : Nat → Fr
  oldKey : Fr
  oldValue : Fr
  isOld0 : Fr

structure Inputs where
  root : Fr
  publicAmount : Fr
  extDataHash : Fr
  inputNullifier : Nat → Fr
  outputCommitment : Nat → Fr
  membershipRoots : Nat → Nat → Fr
  nonMembershipRoots : Nat → Nat → Fr
  membershipProofs : Nat → Nat → MembershipProof
  nonMembershipProofs : Nat → Nat → NonMembershipProof
  inAmount : Nat → Fr
  inPrivateKey : Nat → Fr
  inBlinding : Nat → Fr
  inPathIndices : Nat → Fr
  inPathElements : Nat → Nat → Fr
  outAmount : Nat → Fr
  outPubkey : Nat → Fr
  outBlinding : Nat → Fr

structure Signals where
  inKeypair : Nat → Fr
  inCommitmentHasher : Nat → Fr
  inSignature : Nat → Fr
  inNullifierHasher : Nat → Fr
  inTree : Nat → MerkleProof.Signals
  policyMembershipHasher : Nat → Nat → Fr
  membershipVerifiers : Nat → Nat → MerkleProof.Signals
  n2bs : Nat → Nat → Nat → Fr
  nonMembershipVerifiers : Nat → Nat → SMTVerifier.Signals
  outCommitmentHasher : Nat → Fr
  outAmountCheck : Nat → Nat → Fr
  sameNullifiers : Nat → Nat → Fr
  extDataSquare : Fr

def keypair (H : Hasher) (privateKey : Fr) : Fr := H.hash2 privateKey 0 3

def signature (H : Hasher) (privateKey commitment merklePath : Fr) : Fr :=
  H.hash3 privateKey commitment merklePath 4

section Components

variable (x : Inputs) (w : Signals)

def inTree (tx : Nat) : MerkleProof.Inputs where
  leaf := w.inCommitmentHasher tx
  pathElements := x.inPathElements tx
  pathIndices := x.inPathIndices tx

def membershipVerifier (tx i : Nat) : MerkleProof.Inputs where
  leaf := (x.membershipProofs tx i).leaf
  pathElements := (x.membershipProofs tx i).pathElements
  pathIndices := (x.membershipProofs tx i).pathIndices

def nonMembershipVerifier (tx i : Nat) : SMTVerifier.Inputs where
  enabled := 1
  root := x.nonMembershipRoots tx i
  siblings := (x.nonMembershipProofs tx i).siblings
  oldKey := (x.nonMembershipProofs tx i).oldKey
  oldValue := (x.nonMembershipProofs tx i).oldValue
  isOld0 := w.n2bs tx i 0
  key := (x.nonMembershipProofs tx i).key
  value := (x.nonMembershipProofs tx i).key
  fnc := 1

end Components

structure MembershipSatisfied (C : Circomlib) (H : Hasher) (levels : Nat) (x : Inputs) (w : Signals)
    (tx i : Nat) : Prop where
  hasher : w.policyMembershipHasher tx i =
    H.hash2 (w.inKeypair tx) (x.membershipProofs tx i).blinding 1
  leaf : (x.membershipProofs tx i).leaf = w.policyMembershipHasher tx i
  verifier : MerkleProof.Satisfied C H levels (membershipVerifier x tx i) (w.membershipVerifiers tx i)
  root : (w.membershipVerifiers tx i).root = x.membershipRoots tx i

structure NonMembershipSatisfied (C : Circomlib) (H : Hasher) (smtLevels : Nat) (x : Inputs) (w : Signals)
    (tx i : Nat) : Prop where
  key : (x.nonMembershipProofs tx i).key = w.inKeypair tx
  n2bs : C.num2Bits 1 (x.nonMembershipProofs tx i).isOld0 (w.n2bs tx i)
  verifier : SMTVerifier.Satisfied C H smtLevels (nonMembershipVerifier x w tx i) (w.nonMembershipVerifiers tx i)

structure InputSatisfied (C : Circomlib) (H : Hasher) (size : Size) (x : Inputs) (w : Signals) (tx : Nat) :
    Prop where
  inKeypair : w.inKeypair tx = keypair H (x.inPrivateKey tx)
  inCommitmentHasher : w.inCommitmentHasher tx = H.hash3 (x.inAmount tx) (w.inKeypair tx) (x.inBlinding tx) 1
  inSignature : w.inSignature tx =
    signature H (x.inPrivateKey tx) (w.inCommitmentHasher tx) (x.inPathIndices tx)
  inNullifierHasher : w.inNullifierHasher tx =
    H.hash3 (w.inCommitmentHasher tx) (x.inPathIndices tx) (w.inSignature tx) 2
  inputNullifier : w.inNullifierHasher tx = x.inputNullifier tx
  inTree : MerkleProof.Satisfied C H size.levels (inTree x w tx) (w.inTree tx)
  -- the Merkle proof is checked only where the amount is not zero
  inCheckRoot : C.forceEqualIfEnabled (x.inAmount tx) x.root (w.inTree tx).root
  membership : ∀ i, i < size.nMembershipProofs → MembershipSatisfied C H size.levels x w tx i
  nonMembership : ∀ i, i < size.nNonMembershipProofs → NonMembershipSatisfied C H size.smtLevels x w tx i

structure OutputSatisfied (C : Circomlib) (H : Hasher) (x : Inputs) (w : Signals) (tx : Nat) : Prop where
  outCommitmentHasher : w.outCommitmentHasher tx = H.hash3 (x.outAmount tx) (x.outPubkey tx) (x.outBlinding tx) 1
  outputCommitment : w.outCommitmentHasher tx = x.outputCommitment tx
  outAmountCheck : C.num2Bits 248 (x.outAmount tx) (w.outAmountCheck tx)

structure Satisfied (C : Circomlib) (H : Hasher) (size : Size) (x : Inputs) (w : Signals) : Prop where
  inputs : ∀ tx, tx < size.nIns → InputSatisfied C H size x w tx
  outputs : ∀ tx, tx < size.nOuts → OutputSatisfied C H x w tx
  sameNullifiers : ∀ i j, i < j → j < size.nIns →
    C.isEqual (x.inputNullifier i) (x.inputNullifier j) (w.sameNullifiers i j) ∧ w.sameNullifiers i j = 0
  amounts : ∑ tx ∈ Finset.range size.nIns, x.inAmount tx + x.publicAmount =
    ∑ tx ∈ Finset.range size.nOuts, x.outAmount tx
  extDataSquare : w.extDataSquare = x.extDataHash * x.extDataHash

/-- The public signals in the order of their declaration, which is that of the verifier's inputs. -/
def publicSignals (size : Size) (x : Inputs) : List Fr :=
  [x.root, x.publicAmount, x.extDataHash] ++
    (List.range size.nIns).map x.inputNullifier ++
    (List.range size.nOuts).map x.outputCommitment ++
    ((List.range size.nIns).flatMap fun tx => (List.range size.nMembershipProofs).map (x.membershipRoots tx)) ++
    (List.range size.nIns).flatMap fun tx =>
      (List.range size.nNonMembershipProofs).map (x.nonMembershipRoots tx)

end PolicyTransaction

end PrivatePayments.Circuits
