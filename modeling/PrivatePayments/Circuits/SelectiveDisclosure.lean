import PrivatePayments.Circuits.Notes

/-!
`SelectiveDisclosure` as a system of constraints: whoever satisfies it opens each disclosed
commitment and finds it in the tree with the root next to it.
-/

namespace PrivatePayments.Circuits
open Bn254 Poseidon2 Library FullTree

namespace SelectiveDisclosure

structure Inputs where
  roots : Nat → Fr
  noteCommitments : Nat → Fr
  extContextHash : Fr
  inAmount : Nat → Fr
  inPrivateKey : Nat → Fr
  inBlinding : Nat → Fr
  inPathIndices : Nat → Fr
  inPathElements : Nat → Nat → Fr

structure Signals where
  inKeypair : Nat → Fr
  inCommitmentHasher : Nat → Fr
  inTree : Nat → MerkleProof.Signals
  extContextSquare : Fr

def inTree (x : Inputs) (w : Signals) (ni : Nat) : MerkleProof.Inputs where
  leaf := w.inCommitmentHasher ni
  pathElements := x.inPathElements ni
  pathIndices := x.inPathIndices ni

structure NoteSatisfied (C : Circomlib) (H : Hasher) (levels : Nat) (x : Inputs) (w : Signals) (ni : Nat) : Prop where
  inKeypair : w.inKeypair ni = PolicyTransaction.keypair H (x.inPrivateKey ni)
  inCommitmentHasher : w.inCommitmentHasher ni = H.hash3 (x.inAmount ni) (w.inKeypair ni) (x.inBlinding ni) 1
  noteCommitment : x.noteCommitments ni = w.inCommitmentHasher ni
  inTree : MerkleProof.Satisfied C H levels (inTree x w ni) (w.inTree ni)
  root : x.roots ni = (w.inTree ni).root

structure Satisfied (C : Circomlib) (H : Hasher) (levels nNotes : Nat) (x : Inputs) (w : Signals) : Prop where
  notes : ∀ ni, ni < nNotes → NoteSatisfied C H levels x w ni
  extContextSquare : w.extContextSquare = x.extContextHash * x.extContextHash

def publicSignals (nNotes : Nat) (x : Inputs) : List Fr :=
  (List.range nNotes).map x.roots ++ (List.range nNotes).map x.noteCommitments ++ [x.extContextHash]

def commitment (H : Hasher) (amount privateKey blinding : Fr) : Fr :=
  H.hash3 amount (PolicyTransaction.keypair H privateKey) blinding 1

def note (H : Hasher) (x : Inputs) (ni : Nat) : PolicyTransaction.Note where
  amount := x.inAmount ni
  pubkey := PolicyTransaction.keypair H (x.inPrivateKey ni)
  blinding := x.inBlinding ni

theorem commitment_note (H : Hasher) (x : Inputs) (ni : Nat) :
    (note H x ni).commitment H = commitment H (x.inAmount ni) (x.inPrivateKey ni) (x.inBlinding ni) := rfl

def queries (H : Hasher) (levels nNotes : Nat) (x : Inputs) (w : Signals) : List Query :=
  (List.range nNotes).flatMap fun ni =>
    .hash2 (x.inPrivateKey ni) 0 3 :: (note H x ni).query :: MerkleProof.queries levels (w.inTree ni)

section Soundness

variable {C : Circomlib} {H : Hasher} {levels nNotes : Nat} {x : Inputs} {w : Signals}

theorem NoteSatisfied.opens {ni : Nat} (sat : NoteSatisfied C H levels x w ni) :
    x.noteCommitments ni = commitment H (x.inAmount ni) (x.inPrivateKey ni) (x.inBlinding ni) := by
  rw [sat.noteCommitment, sat.inCommitmentHasher, sat.inKeypair]
  rfl

theorem mem_queries {ni : Nat} (low : ni < nNotes) {q : Query}
    (member : q = (note H x ni).query ∨ q ∈ MerkleProof.queries levels (w.inTree ni)) :
    q ∈ queries H levels nNotes x w := by
  refine List.mem_flatMap.mpr ⟨ni, List.mem_range.mpr low, List.mem_cons_of_mem _ ?_⟩
  rcases member with rfl | later
  · exact List.mem_cons_self
  · exact List.mem_cons_of_mem _ later

theorem NoteSatisfied.leaf_eq (lib : C.Published) {ni : Nat} (sat : NoteSatisfied C H levels x w ni)
    (small : 2 ^ levels ≤ bn256Modulus) {leaf : Nat → Fr} {inPlay : Set Query} (inj : Set.InjOn H.answer inPlay)
    (treeInPlay : MerkleProof.treeQueries H levels leaf ⊆ inPlay)
    (logged : ∀ q ∈ MerkleProof.queries levels (w.inTree ni), q ∈ inPlay)
    (root : x.roots ni = node H.compress leaf levels 0) :
    x.noteCommitments ni = leaf (x.inPathIndices ni).val := by
  have found := sat.inTree.leaf_eq lib small inj treeInPlay logged (sat.root.symm.trans root)
  rw [sat.noteCommitment]
  exact found.2

end Soundness

def honest (H : Hasher) (levels : Nat) (x : Inputs) : Signals where
  inKeypair ni := PolicyTransaction.keypair H (x.inPrivateKey ni)
  inCommitmentHasher ni := commitment H (x.inAmount ni) (x.inPrivateKey ni) (x.inBlinding ni)
  inTree ni := MerkleProof.honest H levels
    { leaf := commitment H (x.inAmount ni) (x.inPrivateKey ni) (x.inBlinding ni)
      pathElements := x.inPathElements ni
      pathIndices := x.inPathIndices ni }
  extContextSquare := x.extContextHash * x.extContextHash

theorem honest_satisfied {C : Circomlib} (lib : C.Published) (H : Hasher) {levels nNotes : Nat} {x : Inputs}
    (positive : 0 < levels) (fits : ∀ ni, ni < nNotes → (x.inPathIndices ni).val < 2 ^ levels)
    (opens : ∀ ni, ni < nNotes →
      x.noteCommitments ni = commitment H (x.inAmount ni) (x.inPrivateKey ni) (x.inBlinding ni))
    (roots : ∀ ni, ni < nNotes → x.roots ni = ((honest H levels x).inTree ni).root) :
    Satisfied C H levels nNotes x (honest H levels x) where
  notes ni low := ⟨rfl, rfl, opens ni low, MerkleProof.honest_satisfied lib H positive (fits ni low), roots ni low⟩
  extContextSquare := rfl

end SelectiveDisclosure

end PrivatePayments.Circuits
