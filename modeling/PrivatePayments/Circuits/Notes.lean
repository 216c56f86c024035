import Mathlib.Algebra.Order.BigOperators.Group.Finset
import PrivatePayments.Circuits.PolicyTransaction
import PrivatePayments.Merkle.Tree

/-!
What a satisfied `PolicyTransaction` says of notes: an input with an amount opens a leaf of the
tree, its nullifier is a function of the note and the position, and the amounts balance as integers.
-/

namespace PrivatePayments.Circuits.PolicyTransaction
open Bn254 Poseidon2 Library FullTree

structure Note where
  amount : Fr
  pubkey : Fr
  blinding : Fr
  deriving DecidableEq

def Note.query (note : Note) : Query := .hash3 note.amount note.pubkey note.blinding 1

def Note.commitment (H : Hasher) (note : Note) : Fr := H.answer note.query

def inNote (H : Hasher) (x : Inputs) (tx : Nat) : Note where
  amount := x.inAmount tx
  pubkey := keypair H (x.inPrivateKey tx)
  blinding := x.inBlinding tx

def outNote (x : Inputs) (tx : Nat) : Note where
  amount := x.outAmount tx
  pubkey := x.outPubkey tx
  blinding := x.outBlinding tx

def nullifier (H : Hasher) (privateKey commitment merklePath : Fr) : Fr :=
  H.hash3 commitment merklePath (signature H privateKey commitment merklePath) 2

def noteQueries (H : Hasher) (size : Size) (x : Inputs) (w : Signals) : List Query :=
  ((List.range size.nIns).flatMap fun tx =>
    .hash2 (x.inPrivateKey tx) 0 3 :: (inNote H x tx).query :: MerkleProof.queries size.levels (w.inTree tx)) ++
  (List.range size.nOuts).map fun tx => (outNote x tx).query

section Queries

variable {H : Hasher} {size : Size} {x : Inputs} {w : Signals} {tx : Nat} {q : Query}

theorem mem_noteQueries_input (low : tx < size.nIns) (member : q = .hash2 (x.inPrivateKey tx) 0 3 ∨
    q = (inNote H x tx).query ∨ q ∈ MerkleProof.queries size.levels (w.inTree tx)) :
    q ∈ noteQueries H size x w := by
  apply List.mem_append_left
  apply List.mem_flatMap.mpr
  exact ⟨tx, List.mem_range.mpr low, List.mem_cons.mpr (member.imp_right List.mem_cons.mpr)⟩

theorem mem_noteQueries_output (low : tx < size.nOuts) : (outNote x tx).query ∈ noteQueries H size x w :=
  List.mem_append_right _ (List.mem_map.mpr ⟨tx, List.mem_range.mpr low, rfl⟩)

end Queries

section Input

variable {C : Circomlib} {H : Hasher} {size : Size} {x : Inputs} {w : Signals} {tx : Nat}

theorem InputSatisfied.commitment_eq (sat : InputSatisfied C H size x w tx) :
    w.inCommitmentHasher tx = (inNote H x tx).commitment H := by
  rw [sat.inCommitmentHasher, sat.inKeypair]
  rfl

theorem InputSatisfied.nullifier_eq (sat : InputSatisfied C H size x w tx) : x.inputNullifier tx =
    nullifier H (x.inPrivateKey tx) ((inNote H x tx).commitment H) (x.inPathIndices tx) := by
  rw [← sat.inputNullifier, sat.inNullifierHasher, sat.inSignature, sat.commitment_eq]
  rfl

/-- An input with an amount is the leaf at its path indices of the tree with the root. -/
theorem InputSatisfied.leaf_eq (lib : C.Published) (sat : InputSatisfied C H size x w tx) (low : tx < size.nIns)
    (amount : x.inAmount tx ≠ 0) (small : 2 ^ size.levels ≤ bn256Modulus) {leaf : Nat → Fr} {inPlay : Set Query}
    (inj : Set.InjOn H.answer inPlay) (treeInPlay : MerkleProof.treeQueries H size.levels leaf ⊆ inPlay)
    (logged : ∀ q ∈ noteQueries H size x w, q ∈ inPlay) (root : x.root = node H.compress leaf size.levels 0) :
    (inNote H x tx).commitment H = leaf (x.inPathIndices tx).val := by
  have checked := (lib.forceEqualIfEnabled _ _ _).mp sat.inCheckRoot amount
  have found := sat.inTree.leaf_eq lib small inj treeInPlay
    (fun q member => logged q (mem_noteQueries_input low (Or.inr (Or.inr member)))) (checked.symm.trans root)
  rw [← sat.commitment_eq]
  exact found.2

theorem OutputSatisfied.commitment_eq (sat : OutputSatisfied C H x w tx) :
    x.outputCommitment tx = (outNote x tx).commitment H := by
  rw [← sat.outputCommitment, sat.outCommitmentHasher]
  rfl

theorem OutputSatisfied.amount_lt (lib : C.Published) (sat : OutputSatisfied C H x w tx) :
    (x.outAmount tx).val < 2 ^ 248 := by
  have bits := (lib.num2Bits _ _ _).mp sat.outAmountCheck
  have bound := bitsValue_lt bits.1
  rw [← bits.value_eq (lt_of_lt_of_le bound (by decide))]
  exact bound

end Input

section Nullifiers

variable {C : Circomlib} {H : Hasher} {inPlay : Set Query}

theorem Note.eq_of_commitment (inj : Set.InjOn H.answer inPlay) {note note' : Note} (known : note.query ∈ inPlay)
    (known' : note'.query ∈ inPlay) (same : note.commitment H = note'.commitment H) : note = note' := by
  have queries := inj known known' same
  rw [Note.query, Note.query, Query.hash3.injEq] at queries
  cases note
  cases note'
  rw [Note.mk.injEq]
  exact ⟨queries.1, queries.2.1, queries.2.2.1⟩

theorem Note.commitment_ne_zeroAt (inj : Set.InjOn poseidon2.answer inPlay) {note : Note} (known : note.query ∈ inPlay)
    (empty : Merkle.emptyLeaf ∈ inPlay) : note.commitment poseidon2 ≠ Merkle.zeroAt 0 := by
  intro same
  have queries := inj known empty (same.trans Merkle.answer_emptyLeaf.symm)
  rw [Note.query, Merkle.emptyLeaf, Query.hash3.injEq] at queries
  exact absurd queries.2.2.2 (by decide)

/-- One commitment at one position has one nullifier, whoever shows it. -/
theorem nullifier_unique {size size' : Size} {x x' : Inputs} {w w' : Signals} {tx tx' : Nat}
    (sat : InputSatisfied C H size x w tx) (sat' : InputSatisfied C H size' x' w' tx') (low : tx < size.nIns)
    (low' : tx' < size'.nIns) (inj : Set.InjOn H.answer inPlay)
    (logged : ∀ q ∈ noteQueries H size x w, q ∈ inPlay) (logged' : ∀ q ∈ noteQueries H size' x' w', q ∈ inPlay)
    (commitments : (inNote H x tx).commitment H = (inNote H x' tx').commitment H)
    (positions : x.inPathIndices tx = x'.inPathIndices tx') : x.inputNullifier tx = x'.inputNullifier tx' := by
  have notes := Note.eq_of_commitment inj (logged _ (mem_noteQueries_input low (Or.inr (Or.inl rfl))))
    (logged' _ (mem_noteQueries_input low' (Or.inr (Or.inl rfl)))) commitments
  have keys : H.answer (.hash2 (x.inPrivateKey tx) 0 3) = H.answer (.hash2 (x'.inPrivateKey tx') 0 3) :=
    congrArg Note.pubkey notes
  have owners := inj (logged _ (mem_noteQueries_input low (Or.inl rfl)))
    (logged' _ (mem_noteQueries_input low' (Or.inl rfl))) keys
  rw [Query.hash2.injEq] at owners
  rw [sat.nullifier_eq, sat'.nullifier_eq, owners.1, commitments, positions]

theorem Satisfied.nullifiers_ne (lib : C.Published) {size : Size} {x : Inputs} {w : Signals}
    (sat : Satisfied C H size x w) {i j : Nat} (before : i < j) (low : j < size.nIns) :
    x.inputNullifier i ≠ x.inputNullifier j := by
  obtain ⟨compared, different⟩ := sat.sameNullifiers i j before low
  intro same
  rw [lib.isEqual, if_pos same, different] at compared
  exact zero_ne_one compared

end Nullifiers

section Balance

theorem int_eq_of_cast_eq {a b : Int} (same : (a : Fr) = (b : Fr)) (near : |a - b| < bn256Modulus) : a = b := by
  have divides := (ZMod.intCast_eq_intCast_iff_dvd_sub b a bn256Modulus).mp same.symm
  exact Int.sub_eq_zero.mp (Int.eq_zero_of_abs_lt_dvd divides near)

theorem cast_sum_val (n : Nat) (a : Nat → Fr) :
    ((∑ tx ∈ Finset.range n, ((a tx).val : Int) : Int) : Fr) = ∑ tx ∈ Finset.range n, a tx := by
  rw [Int.cast_sum]
  exact Finset.sum_congr rfl fun tx _ => by rw [Int.cast_natCast, ZMod.natCast_zmod_val]

theorem sum_val_bounds {n : Nat} {a : Nat → Fr} (small : ∀ tx, tx < n → (a tx).val < 2 ^ 248) :
    0 ≤ ∑ tx ∈ Finset.range n, ((a tx).val : Int) ∧ ∑ tx ∈ Finset.range n, ((a tx).val : Int) ≤ n * 2 ^ 248 := by
  constructor
  · exact Finset.sum_nonneg fun tx _ => Int.natCast_nonneg _
  · have each := Finset.sum_le_card_nsmul (Finset.range n) (fun tx => ((a tx).val : Int)) (2 ^ 248)
      fun tx member => by exact_mod_cast (small tx (Finset.mem_range.mp member)).le
    rwa [Finset.card_range, nsmul_eq_mul] at each

/-- With all amounts in range the balance holds of the integers, not only in the field. -/
theorem Satisfied.balanced {C : Circomlib} {H : Hasher} {size : Size} {x : Inputs} {w : Signals} (lib : C.Published)
    (sat : Satisfied C H size x w) {external : Int} (public_ : x.publicAmount = (external : Fr))
    (bound : |external| < 2 ^ 248) (amounts : ∀ tx, tx < size.nIns → (x.inAmount tx).val < 2 ^ 248)
    (room : (size.nIns + size.nOuts + 1) * 2 ^ 248 ≤ bn256Modulus) :
    ∑ tx ∈ Finset.range size.nIns, ((x.inAmount tx).val : Int) + external =
      ∑ tx ∈ Finset.range size.nOuts, ((x.outAmount tx).val : Int) := by
  apply int_eq_of_cast_eq
  · rw [Int.cast_add, cast_sum_val, cast_sum_val, ← public_]
    exact sat.amounts
  · have ins := sum_val_bounds amounts
    have outs := sum_val_bounds fun tx low => (sat.outputs tx low).amount_lt lib
    have fits : ((size.nIns : Int) + size.nOuts + 1) * 2 ^ 248 ≤ bn256Modulus := by exact_mod_cast room
    rw [abs_lt] at bound ⊢
    constructor <;> linarith

end Balance

end PrivatePayments.Circuits.PolicyTransaction
