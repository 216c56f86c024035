import PrivatePayments.Client.ExtDataHash
import PrivatePayments.Library.LittleEndian

/-!
The proof of a transaction as the argument of a call: the client writes field elements in limbs
and cuts the points out of 256 bytes, and the contract reads back what the client had.
-/

namespace PrivatePayments.Client
open Bn254 Soroban Library

structure OnchainProofPublicInputs where
  root : Fr
  inputNullifiers : List Fr
  outputCommitment0 : Fr
  outputCommitment1 : Fr
  publicAmount : Fr
  extDataHashBe : List UInt8
  aspMembershipRoot : Fr
  aspNonMembershipRoot : Fr

/-- The limb that eight of the big-endian bytes of a field element spell. -/
def limbOfBytes (be : List UInt8) (start : Nat) : BitVec 64 :=
  BitVec.ofNat 64 (fromBeBytes ((be.drop start).take 8))

def fieldToScvalU256 (v : Fr) : ScVal :=
  let be := toBeBytes 32 v.val
  .u256 (limbOfBytes be 0) (limbOfBytes be 8) (limbOfBytes be 16) (limbOfBytes be 24)

def groth16ProofToScval (proofUncompressed : List UInt8) : Except String ScVal := do
  let got := proofUncompressed.length
  if got ≠ 256 then .error s!"proof_uncompressed must be 256 bytes, got {got}"
  let a ← bytesToScval (proofUncompressed.take 64)
  let b ← bytesToScval ((proofUncompressed.drop 64).take 128)
  let c ← bytesToScval ((proofUncompressed.drop 192).take 64)
  return sortedMap [("a", a), ("b", b), ("c", c)]

/-- `ScVec::try_from`. -/
def tryIntoVec (items : List ScVal) : Except String ScVal :=
  if items.length < 2 ^ 32 then .ok (.vec items) else .error "xdr value max length exceeded"

def poolProofToScval (proofUncompressed : List UInt8) (input : OnchainProofPublicInputs) : Except String ScVal := do
  let nullifiers ← tryIntoVec (input.inputNullifiers.map fieldToScvalU256)
  let extDataHash ← bytesToScval input.extDataHashBe
  let proof ← groth16ProofToScval proofUncompressed
  return sortedMap [("asp_membership_root", fieldToScvalU256 input.aspMembershipRoot),
    ("asp_non_membership_root", fieldToScvalU256 input.aspNonMembershipRoot), ("ext_data_hash", extDataHash),
    ("input_nullifiers", nullifiers), ("output_commitment0", fieldToScvalU256 input.outputCommitment0),
    ("output_commitment1", fieldToScvalU256 input.outputCommitment1), ("proof", proof),
    ("public_amount", fieldToScvalU256 input.publicAmount), ("root", fieldToScvalU256 input.root)]

/-- An argument of a call as the host's `U256`. -/
def decodeU256 : ScVal → Option U256
  | .u256 hiHi hiLo loHi loLo => some (ofLimbs hiHi hiLo loHi loLo)
  | _ => none

def decodeBytesN (n : Nat) : ScVal → Option (List UInt8)
  | .bytes content => if content.length = n then some content else none
  | _ => none

def decodeVec : ScVal → Option (List U256)
  | .vec items => items.mapM decodeU256
  | _ => none

def decodeGroth16Proof : ScVal → Option Pool.Groth16Proof
  | .map [("a", a), ("b", b), ("c", c)] => do
      return { a := ← decodeBytesN 64 a, b := ← decodeBytesN 128 b, c := ← decodeBytesN 64 c }
  | _ => none

def decodeProof : ScVal → Option Pool.Proof
  | .map [("asp_membership_root", aspMembershipRoot), ("asp_non_membership_root", aspNonMembershipRoot),
      ("ext_data_hash", extDataHash), ("input_nullifiers", inputNullifiers),
      ("output_commitment0", outputCommitment0), ("output_commitment1", outputCommitment1), ("proof", proof),
      ("public_amount", publicAmount), ("root", root)] => do
      return { aspMembershipRoot := ← decodeU256 aspMembershipRoot
               aspNonMembershipRoot := ← decodeU256 aspNonMembershipRoot
               extDataHash := ← decodeBytesN 32 extDataHash
               inputNullifiers := ← decodeVec inputNullifiers
               outputCommitment0 := ← decodeU256 outputCommitment0
               outputCommitment1 := ← decodeU256 outputCommitment1
               proof := ← decodeGroth16Proof proof
               publicAmount := ← decodeU256 publicAmount
               root := ← decodeU256 root }
  | _ => none

def pointsOf (proofUncompressed : List UInt8) : Pool.Groth16Proof where
  a := proofUncompressed.take 64
  b := (proofUncompressed.drop 64).take 128
  c := (proofUncompressed.drop 192).take 64

def submitted (proofUncompressed : List UInt8) (input : OnchainProofPublicInputs) : Pool.Proof where
  proof := pointsOf proofUncompressed
  root := toU256 input.root
  inputNullifiers := input.inputNullifiers.map toU256
  outputCommitment0 := toU256 input.outputCommitment0
  outputCommitment1 := toU256 input.outputCommitment1
  publicAmount := toU256 input.publicAmount
  extDataHash := input.extDataHashBe
  aspMembershipRoot := toU256 input.aspMembershipRoot
  aspNonMembershipRoot := toU256 input.aspNonMembershipRoot

section Limbs

theorem toBeBytes_add (high low n : Nat) :
    toBeBytes (high + low) n = toBeBytes high (n / 256 ^ low) ++ toBeBytes low n := by
  induction low generalizing n with
  | zero => rw [Nat.add_zero, Nat.pow_zero, Nat.div_one, toBeBytes, List.append_nil]
  | succ low ih =>
    rw [← Nat.add_assoc, toBeBytes, ih, toBeBytes, List.append_assoc, Nat.div_div_eq_div_mul, Nat.pow_succ,
      Nat.mul_comm 256]

theorem fromBeBytes_toBeBytes_mod (width n : Nat) : fromBeBytes (toBeBytes width n) = n % 256 ^ width := by
  have same : toBeBytes width n = toBeBytes width (n % 256 ^ width) := by
    induction width generalizing n with
    | zero => rfl
    | succ width ih =>
      have high : n % 256 ^ (width + 1) / 256 = n / 256 % 256 ^ width := by
        rw [Nat.pow_succ, Nat.mul_comm, Nat.mod_mul, Nat.add_mul_div_left _ _ (by decide),
          Nat.div_eq_of_lt (Nat.mod_lt _ (by decide)), Nat.zero_add]
      have low : n % 256 ^ (width + 1) % 256 = n % 256 :=
        Nat.mod_mod_of_dvd n (Dvd.intro_left _ (Nat.pow_succ ..).symm)
      rw [toBeBytes, toBeBytes, high, low, ih]
  rw [same, fromBeBytes_toBeBytes (Nat.mod_lt _ (Nat.pow_pos (by decide)))]

theorem limbOfBytes_toBeBytes (v : U256) (place : Nat) (inside : place < 4) :
    limbOfBytes (toBeBytes 32 v.toNat) (8 * (3 - place)) = limb v place := by
  have cut : toBeBytes 32 v.toNat = toBeBytes (8 * (3 - place)) (v.toNat / 256 ^ (8 * place) / 256 ^ 8) ++
      (toBeBytes 8 (v.toNat / 256 ^ (8 * place)) ++ toBeBytes (8 * place) v.toNat) := by
    have whole : 32 = 8 * (3 - place) + (8 + 8 * place) := by omega
    rw [whole, toBeBytes_add, toBeBytes_add, Nat.div_div_eq_div_mul, ← Nat.pow_add, Nat.add_comm 8]
  have bytes : ((toBeBytes 32 v.toNat).drop (8 * (3 - place))).take 8 = toBeBytes 8 (v.toNat / 256 ^ (8 * place)) := by
    rw [cut, List.drop_left' (length_toBeBytes ..), List.take_left' (length_toBeBytes ..)]
  have places : 256 ^ (8 * place) = 2 ^ (64 * place) := by
    rw [show (256 : Nat) = 2 ^ 8 from rfl, ← Nat.pow_mul, ← Nat.mul_assoc]
  apply BitVec.eq_of_toNat_eq
  rw [limbOfBytes, bytes, fromBeBytes_toBeBytes_mod, BitVec.toNat_ofNat, limb, BitVec.extractLsb'_toNat,
    Nat.shiftRight_eq_div_pow, show (256 : Nat) ^ 8 = 2 ^ 64 from rfl, Nat.mod_mod, places]

theorem fieldToScvalU256_eq (v : Fr) : fieldToScvalU256 v = ScVal.ofU256 (toU256 v) := by
  have limbs (place : Nat) (inside : place < 4) := limbOfBytes_toBeBytes (toU256 v) place inside
  rw [toNat_toU256] at limbs
  rw [fieldToScvalU256, ScVal.ofU256, ← limbs 0 (by decide), ← limbs 1 (by decide), ← limbs 2 (by decide),
    ← limbs 3 (by decide)]

theorem decodeU256_ofU256 (v : U256) : decodeU256 (ScVal.ofU256 v) = some v := by
  rw [ScVal.ofU256, decodeU256, ofLimbs_limb]

theorem decodeU256_fieldToScvalU256 (v : Fr) : decodeU256 (fieldToScvalU256 v) = some (toU256 v) := by
  rw [fieldToScvalU256_eq, decodeU256_ofU256]

end Limbs

section RoundTrip

variable {proofUncompressed : List UInt8} {input : OnchainProofPublicInputs}

theorem mapM_decodeU256 (xs : List Fr) : (xs.map fieldToScvalU256).mapM decodeU256 = some (xs.map toU256) := by
  induction xs with
  | nil => rfl
  | cons x xs ih =>
    rw [List.map_cons, List.mapM_cons, decodeU256_fieldToScvalU256, ih]
    rfl

theorem bytesToScval_eq {content : List UInt8} (short : content.length < 2 ^ 32) :
    bytesToScval content = .ok (.bytes content) := if_pos short

theorem length_pointsOf (whole : proofUncompressed.length = 256) :
    (pointsOf proofUncompressed).a.length = 64 ∧ (pointsOf proofUncompressed).b.length = 128 ∧
      (pointsOf proofUncompressed).c.length = 64 := by
  simp only [pointsOf, List.length_take, List.length_drop, whole]
  decide

theorem isEmpty_pointsOf (whole : proofUncompressed.length = 256) : (pointsOf proofUncompressed).isEmpty = false := by
  obtain ⟨first, second, third⟩ := length_pointsOf whole
  have full {bytes : List UInt8} {n : Nat} (length : bytes.length = n + 1) : bytes.isEmpty = false :=
    List.isEmpty_eq_false_iff.mpr (List.ne_nil_of_length_eq_add_one length)
  rw [Pool.Groth16Proof.isEmpty, full first, full second, full third]
  rfl

def pointsScval (points : Pool.Groth16Proof) : ScVal :=
  .map [("a", .bytes points.a), ("b", .bytes points.b), ("c", .bytes points.c)]

theorem groth16ProofToScval_eq (whole : proofUncompressed.length = 256) :
    groth16ProofToScval proofUncompressed = .ok (pointsScval (pointsOf proofUncompressed)) := by
  obtain ⟨first, second, third⟩ := length_pointsOf whole
  have a : bytesToScval (proofUncompressed.take 64) = .ok (.bytes (pointsOf proofUncompressed).a) :=
    bytesToScval_eq (first.trans_lt (by decide))
  have b : bytesToScval ((proofUncompressed.drop 64).take 128) = .ok (.bytes (pointsOf proofUncompressed).b) :=
    bytesToScval_eq (second.trans_lt (by decide))
  have c : bytesToScval ((proofUncompressed.drop 192).take 64) = .ok (.bytes (pointsOf proofUncompressed).c) :=
    bytesToScval_eq (third.trans_lt (by decide))
  have sorted : ["a", "b", "c"].Pairwise fun a b => decide (a ≤ b) = true := by decide
  have entries : sortedMap [("a", .bytes (pointsOf proofUncompressed).a), ("b", .bytes (pointsOf proofUncompressed).b),
      ("c", .bytes (pointsOf proofUncompressed).c)] = pointsScval (pointsOf proofUncompressed) := sortedMap_eq sorted
  rw [groth16ProofToScval, a, b, c, ← entries]
  simp only [whole]
  rfl

theorem decodeGroth16Proof_pointsScval (whole : proofUncompressed.length = 256) :
    decodeGroth16Proof (pointsScval (pointsOf proofUncompressed)) = some (pointsOf proofUncompressed) := by
  obtain ⟨first, second, third⟩ := length_pointsOf whole
  simp only [pointsScval, decodeGroth16Proof, decodeBytesN, if_pos first, if_pos second, if_pos third]
  rfl

def proofScval (proofUncompressed : List UInt8) (input : OnchainProofPublicInputs) : ScVal :=
  .map [("asp_membership_root", fieldToScvalU256 input.aspMembershipRoot),
    ("asp_non_membership_root", fieldToScvalU256 input.aspNonMembershipRoot),
    ("ext_data_hash", .bytes input.extDataHashBe),
    ("input_nullifiers", .vec (input.inputNullifiers.map fieldToScvalU256)),
    ("output_commitment0", fieldToScvalU256 input.outputCommitment0),
    ("output_commitment1", fieldToScvalU256 input.outputCommitment1),
    ("proof", pointsScval (pointsOf proofUncompressed)), ("public_amount", fieldToScvalU256 input.publicAmount),
    ("root", fieldToScvalU256 input.root)]

theorem poolProofToScval_eq (whole : proofUncompressed.length = 256) (hash : input.extDataHashBe.length < 2 ^ 32)
    (few : input.inputNullifiers.length < 2 ^ 32) :
    poolProofToScval proofUncompressed input = .ok (proofScval proofUncompressed input) := by
  have nullifiers : tryIntoVec (input.inputNullifiers.map fieldToScvalU256) =
      .ok (.vec (input.inputNullifiers.map fieldToScvalU256)) := if_pos (by rw [List.length_map]; exact few)
  have sorted : ["asp_membership_root", "asp_non_membership_root", "ext_data_hash", "input_nullifiers",
      "output_commitment0", "output_commitment1", "proof", "public_amount", "root"].Pairwise
      fun a b => decide (a ≤ b) = true := by decide
  rw [poolProofToScval, nullifiers, bytesToScval_eq hash, groth16ProofToScval_eq whole]
  refine congrArg Except.ok (sortedMap_eq ?_)
  exact sorted

theorem decodeProof_proofScval (whole : proofUncompressed.length = 256) (hash : input.extDataHashBe.length = 32) :
    decodeProof (proofScval proofUncompressed input) = some (submitted proofUncompressed input) := by
  have nullifiers := mapM_decodeU256 input.inputNullifiers
  have points := decodeGroth16Proof_pointsScval whole
  simp only [proofScval, decodeProof, decodeU256_fieldToScvalU256, decodeVec, nullifiers, decodeBytesN, if_pos hash,
    points]
  rfl

/-- What the client submits is what the contract reads: each element under its name, with the same number. -/
theorem decodeProof_submitted (whole : proofUncompressed.length = 256) (hash : input.extDataHashBe.length = 32)
    (few : input.inputNullifiers.length < 2 ^ 32) :
    ∃ argument, poolProofToScval proofUncompressed input = .ok argument ∧
      decodeProof argument = some (submitted proofUncompressed input) :=
  ⟨_, poolProofToScval_eq whole (hash.trans_lt (by decide)) few, decodeProof_proofScval whole hash⟩

def distinctInputs : OnchainProofPublicInputs where
  root := 2
  inputNullifiers := [3, 4]
  outputCommitment0 := 5
  outputCommitment1 := 7
  publicAmount := -1
  extDataHashBe := toBeBytes 32 9
  aspMembershipRoot := 1
  aspNonMembershipRoot := 0

def distinctProof : Pool.Proof where
  proof := pointsOf ((List.range 256).map UInt8.ofNat)
  root := 2
  inputNullifiers := [3, 4]
  outputCommitment0 := 5
  outputCommitment1 := 7
  publicAmount := BitVec.ofNat 256 (bn256Modulus - 1)
  extDataHash := toBeBytes 32 9
  aspMembershipRoot := 1
  aspNonMembershipRoot := 0

theorem decodeProof_submitted_distinct : ∃ argument,
    poolProofToScval ((List.range 256).map UInt8.ofNat) distinctInputs = .ok argument ∧
      decodeProof argument = some distinctProof := by
  have same : submitted ((List.range 256).map UInt8.ofNat) distinctInputs = distinctProof := by decide +kernel
  have whole : ((List.range 256).map UInt8.ofNat).length = 256 := by rw [List.length_map, List.length_range]
  rw [← same]
  exact decodeProof_submitted whole (length_toBeBytes ..) (by decide)

end RoundTrip

end PrivatePayments.Client
