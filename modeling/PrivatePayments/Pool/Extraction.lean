import PrivatePayments.Circuits.Completeness
import PrivatePayments.Library.LittleEndian
import PrivatePayments.Pool.Acceptance

/-!
From the proofs the pool accepts to assignments of the circuit's signals: the public inputs the
contract assembles are the public signals, each in its place.
-/

namespace PrivatePayments.Pool
open Bn254 Poseidon2 Soroban Library Library.LittleEndian Merkle Circuits

section Roots

variable {levels : Nat}

def rootQueries (levels : Nat) (leaves : List Fr) : Set Query :=
  {q | q = emptyLeaf ∨ ∃ n, q ∈ MerkleProof.treeQueries poseidon2 levels (leafAt (leaves.take (2 * n)))}

theorem rootQueries_mono {before after : List Fr} (earlier : before <+: after) (even : before.length % 2 = 0) :
    rootQueries levels before ⊆ rootQueries levels after := by
  rintro q (rfl | ⟨n, member⟩)
  · exact Or.inl rfl
  · obtain ⟨added, rfl⟩ := earlier
    by_cases short : 2 * n ≤ before.length
    · exact Or.inr ⟨n, by rw [List.take_append_of_le_length short]; exact member⟩
    · have whole : before.take (2 * n) = before := List.take_of_length_le (by omega)
      have half : 2 * (before.length / 2) = before.length := by omega
      refine Or.inr ⟨before.length / 2, ?_⟩
      rw [half, List.take_left]
      exact whole ▸ member

theorem Follows.root_of_known {p : Progress} (follows : Follows poseidon2 levels p) {root : U256}
    {env next : Env Ledger}
    (pool : env.storage.pool = p.env.storage.pool) (canonical : Canonical root)
    (known : (isKnownRoot root).run env = .ok (true, next)) : ∃ n, 2 * n ≤ p.leaves.length ∧
      ofU256 root = MerkleTreeWithHistory.rootOf poseidon2 levels ((p.leaves.map ofU256).take (2 * n)) := by
  have here : Follows poseidon2 levels { env := env, leaves := p.leaves } := by
    unfold Follows
    rw [pool]
    exact follows
  obtain ⟨n, low, same⟩ := List.mem_map.mp (here.produced known)
  rw [List.mem_range, List.length_map] at low
  change n < p.leaves.length / 2 + 1 at low
  refine ⟨n, by omega, ?_⟩
  rw [← toU256_inj, toU256_ofU256 canonical]
  exact same.symm

end Roots

/-- The circuit of the deployment: `PolicyTransaction(2, 2, 1, 1, levels, smtLevels)`. -/
def circuitSize (levels smtLevels : Nat) : PolicyTransaction.Size where
  nIns := 2
  nOuts := 2
  nMembershipProofs := 1
  nNonMembershipProofs := 1
  levels := levels
  smtLevels := smtLevels

/-- Knowledge soundness of the verifier: an accepted proof stands for an assignment that satisfies the
circuit and has the public inputs as its public signals. -/
structure Extractor (C : Circomlib) (D : Deployment) (verifier : Address) (size : PolicyTransaction.Size) where
  inputs : Groth16Proof → List Fr → PolicyTransaction.Inputs
  signals : Groth16Proof → List Fr → PolicyTransaction.Signals
  sound : ∀ proof publics, D.verify verifier proof publics = some true →
    PolicyTransaction.publicSignals size (inputs proof publics) = publics ∧
      PolicyTransaction.Satisfied C poseidon2 size (inputs proof publics) (signals proof publics)

namespace Extractor

variable {C : Circomlib} {D : Deployment} {verifier : Address} {size : PolicyTransaction.Size}

def x (E : Extractor C D verifier size) (proof : Proof) : PolicyTransaction.Inputs :=
  E.inputs proof.proof (publicInputs proof)

def w (E : Extractor C D verifier size) (proof : Proof) : PolicyTransaction.Signals :=
  E.signals proof.proof (publicInputs proof)

end Extractor

structure Carries (x : PolicyTransaction.Inputs) (proof : Proof) : Prop where
  root : x.root = ofU256 proof.root
  publicAmount : x.publicAmount = ofU256 proof.publicAmount
  nullifiers : proof.inputNullifiers.map ofU256 = [x.inputNullifier 0, x.inputNullifier 1]
  commitment0 : x.outputCommitment 0 = ofU256 proof.outputCommitment0
  commitment1 : x.outputCommitment 1 = ofU256 proof.outputCommitment1
  membershipRoot : ∀ tx, tx < 2 → x.membershipRoots tx 0 = ofU256 proof.aspMembershipRoot
  nonMembershipRoot : ∀ tx, tx < 2 → x.nonMembershipRoots tx 0 = ofU256 proof.aspNonMembershipRoot

theorem frFromBytes_u256ToBytes (v : U256) : frFromBytes (u256ToBytes v) = ofU256 v := by
  rw [frFromBytes, u256ToBytes, fromBeBytes_toBeBytes v.isLt]
  rfl

/-- The list of public inputs determines how many nullifiers there are, and each signal. -/
theorem carries_of_publicSignals {levels smtLevels : Nat} {x : PolicyTransaction.Inputs} {proof : Proof}
    (same : PolicyTransaction.publicSignals (circuitSize levels smtLevels) x = publicInputs proof) :
    Carries x proof := by
  have signals : PolicyTransaction.publicSignals (circuitSize levels smtLevels) x =
      [x.root, x.publicAmount, x.extDataHash, x.inputNullifier 0, x.inputNullifier 1, x.outputCommitment 0,
        x.outputCommitment 1, x.membershipRoots 0 0, x.membershipRoots 1 0, x.nonMembershipRoots 0 0,
        x.nonMembershipRoots 1 0] := rfl
  rw [signals] at same
  have two : proof.inputNullifiers.length = 2 := by
    have lengths := congrArg List.length same
    simp only [publicInputs, List.length_append, List.length_map, List.length_replicate, List.length_cons,
      List.length_nil] at lengths
    omega
  obtain ⟨n0, n1, isTwo⟩ := List.length_eq_two.mp two
  simp only [publicInputs, frFromBytes_u256ToBytes, isTwo, List.map_cons, List.map_nil, List.length_cons,
    List.length_nil, List.replicate, List.cons_append, List.nil_append, List.cons.injEq, and_true] at same
  obtain ⟨root, publicAmount, -, null0, null1, commitment0, commitment1, member0, member1, foreign0, foreign1⟩ := same
  refine ⟨root, publicAmount, ?_, commitment0, commitment1, ?_, ?_⟩
  · rw [isTwo, null0, null1]
    rfl
  · intro tx low
    interval_cases tx
    · exact member0
    · exact member1
  · intro tx low
    interval_cases tx
    · exact foreign0
    · exact foreign1

theorem Encodes.cast {extAmount : I256} {publicAmount : U256} (encodes : Encodes extAmount publicAmount) :
    ofU256 publicAmount = (extAmount.toInt : Fr) := by
  have value := congrArg (fun n : Int => (n : Fr)) encodes.2
  change ((publicAmount.toNat : Int) : Fr) = _ at value
  rw [Int.cast_natCast] at value
  rw [ofU256, value]
  split
  · rfl
  · rw [Int.cast_add, Int.cast_natCast, ZMod.natCast_self, zero_add]

theorem Encodes.bound {extAmount : I256} {publicAmount : U256} (encodes : Encodes extAmount publicAmount) :
    |extAmount.toInt| < 2 ^ 248 := by
  rw [Int.abs_eq_natAbs]
  exact_mod_cast encodes.1

section Samples

open PolicyTransaction

/-- The queries of a tree, without repeating those over padding. -/
def treeQueryList (levels : Nat) (leaves : List Fr) : List Query :=
  (List.range levels).flatMap fun k => (List.range (leaves.length / 2 + 2)).map fun b =>
    .compress (FullTree.node poseidon2.compress (leafAt leaves) k (2 * b))
      (FullTree.node poseidon2.compress (leafAt leaves) k (2 * b + 1))

def rootQueryList (levels : Nat) (leaves : List Fr) : List Query :=
  emptyLeaf :: (List.range (leaves.length / 2 + 2)).flatMap fun n => treeQueryList levels (leaves.take (2 * n))

theorem treeQueries_subset {levels : Nat} (bounded : levels ≤ 32) (leaves : List Fr) :
    MerkleProof.treeQueries poseidon2 levels (leafAt leaves) ⊆ {q | q ∈ treeQueryList levels leaves} := by
  rintro q ⟨k, low, b, rfl⟩
  apply List.mem_flatMap.mpr
  refine ⟨k, List.mem_range.mpr low, List.mem_map.mpr ?_⟩
  by_cases inside : b < leaves.length / 2 + 2
  · exact ⟨b, List.mem_range.mpr inside, rfl⟩
  · -- beyond the leaves all pairs are the same
    have padding (c : Nat) (beyond : leaves.length ≤ c) :
        FullTree.node poseidon2.compress (leafAt leaves) k c = zeroAt k := by
      refine FullTree.node_padding (zeroAt_chain) (by omega) fun i above => ?_
      have later : leaves.length ≤ i := beyond.trans ((Nat.le_mul_of_pos_right c (Nat.two_pow_pos k)).trans above)
      rw [leafAt, List.getD_eq_default _ _ later]
    refine ⟨leaves.length / 2 + 1, List.mem_range.mpr (Nat.lt_succ_self _), ?_⟩
    rw [padding _ (by omega), padding _ (by omega), padding _ (by omega), padding _ (by omega)]

theorem rootQueries_subset {levels : Nat} (bounded : levels ≤ 32) (leaves : List Fr) :
    rootQueries levels leaves ⊆ {q | q ∈ rootQueryList levels leaves} := by
  rintro q (rfl | ⟨n, member⟩)
  · exact List.mem_cons_self
  · apply List.mem_cons_of_mem
    have listed := treeQueries_subset bounded _ member
    by_cases inside : n < leaves.length / 2 + 2
    · exact List.mem_flatMap.mpr ⟨n, List.mem_range.mpr inside, listed⟩
    · refine List.mem_flatMap.mpr ⟨leaves.length / 2 + 1, List.mem_range.mpr (Nat.lt_succ_self _), ?_⟩
      rw [List.take_of_length_le (by omega)] at listed ⊢
      exact listed

def modularHash (bytes : List UInt8) : U256 := BitVec.ofNat 256 (fromBeBytes bytes % (2 ^ 255 - 19))

/-- A note in the layout of an encrypted output: an ephemeral key, a nonce, the amount, the blinding and a tag. -/
def sealedNote (amount blinding : Nat) : List UInt8 :=
  List.replicate 56 0 ++ toLeBytes 16 amount ++ toLeBytes 32 blinding ++ List.replicate 16 10

def depositExtData : ExtData where
  recipient := ⟨4⟩
  extAmount := 9
  encryptedOutput0 := sealedNote 9 4
  encryptedOutput1 := sealedNote 0 5

def withdrawalExtData : ExtData where
  recipient := ⟨6⟩
  extAmount := -4
  encryptedOutput0 := sealedNote 5 3
  encryptedOutput1 := sealedNote 0 9

/-- The inputs of the deposit and of the withdrawal, with the hashes of their external data. -/
def depositInputs : PolicyTransaction.Inputs :=
  firstDeposit poseidon2 (zeroAt 0) (fromBeBytes (hashExtData modularHash depositExtData))

def withdrawalInputs : PolicyTransaction.Inputs :=
  firstSpend poseidon2 (zeroAt 0) (fromBeBytes (hashExtData modularHash withdrawalExtData))

/-- The submission of inputs, to a pool whose policy names their roots. -/
def submission (points : Groth16Proof) (x : PolicyTransaction.Inputs) : Proof where
  proof := points
  root := toU256 x.root
  inputNullifiers := [toU256 (x.inputNullifier 0), toU256 (x.inputNullifier 1)]
  outputCommitment0 := toU256 (x.outputCommitment 0)
  outputCommitment1 := toU256 (x.outputCommitment 1)
  publicAmount := toU256 x.publicAmount
  extDataHash := toBeBytes 32 x.extDataHash.val
  aspMembershipRoot := toU256 (x.membershipRoots 0 0)
  aspNonMembershipRoot := toU256 (x.nonMembershipRoots 0 0)

def depositProof : Proof := submission { a := [1], b := [2], c := [3] } depositInputs

def withdrawalProof : Proof := submission { a := [4], b := [5], c := [6] } withdrawalInputs

theorem submission_eq (points : Groth16Proof) :
    submission points depositInputs = { depositProof with proof := points } := rfl

/-- The numbers that are submitted with the deposit. -/
theorem depositProof_eq : depositProof =
    { proof := { a := [1], b := [2], c := [3] }
      root := 6671095670782301971433680779252611368794999320551466812674353318786817161024#256
      inputNullifiers := [8787111063556407506419034683735463018053608855450797486480691829965189745199#256,
        7627261883725264046358318067059832026706974613835435977894805831955699326890#256]
      outputCommitment0 := 17237058521945186152563948225967515032762610887804829393175118331538311359732#256
      outputCommitment1 := 13834601937897534186420101604583667573733701381291379772157099445615066987926#256
      publicAmount := 9#256
      extDataHash := toBeBytes 32 17219321858473610718412369030306308886699027096142938757073497446289054233215
      aspMembershipRoot := 8771509552410785993353203702918967492018198109314860313232700233711415591552#256
      aspNonMembershipRoot := 13362685999742554585207453706337178526336952087008844170820644023656473983847#256 } := by
  decide +kernel

theorem withdrawalProof_eq : withdrawalProof =
    { proof := { a := [4], b := [5], c := [6] }
      root := 17679989403162842943076534208607778944016975247492731087896014413298695443641#256
      inputNullifiers := [20788787688780059384192975938599960675872430937445257225749019190680003921774#256,
        20782473294940951786629628298874195833719457428668587637652588761937490488999#256]
      outputCommitment0 := 14783759133052597767115355440293555584510674959385416515855725987116239876724#256
      outputCommitment1 := 12340413217586840552824073823643912401057115059818995051507253456089305194721#256
      publicAmount := 21888242871839275222246405745257275088548364400416034343698204186575808495613#256
      extDataHash := toBeBytes 32 17219321858473467349398379263694522590757132525838525004949452618778134085508
      aspMembershipRoot := 8771509552410785993353203702918967492018198109314860313232700233711415591552#256
      aspNonMembershipRoot := 13362685999742554585207453706337178526336952087008844170820644023656473983847#256 } := by
  decide +kernel

def moveExactly (token source target : Address) (amount : Int) (balances : Balances) : Balances := fun other holder =>
  if other = token then
    balances other holder - (if holder = source then amount else 0) + (if holder = target then amount else 0)
  else balances other holder

/-- A deployment whose verifier takes the two proofs, each for its own public inputs, and no others. -/
def sampleDeployment : Deployment where
  this := ⟨1⟩
  keccak256 := modularHash
  verify _ points publics := some (decide
    (points = depositProof.proof ∧ publics = publicSignals smallSize depositInputs ∨
      points = withdrawalProof.proof ∧ publics = publicSignals smallSize withdrawalInputs))
  transfer token source target amount balances := some (moveExactly token source target amount balances)

theorem frFromBytes_toBeBytes (x : Fr) : frFromBytes (toBeBytes 32 x.val) = x := by
  have small := ZMod.val_lt x
  have bound := bn256Modulus_lt
  rw [frFromBytes, fromBeBytes_toBeBytes (by omega), ZMod.natCast_zmod_val]

theorem publicInputs_submission (points : Groth16Proof) {x : PolicyTransaction.Inputs}
    (members : x.membershipRoots 1 0 = x.membershipRoots 0 0)
    (absences : x.nonMembershipRoots 1 0 = x.nonMembershipRoots 0 0) :
    publicInputs (submission points x) = publicSignals smallSize x := by
  simp only [publicInputs, submission, frFromBytes_u256ToBytes, List.map_cons, List.map_nil, ofU256_toU256,
    frFromBytes_toBeBytes]
  change _ = [x.root, x.publicAmount, x.extDataHash, x.inputNullifier 0, x.inputNullifier 1, x.outputCommitment 0,
    x.outputCommitment 1, x.membershipRoots 0 0, x.membershipRoots 1 0, x.nonMembershipRoots 0 0,
      x.nonMembershipRoots 1 0]
  rw [members, absences]
  rfl

/-- The verifier by the numbers that are submitted. -/
theorem sampleDeployment_eq : sampleDeployment =
    { this := ⟨1⟩
      keccak256 := modularHash
      verify := fun _ points publics => some (decide
        (points = depositProof.proof ∧ publics = publicInputs depositProof ∨
          points = withdrawalProof.proof ∧ publics = publicInputs withdrawalProof))
      transfer := fun token source target amount balances =>
        some (moveExactly token source target amount balances) } := by
  rw [sampleDeployment, depositProof, withdrawalProof, publicInputs_submission _ rfl rfl,
    publicInputs_submission _ rfl rfl]

def sampleConfig : Config where
  admin := ⟨2⟩
  token := ⟨3⟩
  verifier := ⟨5⟩
  aspMembership := ⟨7⟩
  aspNonMembership := ⟨9⟩
  maximumDepositAmount := 1000
  levels := 2

def sampleBalances : Balances := fun _ _ => 50

def inputsOf (points : Groth16Proof) : PolicyTransaction.Inputs :=
  if points = depositProof.proof then depositInputs else withdrawalInputs

theorem inputsOf_valid (points : Groth16Proof) : Valid poseidon2 smallSize (inputsOf points) fun _ _ => 0 := by
  have notBlocked : keypair poseidon2 1 ≠ 7 := by decide +kernel
  unfold inputsOf
  split
  · exact firstDeposit_valid _ _ _ notBlocked (by decide +kernel)
  · exact firstSpend_valid _ _ _ notBlocked (by decide +kernel)

def sampleExtractor :
    Extractor Circomlib.standard sampleDeployment sampleConfig.verifier (circuitSize sampleConfig.levels 2) where
  inputs points _ := inputsOf points
  signals points _ := honest poseidon2 (circuitSize sampleConfig.levels 2) (inputsOf points) fun _ _ => 0
  sound points publics accepted := by
    refine ⟨?_, (inputsOf_valid points).satisfied Circomlib.standard_published⟩
    rcases of_decide_eq_true (Option.some.inj accepted) with ⟨isPoints, isPublics⟩ | ⟨isPoints, isPublics⟩
    · rw [inputsOf, if_pos isPoints, isPublics]
      rfl
    · have other : points ≠ depositProof.proof := by
        rw [isPoints]
        decide
      rw [inputsOf, if_neg other, isPublics]
      rfl

def sampleRoots : Roots where
  membership asp := if asp = sampleConfig.aspMembership then some depositProof.aspMembershipRoot else none
  nonMembership asp := if asp = sampleConfig.aspNonMembership then some depositProof.aspNonMembershipRoot else none

def depositCall : Call := .transact sampleRoots [⟨4⟩] depositProof depositExtData ⟨4⟩

def withdrawalCall : Call := .transact sampleRoots [⟨4⟩] withdrawalProof withdrawalExtData ⟨4⟩

end Samples

end PrivatePayments.Pool
