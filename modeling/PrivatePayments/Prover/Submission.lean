import PrivatePayments.Client.PoolProof
import PrivatePayments.LocalState.HostileOutputs
import PrivatePayments.Pool.Admission
import PrivatePayments.Pool.Journal
import PrivatePayments.Prover.Honest

/-!
A transaction from its parameters to the contract: what was built, proved and encoded is what the
contract reads, and the contract takes it.
-/

namespace PrivatePayments.Prover
open Bn254 Poseidon2 Soroban Client LocalState Planner Library Circuits PolicyTransaction

def PreparedTx.onchain (prepared : PreparedTx) : OnchainProofPublicInputs where
  root := prepared.poolRoot
  inputNullifiers := prepared.inputNullifiers
  outputCommitment0 := prepared.outputCommitments.getD 0 0
  outputCommitment1 := prepared.outputCommitments.getD 1 0
  publicAmount := prepared.publicAmountField
  extDataHashBe := prepared.extDataHashBe
  aspMembershipRoot := prepared.aspMembershipRoot
  aspNonMembershipRoot := prepared.aspNonMembershipRoot

/-- The prover is complete: signals that satisfy the circuit make a proof of 256 bytes that the verifier accepts. -/
structure Proves (C : Circomlib) (D : Pool.Deployment) (verifier : Address) (size : Size)
    (prove : Inputs → Signals → Bytes) : Prop where
  length : ∀ x w, (prove x w).length = 256
  accepted : ∀ x w, Satisfied C poseidon2 size x w →
    D.verify verifier (pointsOf (prove x w)) (publicSignals size x) = some true

section Encoding

variable {H : Hasher} {X : Cipher} {D : Draws} {p : TransactParams}

theorem toBeBytes_eq_reverse (width n : Nat) : toBeBytes width n = (LittleEndian.toLeBytes width n).reverse := by
  induction width generalizing n with
  | zero => rfl
  | succ width ih => rw [toBeBytes, LittleEndian.toLeBytes, List.reverse_cons, ih]

theorem be32To0xHex_toBeBytes {n : Nat} (small : n < bn256Modulus) :
    be32To0xHex (toBeBytes 32 n) = scalarToHex (n : Fr) := by
  have value : (n : Fr).val = n := ZMod.val_natCast_of_lt small
  rw [be32To0xHex, scalarToHex, scalarToBytes, value, toBeBytes_eq_reverse]
  rfl

/-- The public inputs that the contract assembles are the public signals of what was built. -/
theorem publicInputs_submitted (proofUncompressed : Bytes) {n : Nat} (small : n < bn256Modulus) :
    Pool.publicInputs (submitted proofUncompressed (builtPrepared H D p (toBeBytes 32 n)).onchain) =
      publicSignals (Pool.circuitSize p.treeDepth p.smtDepth) (assignment H D p (n : Fr)) := by
  have below := bn256Modulus_lt
  have read : Pool.frFromBytes (toBeBytes 32 n) = (n : Fr) := by
    rw [Pool.frFromBytes, fromBeBytes_toBeBytes (by omega)]
  have signals : publicSignals (Pool.circuitSize p.treeDepth p.smtDepth) (assignment H D p (n : Fr)) =
      [p.poolRoot, publicAmount p, (n : Fr), slotNullifier H D p 0, slotNullifier H D p 1, slotCommitment H D p 0,
        slotCommitment H D p 1, p.membershipProof.root, p.membershipProof.root, p.nonMembershipProof.root,
        p.nonMembershipProof.root] := rfl
  rw [signals, Pool.publicInputs]
  simp only [submitted, PreparedTx.onchain, builtPrepared, perSlot, Pool.frFromBytes_u256ToBytes, ofU256_toU256,
    List.map_map, Function.comp_def, List.length_map, List.length_range, read]
  rfl

theorem nullifiers_submitted (proofUncompressed hash : Bytes) :
    (submitted proofUncompressed (builtPrepared H D p hash).onchain).inputNullifiers =
      (List.range 2).map fun slot => toU256 (slotNullifier H D p slot) := List.map_map

theorem commitments_submitted (proofUncompressed hash : Bytes) :
    (submitted proofUncompressed (builtPrepared H D p hash).onchain).outputCommitment0 =
    toU256 (slotCommitment H D p 0) ∧
      (submitted proofUncompressed (builtPrepared H D p hash).onchain).outputCommitment1 =
        toU256 (slotCommitment H D p 1) := ⟨rfl, rfl⟩

end Encoding

section Books

variable {D : Pool.Deployment} {config : Pool.Config}

/-- What no call takes away from a pool. -/
structure Opened (config : Pool.Config) (pool : Pool.Storage) : Prop where
  token : pool.token = some config.token
  verifier : pool.verifier = some config.verifier
  nullifiers : pool.nullifiers.isSome

theorem opened_journal (positive : 0 < config.levels) (bounded : config.levels ≤ 32) (balances : Pool.Balances)
    (calls : List Pool.Call) : Opened config (Pool.journal D config balances calls).ledger.pool := by
  induction calls using List.reverseRecOn with
  | nil =>
    obtain ⟨m, written⟩ := Pool.deployed_eq positive bounded balances
    change Opened config (config.deployed balances).storage.pool
    rw [written]
    exact ⟨rfl, rfl, rfl⟩
  | append_singleton calls call ih =>
    rw [Pool.journal_concat]
    rcases Pool.advance_cases D (Pool.journal D config balances calls) call with same | entered | beside
    · rw [same]
      exact ih
    · obtain ⟨t, next, entered⟩ := entered
      obtain ⟨roots, auths, sender, -, accepted⟩ := entered.accepted
      obtain ⟨token, middle, idx0, idx1, tree, moved, -, -, -, -, settled⟩ := accepted.settled
      rw [entered.advance]
      change Opened config next.storage.pool
      rw [settled]
      refine ⟨ih.token, ih.verifier, ?_⟩
      change (Option.map _ _).isSome
      rw [Option.isSome_map]
      exact ih.nullifiers
    · obtain ⟨next, books, -, advanced⟩ := beside
      rw [advanced]
      change Opened config next.storage.pool
      exact ⟨books.token.trans ih.token, books.verifier.trans ih.verifier, books.nullifiers ▸ ih.nullifiers⟩

theorem opened_run (positive : 0 < config.levels) (bounded : config.levels ≤ 32) (balances : Pool.Balances)
    (calls : List Pool.Call) : Opened config (Pool.run D poseidon2 config balances calls).env.storage.pool := by
  rw [← Pool.journal_progress]
  exact opened_journal positive bounded balances calls

end Books

/-- What a transaction that was built needs of the ledger it comes to. -/
structure Welcome (D : Pool.Deployment) (config : Pool.Config) (roots : Pool.Roots) (auths : List Address)
    (sender recipient : Address) (draws : Draws) (p : TransactParams) (leaves : List U256) (l : Pool.Ledger) :
    Prop where
  authorized : sender ∈ auths
  limit : 0 < p.extAmount.toInt →
    ∃ max, l.pool.maximumDepositAmount = some max ∧ p.extAmount.toInt ≤ (max.toNat : Int)
  tokens : ∃ middle balances, Pool.Deposited D config.token sender (p.extAmount.signExtend 256) l.balances middle ∧
    Pool.Withdrawn D config.token recipient (p.extAmount.signExtend 256) middle balances
  recent : p.poolRoot ≠ 0 ∧ toU256 p.poolRoot ∈
    (Pool.MerkleTreeWithHistory.producedRoots poseidon2 config.levels (leaves.map ofU256)).reverse.take 90
  unspent : ∀ nulls, l.pool.nullifiers = some nulls →
    ∀ slot, slot < 2 → nulls (toU256 (slotNullifier poseidon2 draws p slot)) ≠ some true
  membershipRoot : ∃ asp, l.pool.aspMembership = some asp ∧ roots.membership asp = some (toU256 p.membershipProof.root)
  nonMembershipRoot : ∃ asp, l.pool.aspNonMembership = some asp ∧
    roots.nonMembership asp = some (toU256 p.nonMembershipProof.root)
  room : leaves.length + 2 ≤ 2 ^ config.levels

section Acceptance

variable {D : Pool.Deployment} {config : Pool.Config} {roots : Pool.Roots} {auths : List Address}
  {sender recipient : Address} {draws : Draws} {p : TransactParams} {leaves : List U256} {l : Pool.Ledger}

theorem toNat_publicAmount (p : TransactParams) : (publicAmount p).val = publicAmountValue p.extAmount := by
  have small := publicAmountValue_lt p.extAmount
  have below := bn256Modulus_lt
  rw [publicAmount, ofU256, BitVec.toNat_ofNat, Nat.mod_eq_of_lt (by omega), ZMod.val_natCast_of_lt small]

theorem encodes_publicAmount (p : TransactParams) :
    Pool.Encodes (p.extAmount.signExtend 256) (toU256 (publicAmount p)) := by
  have extended : (p.extAmount.signExtend 256).toInt = p.extAmount.toInt := BitVec.toInt_signExtend_of_le (by decide)
  have bounds := toInt_bounds p.extAmount
  have room : Pool.maxExtAmount < bn256Modulus := by decide
  have limit : 2 ^ 127 < Pool.maxExtAmount := by decide
  rw [Pool.Encodes, extended, toNat_toU256, toNat_publicAmount, publicAmountValue]
  refine ⟨by omega, ?_⟩
  split
  · omega
  · omega

theorem Welcome.admissible (welcome : Welcome D config roots auths sender recipient draws p leaves l)
    (opened : Opened config l.pool) (ready : Ready p) {extData : Pool.ExtData} {hash : Bytes}
    {proofUncompressed : Bytes}
    (isRecipient : extData.recipient = recipient) (isAmount : extData.extAmount = p.extAmount.signExtend 256)
    (hashed : Pool.hashExtData D.keccak256 extData = hash) (whole : proofUncompressed.length = 256)
    (verified : D.verify config.verifier (pointsOf proofUncompressed)
      (Pool.publicInputs (submitted proofUncompressed (builtPrepared poseidon2 draws p hash).onchain)) = some true) :
    Pool.Admissible D poseidon2 config.levels roots auths
      (submitted proofUncompressed (builtPrepared poseidon2 draws p hash).onchain) extData sender leaves l := by
  have extended : (p.extAmount.signExtend 256).toInt = p.extAmount.toInt := BitVec.toInt_signExtend_of_le (by decide)
  have bounds := toInt_bounds p.extAmount
  obtain ⟨nulls, isNulls⟩ := Option.isSome_iff_exists.mp opened.nullifiers
  obtain ⟨middle, balances, deposited, withdrawn⟩ := welcome.tokens
  exact
    { authorized := welcome.authorized
      limit := fun positive => by
        rw [isAmount] at positive ⊢
        rw [extended] at positive
        obtain ⟨max, isMax, small⟩ := welcome.limit positive
        have value := Pool.toNat_of_nonneg (v := p.extAmount.signExtend 256) (by omega)
        exact ⟨max, isMax, by omega⟩
      fits := by
        have negatable : p.extAmount.toInt ≠ -2 ^ 127 := fun lowest =>
          ready.balanced.negatable (BitVec.eq_of_toInt_eq (lowest.trans (by decide)))
        rw [isAmount, extended]
        omega
      tokens := ⟨config.token, middle, balances, opened.token, isAmount ▸ deposited, by
        rw [isRecipient, isAmount]
        exact withdrawn⟩
      recent := ⟨fun zero => welcome.recent.1 (toU256_eq_zero.mp zero), welcome.recent.2⟩
      unspent := by
        rw [nullifiers_submitted]
        exact List.forall_mem_map.mpr fun slot low =>
          ⟨nulls, isNulls, welcome.unspent nulls isNulls slot (List.mem_range.mp low)⟩
      extDataHash := hashed
      publicAmount := isAmount ▸ encodes_publicAmount p
      membershipRoot := welcome.membershipRoot
      nonMembershipRoot := welcome.nonMembershipRoot
      points := isEmpty_pointsOf whole
      canonical :=
        { root := canonical_toU256 _
          publicAmount := canonical_toU256 _
          inputNullifiers := by
            rw [nullifiers_submitted]
            exact List.forall_mem_map.mpr fun slot _ => canonical_toU256 _
          outputCommitment0 := canonical_toU256 _
          outputCommitment1 := canonical_toU256 _
          aspMembershipRoot := canonical_toU256 _
          aspNonMembershipRoot := canonical_toU256 _ }
      verified := ⟨config.verifier, opened.verifier, verified⟩
      room := welcome.room }

end Acceptance

/-- What becomes of a transaction that was built: its witness, its proof, its arguments and the call. -/
structure Delivered (C : Circomlib) (D : Pool.Deployment) (parse : AddressParser)
    (parseBytes : String → Nat → Option Int)
    (prove : Inputs → Signals → Bytes) (draws : Draws) (roots : Pool.Roots) (auths : List Address)
    (sender recipient : Address) (p : TransactParams) (a : TransactArtifacts) (env : Env Pool.Ledger) where
  inputs : Inputs
  signals : Signals
  proof : Pool.Proof
  extData : Pool.ExtData
  calculated : ∃ m, Witness.inputsHashmap parseBytes a.circuitInputs.toJson = .ok m ∧
    Assigns m (Pool.circuitSize p.treeDepth p.smtDepth) inputs
  satisfied : Satisfied C poseidon2 (Pool.circuitSize p.treeDepth p.smtDepth) inputs signals
  proofRead : ∃ argument, poolProofToScval (prove inputs signals) a.prepared.onchain = .ok argument ∧
    decodeProof argument = some proof
  extDataRead : ∃ argument, poolExtDataToScval parse a.extData = .ok argument ∧
    Pool.ExtData.ofScval argument = some extData
  isProof : proof = submitted (prove inputs signals) a.prepared.onchain
  recipient : extData.recipient = recipient
  amount : extData.extAmount.toInt = p.extAmount.toInt
  encryptedOutputs : extData.encryptedOutput0 = a.extData.encryptedOutput0 ∧
    extData.encryptedOutput1 = a.extData.encryptedOutput1
  nullifiers : proof.inputNullifiers = (List.range 2).map fun slot => toU256 (slotNullifier poseidon2 draws p slot)
  commitments : proof.outputCommitment0 = toU256 (slotCommitment poseidon2 draws p 0) ∧
    proof.outputCommitment1 = toU256 (slotCommitment poseidon2 draws p 1)
  accepted : ∃ next, (Pool.transact D poseidon2 roots auths proof extData sender).run env = .ok ((), next) ∧
    Pool.Accepted D poseidon2 roots auths proof extData sender env.storage next.storage

/-- What was built carries the hash that the contract computes of the data it reads. -/
theorem exists_onchain {parse : AddressParser} {keccak256 : List UInt8 → U256} {H : Hasher} {X : Cipher} {draws : Draws}
    {p : TransactParams} {a : TransactArtifacts}
    (made : transact H X draws (hashExtDataOffchain parse keccak256) p = .ok a)
    {address : Soroban.ScAddress} {recipient : Address} (parsed : parse p.extRecipient = .ok address)
    (host : Address.ofScAddress address = some recipient) :
    ∃ policy n argument onchain, Sets policy (policySignals p.membershipProof p.nonMembershipProof) ∧
      n < bn256Modulus ∧ a = built H X draws p policy (toBeBytes 32 n) ∧
      poolExtDataToScval parse (builtExtData X draws p) = .ok argument ∧ Pool.ExtData.ofScval argument = some onchain ∧
      onchain.recipient = recipient ∧ onchain.extAmount = p.extAmount.signExtend 256 ∧
      onchain.encryptedOutput0 = slotEncrypted X draws p 0 ∧ onchain.encryptedOutput1 = slotEncrypted X draws p 1 ∧
      Pool.hashExtData keccak256 onchain = toBeBytes 32 n := by
  obtain ⟨policy, sets, returned⟩ := transact_of_ready (H := H) (X := X) (D := draws) (ready_of_transact made)
  obtain ⟨hash, hashed, isBuilt⟩ := of_bind_ok (returned.symm.trans made)
  obtain rfl := Except.ok.inj isBuilt
  obtain ⟨payload, encoded, isHash⟩ := of_bind_ok hashed
  obtain rfl := Except.ok.inj isHash
  have argument := poolExtDataToScval_eq (encodable_of_payload encoded) parsed
  obtain ⟨onchain, decoded, isRecipient, isAmount, isOut0, isOut1, -⟩ := ofScval_extData (builtExtData X draws p) host
  have agree := ext_data_hash_agreement parse keccak256 (builtExtData X draws p) address parsed
  obtain ⟨-, -, -, -, -, sameHash⟩ := agree.contract _ onchain argument decoded
  exact ⟨policy, (keccak256 payload).toNat % bn256Modulus, _, onchain, sets, Nat.mod_lt _ (by decide), rfl, argument,
    decoded, isRecipient, isAmount, isOut0, isOut1, (Except.ok.inj (hashed.symm.trans sameHash)).symm⟩

/-- A transaction that was built on valid proofs is delivered to every pool that is ready for it. -/
theorem transact_delivered {C : Circomlib} (lib : C.Published) {D : Pool.Deployment} {config : Pool.Config}
    (positive : 0 < config.levels) (bounded : config.levels ≤ 32) {balances : Pool.Balances} {calls : List Pool.Call}
    {parse : AddressParser} {parseBytes : String → Nat → Option Int} (reads : ReadsHex parseBytes)
    {prove : Inputs → Signals → Bytes} {X : Cipher} {draws : Draws} {p : TransactParams} {a : TransactArtifacts}
    (made : transact poseidon2 X draws (hashExtDataOffchain parse D.keccak256) p = .ok a)
    (proven : Proven poseidon2 draws p)
    (proves : Proves C D config.verifier (Pool.circuitSize p.treeDepth p.smtDepth) prove)
    {address : Soroban.ScAddress} {recipient : Address} (parsed : parse p.extRecipient = .ok address)
    (host : Address.ofScAddress address = some recipient) {roots : Pool.Roots} {auths : List Address} {sender : Address}
    (welcome : Welcome D config roots auths sender recipient draws p (Pool.run D poseidon2 config balances calls).leaves
      (Pool.run D poseidon2 config balances calls).env.storage) :
    Nonempty (Delivered C D parse parseBytes prove draws roots auths sender recipient p a
      (Pool.run D poseidon2 config balances calls).env) := by
  have ready := ready_of_transact made
  have opened := opened_run (D := D) positive bounded balances calls
  have follows : Pool.Follows poseidon2 config.levels (Pool.run D poseidon2 config balances calls) :=
    Pool.follows_run Merkle.zeroAt_chain positive bounded calls
  obtain ⟨policy, n, argument, onchain, sets, small, rfl, encoded, decoded, isRecipient, isAmount, isOut0,
      isOut1, hashed⟩ := exists_onchain made parsed host
  obtain ⟨m, run, assigns⟩ := assigns_built (H := poseidon2) (X := X) (D := draws) reads ready sets
    (be32To0xHex_toBeBytes small)
  obtain ⟨insertion, valid⟩ := proven.valid ready (x := (n : Fr))
  have satisfied := valid.satisfied lib
  have verified := proves.accepted _ _ satisfied
  have whole := proves.length (assignment poseidon2 draws p n)
    (honest poseidon2 (Pool.circuitSize p.treeDepth p.smtDepth) (assignment poseidon2 draws p n) insertion)
  rw [← publicInputs_submitted _ small] at verified
  have admissible := welcome.admissible opened ready isRecipient isAmount hashed whole verified
  obtain ⟨u, next, returned, accepted⟩ := admissible.returns follows Merkle.zeroAt_chain positive bounded _ rfl
  exact ⟨
    { inputs := assignment poseidon2 draws p n
      signals := honest poseidon2 (Pool.circuitSize p.treeDepth p.smtDepth) (assignment poseidon2 draws p n) insertion
      proof := submitted _ (builtPrepared poseidon2 draws p (toBeBytes 32 n)).onchain
      extData := onchain
      calculated := ⟨m, run, assigns⟩
      satisfied := satisfied
      proofRead := ⟨_, poolProofToScval_eq whole ((length_toBeBytes 32 n).trans_lt (by decide))
        (show 2 < 2 ^ 32 by decide),
        decodeProof_proofScval whole (length_toBeBytes 32 n)⟩
      extDataRead := ⟨argument, encoded, decoded⟩
      isProof := rfl
      recipient := isRecipient
      encryptedOutputs := ⟨isOut0, isOut1⟩
      amount := by
        rw [isAmount]
        exact BitVec.toInt_signExtend_of_le (by decide)
      nullifiers := nullifiers_submitted _ _
      commitments := commitments_submitted _ _
      accepted := ⟨next, returned, accepted⟩ }⟩

section Samples

/-- A prover that writes a checksum of the public inputs. -/
def checksumProof (publics : List Fr) : Bytes :=
  List.replicate 224 0 ++ toBeBytes 32 (publics.foldl (fun sum x => 7 * sum + x) 0).val

def checksumDeployment : Pool.Deployment :=
  { Pool.sampleDeployment with verify := fun _ points publics => some (decide
    (points = pointsOf (checksumProof publics))) }

theorem proves_checksum (verifier : Address) (size : Size) :
    Proves Circomlib.standard checksumDeployment verifier size fun x _ => checksumProof (publicSignals size x) where
  length _ _ := by rw [checksumProof, List.length_append, List.length_replicate, length_toBeBytes]
  accepted _ _ _ := congrArg some (decide_eq_true rfl)

end Samples

end PrivatePayments.Prover
