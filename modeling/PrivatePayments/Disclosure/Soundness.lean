import PrivatePayments.Circuits.SelectiveDisclosure
import PrivatePayments.Disclosure.Verification
import PrivatePayments.Pool.Extraction

/-!
What a fully verified report says: the disclosed commitments are leaves of the pool that the
receipt names, their openings are known, and the proof is bound to the context. No check reads
the network of the context against the network of the client.
-/

namespace PrivatePayments.Disclosure
open Bn254 Poseidon2 Soroban Library FullTree Merkle Circuits

structure PoolHistory where
  deployment : Pool.Deployment
  config : Pool.Config
  balances : Pool.Balances
  calls : List Pool.Call

namespace PoolHistory

def progress (history : PoolHistory) : Pool.Progress :=
  Pool.run history.deployment poseidon2 history.config history.balances history.calls

def leaves (history : PoolHistory) : List Fr := history.progress.leaves.map ofU256

/-- A commitment is a leaf of the tree under a root that the pool has had. -/
def HasLeaf (history : PoolHistory) (root commitment : Fr) : Prop :=
  ∃ n, 2 * n ≤ history.leaves.length ∧
    root = Pool.MerkleTreeWithHistory.rootOf poseidon2 history.config.levels (history.leaves.take (2 * n)) ∧
      commitment ∈ history.leaves.take (2 * n)

def queries (history : PoolHistory) : Set Query := Pool.rootQueries history.config.levels history.leaves

end PoolHistory

/-- The ledger answers a simulated call as the pool's contract does. -/
def WebClient.AsksThePools (client : WebClient) (histories : Text → PoolHistory) : Prop :=
  ∀ pool root known, client.simulateIsKnownRoot pool root = .ok known →
    ∃ next, (Pool.isKnownRoot root).run (histories pool).progress.env = .ok (known, next)

/-- Whoever made the proof of a receipt: knowledge soundness gives an assignment of the circuit's
signals that the proof stands for. -/
structure Prover (G : Groth16) (C : Circomlib) (vkBytes : List UInt8) (receipt : DisclosureReceipt) where
  x : SelectiveDisclosure.Inputs
  w : SelectiveDisclosure.Signals
  sound : ∀ vk pvk proofBytes proof, G.deserializeVerifyingKey vkBytes = some vk → G.processVk vk = some pvk →
    receipt.proofCompressedBytes = .ok proofBytes → G.deserializeProof proofBytes = some proof →
      G.verifyWithProcessedVk pvk receipt.publicInputs.elements proof = some true →
        SelectiveDisclosure.publicSignals 1 x = receipt.publicInputs.elements ∧
          SelectiveDisclosure.Satisfied C poseidon2 10 1 x w

/-- Nothing that is hashed here collides: keys and contexts under SHA-256 reduced to the field,
the pool's tree and the prover's assignment under Poseidon2. -/
structure NoCollision (sha256 : Sha256) (client : WebClient) (history : PoolHistory) (vkBytes : List UInt8)
    (receipt : DisclosureReceipt) (x : SelectiveDisclosure.Inputs) (w : SelectiveDisclosure.Signals)
    (hashed : Set (List UInt8)) : Prop where
  digests : Set.InjOn (fun bytes => fromLeBytesModOrder (sha256 bytes)) hashed
  key : vkBytes ∈ hashed
  loadedKey : ∀ bytes, client.getVerifyingKey = .ok bytes → bytes ∈ hashed
  context : contextBytes receipt.context ∈ hashed
  answers : Set.InjOn poseidon2.answer (history.queries ∪ {q | q ∈ SelectiveDisclosure.queries poseidon2 10 1 x w})

/-- What a fully verified receipt should stand for. -/
structure Attested (sha256 : Sha256) (client : WebClient) (history : PoolHistory) (receipt : DisclosureReceipt)
    (x : SelectiveDisclosure.Inputs) (hashed : Set (List UInt8)) : Prop where
  network : receipt.context.network = client.config.network
  pool : ∃ entry ∈ client.config.pools, entry.enabled = true ∧ entry.poolContractId = receipt.context.poolAddress
  checked : ∀ root ∈ receipt.publicInputs.roots,
    client.simulateIsKnownRoot receipt.context.poolAddress (toU256 root) = .ok true
  disclosed : receipt.publicInputs.roots.length = receipt.publicInputs.noteCommitments.length
  leaf : ∀ p ∈ receipt.publicInputs.roots.zip receipt.publicInputs.noteCommitments, history.HasLeaf p.1 p.2
  opening : ∀ i commitment, receipt.publicInputs.noteCommitments[i]? = some commitment →
    commitment = SelectiveDisclosure.commitment poseidon2 (x.inAmount i) (x.inPrivateKey i) (x.inBlinding i)
  context : deriveExtContextHash sha256 receipt.context = .ok x.extContextHash
  noOther : ∀ context, contextBytes context ∈ hashed → deriveExtContextHash sha256 context = .ok x.extContextHash →
    context = receipt.context

section Pool

variable {history : PoolHistory}

theorem PoolHistory.hasLeaf {C : Circomlib} (lib : C.Published) (levels : history.config.levels = 10)
    {x : SelectiveDisclosure.Inputs} {w : SelectiveDisclosure.Signals} {ni : Nat} (low : ni < 1)
    (sat : SelectiveDisclosure.NoteSatisfied C poseidon2 10 x w ni)
    (inj : Set.InjOn poseidon2.answer
      (history.queries ∪ {q | q ∈ SelectiveDisclosure.queries poseidon2 10 1 x w})) {next : Env Pool.Ledger}
    (known : (Pool.isKnownRoot (toU256 (x.roots ni))).run history.progress.env = .ok (true, next)) :
    history.HasLeaf (x.roots ni) (x.noteCommitments ni) := by
  have follows : Pool.Follows poseidon2 history.config.levels history.progress :=
    Pool.follows_run zeroAt_chain (by omega) (by omega) history.calls
  obtain ⟨n, bound, root⟩ := follows.root_of_known rfl (canonical_toU256 _) known
  rw [ofU256_toU256] at root
  refine ⟨n, by rw [PoolHistory.leaves, List.length_map]; exact bound, root, ?_⟩
  rw [levels] at root
  have found := sat.leaf_eq lib (by decide +kernel) inj
    (fun q member => Or.inl (Or.inr ⟨n, by rw [levels]; exact member⟩))
    (fun q member => Or.inr (SelectiveDisclosure.mem_queries low (Or.inr member))) root
  have filled : x.noteCommitments ni ≠ zeroAt 0 := by
    rw [sat.opens, ← SelectiveDisclosure.commitment_note]
    exact PolicyTransaction.Note.commitment_ne_zeroAt inj (Or.inr (SelectiveDisclosure.mem_queries low (Or.inl rfl)))
      (Or.inl (Or.inl rfl))
  exact List.mem_of_getElem? (getElem?_of_leafAt found filled)

end Pool

section Verdict

variable {G : Groth16} {C : Circomlib} {sha256 : Sha256} {client : WebClient} {histories : Text → PoolHistory}
  {receipt : DisclosureReceipt} {expectedVkHash : Text} {vkBytes : List UInt8} {hashed : Set (List UInt8)}

theorem publicSignals_one {x : SelectiveDisclosure.Inputs} {inputs : DisclosurePublicInputs}
    (same : SelectiveDisclosure.publicSignals 1 x = inputs.elements) (roots : inputs.roots.length = 1)
    (commitments : inputs.noteCommitments.length = 1) :
    inputs.roots = [x.roots 0] ∧ inputs.noteCommitments = [x.noteCommitments 0] ∧
      inputs.extContextHash = x.extContextHash := by
  obtain ⟨root, rootsEq⟩ := List.length_eq_one_iff.mp roots
  obtain ⟨commitment, commitmentsEq⟩ := List.length_eq_one_iff.mp commitments
  rw [DisclosurePublicInputs.elements, rootsEq, commitmentsEq] at same
  have signals : [x.roots 0, x.noteCommitments 0, x.extContextHash] = [root, commitment, inputs.extContextHash] := same
  simp only [List.cons.injEq, and_true] at signals
  rw [rootsEq, commitmentsEq, signals.1, signals.2.1]
  exact ⟨rfl, rfl, signals.2.2.symm⟩

/-- The proof of an accepted receipt was made under the expected key, so its maker holds an
assignment with these public inputs. -/
theorem Prover.holds (expected : verifyingKeyHash sha256 vkBytes = expectedVkHash.content)
    (prover : Prover G C vkBytes receipt) {history : PoolHistory}
    (free : NoCollision sha256 client history vkBytes receipt prover.x prover.w hashed)
    (done : client.verifyDisclosureProof G sha256 receipt expectedVkHash = .ok true) :
    SelectiveDisclosure.publicSignals 1 prover.x = receipt.publicInputs.elements ∧
      SelectiveDisclosure.Satisfied C poseidon2 10 1 prover.x prover.w := by
  obtain ⟨_, loaded, proofBytes, ready, same, proof, verified⟩ := verifyDisclosureProof_ok done
  have digest := verifyingKeyHash_eq (same.trans expected.symm)
  have key : loaded = vkBytes := free.digests (free.loadedKey _ ready) free.key
    (congrArg fromLeBytesModOrder digest)
  rw [key] at verified
  obtain ⟨vk, pvk, parsed, read, processed, deserialized, accepted⟩ := verifyProof_ok verified
  exact prover.sound vk pvk proofBytes parsed read processed proof deserialized accepted

/-- A fully verified receipt stands for what it shows iff its context names the network of the client. -/
theorem disclosure_attested_iff (lib : C.Published) (asks : client.AsksThePools histories) {receiptJson : String}
    (parsed : client.fromStr receiptJson = .ok receipt)
    (expected : verifyingKeyHash sha256 vkBytes = expectedVkHash.content) (prover : Prover G C vkBytes receipt)
    (levels : (histories receipt.context.poolAddress).config.levels = 10)
    (free : NoCollision sha256 client (histories receipt.context.poolAddress) vkBytes receipt prover.x prover.w hashed)
    {report : DisclosureVerificationReport}
    (done : client.verifySelectiveDisclosure G sha256 receiptJson expectedVkHash = .ok report)
    (verified : report.proofVerified = true ∧ report.contextVerified = true ∧ report.knownRootStatus = true) :
    Attested sha256 client (histories receipt.context.poolAddress) receipt prover.x hashed ↔
      receipt.context.network = client.config.network := by
  refine ⟨Attested.network, fun network => ?_⟩
  obtain ⟨proof, known, context⟩ := verifySelectiveDisclosure_ok parsed done
  rw [verified.1] at proof
  rw [verified.2.1] at context
  rw [verified.2.2] at known
  obtain ⟨signals, satisfied⟩ := prover.holds expected free proof
  obtain ⟨-, oneRoot, oneCommitment⟩ := validateRegisteredReceipt_ok (verifyDisclosureProof_ok proof).1
  obtain ⟨roots, commitments, ext⟩ := publicSignals_one signals oneRoot oneCommitment
  have asked := knownRoots_ok known
  have note := satisfied.notes 0 Nat.one_pos
  have first : prover.x.roots 0 ∈ receipt.publicInputs.roots := by
    rw [roots]
    exact List.mem_singleton_self _
  obtain ⟨pool, answer⟩ := isPoolKnownRoot_ok (asked _ first)
  have derived := verifyReceiptContext_ok context
  rw [ext] at derived
  refine ⟨network, pool, fun root member => (isPoolKnownRoot_ok (asked root member)).2,
    oneRoot.trans oneCommitment.symm,
    ?_, ?_, derived, ?_⟩
  · obtain ⟨next, simulated⟩ := asks _ _ _ answer
    have leaf := (histories receipt.context.poolAddress).hasLeaf lib levels Nat.one_pos note free.answers simulated
    rw [roots, commitments]
    exact fun p member => (List.mem_singleton.mp member) ▸ leaf
  · intro i commitment at_
    rw [commitments] at at_
    obtain ⟨low, here⟩ := List.getElem?_eq_some_iff.mp at_
    obtain rfl : i = 0 := Nat.lt_one_iff.mp low
    exact here.symm.trans note.opens
  · intro other member same
    have digests := (deriveExtContextHash_ok same).symm.trans (deriveExtContextHash_ok derived)
    exact contextBytes_injective (free.digests member free.context digests)

end Verdict

section Sample

def testnet : Text := ⟨"testnet", by decide +kernel⟩

def mainnet : Text := ⟨"mainnet", by decide +kernel⟩

def samplePoolId : Text := ⟨"CC4ID36B3B2UCKZOTGX2NY3VUI36IXCGHBUUPNDZBYTS7UGNSPIZ5P2A", by decide +kernel⟩

def sampleContext (network : Text) : DisclosureContext where
  network := network
  poolAddress := samplePoolId
  authorityLabel := ⟨"Auditor", by decide +kernel⟩
  authorityIdentityPayloadHex := ⟨"0x61", by decide +kernel⟩
  purpose := ⟨"audit", by decide +kernel⟩
  contextNonce := 42

def sampleKey : List UInt8 := [118, 107]

def sampleSha256 : Sha256 := fun bytes =>
  if bytes = sampleKey then toBeBytes 32 0x8630c6c9af0730c3e9635a44c97bfb4ac4ff57c449951a60848ac666f5f2de0c
  else if bytes = contextBytes (sampleContext testnet) then
    toBeBytes 32 0xab633b1948951eaaac34618b78fafe35748874f3688d9b807d374a1a100f9aa5
  else toBeBytes 32 0xeff8a4c9445fa0e56edf6bf0a6274b10939a5ee4a05816e20a9b63e3efcee6eb

def sampleVkHash : Text :=
  ⟨"0x8630c6c9af0730c3e9635a44c97bfb4ac4ff57c449951a60848ac666f5f2de0c", by decide +kernel⟩

/-- The note of the key 5 with the amount 7, filed first, next to a dummy. -/
def sampleCommitment : Fr := SelectiveDisclosure.commitment poseidon2 7 5 9

def pairSiblings (d : Fr) (k : Nat) : Fr := if k = 0 then d else zeroAt k

def sampleRoot : Fr := walk poseidon2.compress (0 : Fr).val.testBit (pairSiblings 5) sampleCommitment 10

def samplePool : PoolHistory where
  deployment :=
    { this := ⟨1⟩
      keccak256 := fun bytes => BitVec.ofNat 256 (fromBeBytes bytes)
      verify := fun _ _ _ => some true
      transfer := fun _ _ _ _ _ => none }
  config :=
    { admin := ⟨2⟩, token := ⟨3⟩, verifier := ⟨5⟩, aspMembership := ⟨7⟩, aspNonMembership := ⟨9⟩
      maximumDepositAmount := 1000, levels := 10 }
  balances := fun _ _ => 0
  calls :=
    let extData : Pool.ExtData := { recipient := ⟨4⟩, extAmount := 0, encryptedOutput0 := [1], encryptedOutput1 := [2] }
    [.transact { membership := fun _ => some 11, nonMembership := fun _ => some 12 } [⟨4⟩]
      { proof := { a := [1], b := [2], c := [3] }
        root := toU256 (zeroAt 10)
        inputNullifiers := [1, 2]
        outputCommitment0 := toU256 sampleCommitment
        outputCommitment1 := 5
        publicAmount := 0
        extDataHash := Pool.hashExtData (fun bytes => BitVec.ofNat 256 (fromBeBytes bytes)) extData
        aspMembershipRoot := 11
        aspNonMembershipRoot := 12 }
      extData ⟨4⟩]

def noteInputs (amount privateKey blinding extContextHash : Fr) (siblings : Nat → Fr) : SelectiveDisclosure.Inputs where
  roots _ := walk poseidon2.compress (0 : Fr).val.testBit siblings
    (SelectiveDisclosure.commitment poseidon2 amount privateKey blinding) 10
  noteCommitments _ := SelectiveDisclosure.commitment poseidon2 amount privateKey blinding
  extContextHash := extContextHash
  inAmount _ := amount
  inPrivateKey _ := privateKey
  inBlinding _ := blinding
  inPathIndices _ := 0
  inPathElements _ := siblings

theorem noteInputs_satisfied (amount privateKey blinding extContextHash : Fr) (siblings : Nat → Fr) :
    SelectiveDisclosure.Satisfied Circomlib.standard poseidon2 10 1
      (noteInputs amount privateKey blinding extContextHash siblings)
      (SelectiveDisclosure.honest poseidon2 10 (noteInputs amount privateKey blinding extContextHash siblings)) := by
  refine SelectiveDisclosure.honest_satisfied Circomlib.standard_published poseidon2 (by decide) ?_ ?_ ?_
  · intro ni _
    change (0 : Fr).val < 2 ^ 10
    decide
  · intro ni _
    simp only [noteInputs]
  · intro ni _
    simp only [SelectiveDisclosure.honest, MerkleProof.honest, MerkleProof.walkTo, noteInputs]

def sampleInputs (network : Text) : SelectiveDisclosure.Inputs :=
  noteInputs 7 5 9 (fromLeBytesModOrder (sampleSha256 (contextBytes (sampleContext network)))) (pairSiblings 5)

def sampleReceipt (network : Text) : DisclosureReceipt where
  version := 1
  circuit := selectiveDisclosure1.receiptMetadata sampleVkHash
  context := sampleContext network
  publicInputs :=
    { roots := [sampleRoot]
      noteCommitments := [sampleCommitment]
      extContextHash := (sampleInputs network).extContextHash }
  proofCompressedHex := ⟨String.ofList ('0' :: 'x' :: List.replicate 256 '1'), by decide +kernel⟩
  issuedAt := ⟨"2026-01-01T00:00:00.000Z", by decide +kernel⟩

def sampleGroth16 (network : Text) : Groth16 where
  VerifyingKey := Unit
  PreparedVerifyingKey := Unit
  Proof := Unit
  deserializeVerifyingKey bytes := if bytes = sampleKey then some () else none
  processVk := some
  gammaAbcG1 _ := 4
  deserializeProof bytes := if bytes.length = 128 then some () else none
  verifyWithProcessedVk _ inputs _ := some (decide (inputs = (sampleReceipt network).publicInputs.elements))

def sampleClient (network : Text) : WebClient where
  config := { network := testnet, pools := [{ poolContractId := samplePoolId, enabled := true }] }
  fromStr _ := .ok (sampleReceipt network)
  pingProver := .ok ()
  getVerifyingKey := .ok sampleKey
  simulateIsKnownRoot _ root :=
    match (Pool.isKnownRoot root).run samplePool.progress.env with
    | .ok (known, _) => .ok known
    | .error _ => .error "simulation failed"

theorem sample_accepted : ∀ network ∈ [testnet, mainnet],
    (sampleClient network).verifySelectiveDisclosure (sampleGroth16 network) sampleSha256 "" sampleVkHash =
      .ok { proofVerified := true, contextVerified := true, knownRootStatus := true } := by
  decide +kernel

theorem sample_asks (network : Text) : (sampleClient network).AsksThePools fun _ => samplePool := by
  intro pool root known told
  change (match (Pool.isKnownRoot root).run samplePool.progress.env with
    | .ok (known, _) => Except.ok known
    | .error _ => Except.error "simulation failed") = Except.ok known at told
  split at told
  next b env ran => exact ⟨env, Except.ok.inj told ▸ ran⟩
  next => cases told

def sampleProver (network : Text) : Prover (sampleGroth16 network) Circomlib.standard sampleKey
    (sampleReceipt network) where
  x := sampleInputs network
  w := SelectiveDisclosure.honest poseidon2 10 (sampleInputs network)
  sound _ _ _ _ _ _ _ _ _ := ⟨rfl, noteInputs_satisfied _ _ _ _ _⟩

theorem sample_leaves : samplePool.leaves = [sampleCommitment, 5] := by decide +kernel

section Pair

variable {c d : Fr} {k : Nat}

theorem node_pair_padding {b : Nat} (low : k ≤ 32) (beyond : 2 ≤ b * 2 ^ k) :
    node poseidon2.compress (leafAt [c, d]) k b = zeroAt k :=
  node_padding zeroAt_chain low fun _ above => List.getD_eq_default _ _ (le_trans beyond above)

theorem node_pair_sibling (low : k ≤ 32) : node poseidon2.compress (leafAt [c, d]) k 1 = pairSiblings d k := by
  cases k with
  | zero => rfl
  | succ k =>
    refine (node_pair_padding low ?_).trans (if_neg (Nat.succ_ne_zero k)).symm
    rw [Nat.one_mul, pow_succ]
    exact Nat.le_mul_of_pos_left 2 (Nat.two_pow_pos k)

/-- The nodes above the first of two leaves are where the walk from it goes. -/
theorem node_pair {bit : Nat → Bool} (straight : ∀ k, bit k = false) (low : k ≤ 32) :
    node poseidon2.compress (leafAt [c, d]) k 0 = walk poseidon2.compress bit (pairSiblings d) c k := by
  induction k with
  | zero => rfl
  | succ k ih =>
    rw [node_succ, Nat.mul_zero, ih (by omega), Nat.zero_add, node_pair_sibling (by omega), walk, straight,
      if_neg Bool.false_ne_true]

/-- The queries of the tree over two leaves: those of the walk from the first, and those of padding. -/
theorem mem_treeQueries_pair {bit : Nat → Bool} (straight : ∀ k, bit k = false) {levels : Nat}
    (low : levels ≤ 32) {q : Query}
    (member : q ∈ MerkleProof.treeQueries poseidon2 levels (leafAt [c, d])) : ∃ k < levels,
      q = .compress (walkPair poseidon2.compress bit (pairSiblings d) c k).1
        (walkPair poseidon2.compress bit (pairSiblings d) c k).2 ∨ q = .compress (zeroAt k) (zeroAt k) := by
  obtain ⟨k, below, b, rfl⟩ := member
  refine ⟨k, below, ?_⟩
  cases b with
  | zero =>
    left
    rw [walkPair, straight, if_neg Bool.false_ne_true, Nat.mul_zero, Nat.zero_add,
      node_pair straight (by omega), node_pair_sibling (by omega)]
  | succ b =>
    right
    have positive := Nat.two_pow_pos k
    rw [node_pair_padding (by omega) (by nlinarith), node_pair_padding (by omega) (by nlinarith)]

theorem mem_treeQueries_nil {levels : Nat} (low : levels ≤ 32) {q : Query}
    (member : q ∈ MerkleProof.treeQueries poseidon2 levels (leafAt [])) :
    ∃ k < levels, q = .compress (zeroAt k) (zeroAt k) := by
  obtain ⟨k, below, b, rfl⟩ := member
  have padding (b : Nat) : node poseidon2.compress (leafAt []) k b = zeroAt k :=
    node_padding zeroAt_chain (by omega) fun _ _ => rfl
  exact ⟨k, below, by rw [padding, padding]⟩

end Pair

def noteQueries (amount privateKey blinding : Fr) (siblings : Nat → Fr) : List Query :=
  SelectiveDisclosure.queries poseidon2 10 1 (noteInputs amount privateKey blinding 0 siblings)
    (SelectiveDisclosure.honest poseidon2 10 (noteInputs amount privateKey blinding 0 siblings))

theorem queries_noteInputs (amount privateKey blinding extContextHash : Fr) (siblings : Nat → Fr) :
    SelectiveDisclosure.queries poseidon2 10 1 (noteInputs amount privateKey blinding extContextHash siblings)
      (SelectiveDisclosure.honest poseidon2 10 (noteInputs amount privateKey blinding extContextHash siblings)) =
        noteQueries amount privateKey blinding siblings := by
  simp only [noteQueries, SelectiveDisclosure.queries, SelectiveDisclosure.note, SelectiveDisclosure.honest, noteInputs]

theorem walkPair_mem_noteQueries (amount privateKey blinding : Fr) (siblings : Nat → Fr) {i : Nat} (low : i < 10) :
    .compress (walkPair poseidon2.compress (0 : Fr).val.testBit siblings
        (SelectiveDisclosure.commitment poseidon2 amount privateKey blinding) i).1
      (walkPair poseidon2.compress (0 : Fr).val.testBit siblings
        (SelectiveDisclosure.commitment poseidon2 amount privateKey blinding) i).2 ∈
          noteQueries amount privateKey blinding siblings := by
  refine SelectiveDisclosure.mem_queries Nat.one_pos (Or.inr (List.mem_map.mpr ⟨i, List.mem_range.mpr low, ?_⟩))
  simp only [SelectiveDisclosure.honest, MerkleProof.honest, noteInputs]

def sampleQueries : List Query :=
  emptyLeaf :: noteQueries 7 5 9 (pairSiblings 5) ++
    (List.range 10).map fun k => .compress (zeroAt k) (zeroAt k)

theorem sampleQueries_free : Poseidon2.CollisionFree poseidon2 {q | q ∈ sampleQueries} :=
  Poseidon2.CollisionFree.of_log _ (by decide +kernel)

theorem sample_queries (network : Text) :
    samplePool.queries ∪ {q | q ∈ SelectiveDisclosure.queries poseidon2 10 1 (sampleInputs network)
      (SelectiveDisclosure.honest poseidon2 10 (sampleInputs network))} ⊆ {q | q ∈ sampleQueries} := by
  have padding {q : Query} (member : ∃ k < 10, q = .compress (zeroAt k) (zeroAt k)) : q ∈ sampleQueries := by
    obtain ⟨k, low, rfl⟩ := member
    exact List.mem_append_right _ (List.mem_map.mpr ⟨k, List.mem_range.mpr low, rfl⟩)
  rintro q ((rfl | ⟨n, member⟩) | member)
  · exact List.mem_cons_self
  · rw [sample_leaves] at member
    change q ∈ MerkleProof.treeQueries poseidon2 10 _ at member
    cases n with
    | zero => exact padding (mem_treeQueries_nil (by decide) member)
    | succ n =>
      have whole : [sampleCommitment, 5].take (2 * (n + 1)) = [sampleCommitment, 5] :=
        List.take_of_length_le (by change 2 ≤ 2 * (n + 1); omega)
      rw [whole] at member
      have straight (k : Nat) : (0 : Fr).val.testBit k = false := by simp
      obtain ⟨k, low, rfl | zeros⟩ := mem_treeQueries_pair straight (by decide) member
      · exact List.mem_append_left _ (List.mem_cons_of_mem _ (walkPair_mem_noteQueries 7 5 9 (pairSiblings 5) low))
      · exact padding ⟨k, low, zeros⟩
  · rw [sampleInputs, queries_noteInputs] at member
    exact List.mem_append_left _ (List.mem_cons_of_mem _ member)

def sampleHashed (network : Text) : Set (List UInt8) :=
  {bytes | bytes = sampleKey ∨ bytes = contextBytes (sampleContext network)}

theorem sample_noCollision {network : Text}
    (apart : fromLeBytesModOrder (sampleSha256 sampleKey) ≠
      fromLeBytesModOrder (sampleSha256 (contextBytes (sampleContext network)))) :
    NoCollision sampleSha256 (sampleClient network) samplePool sampleKey (sampleReceipt network)
      (sampleProver network).x (sampleProver network).w (sampleHashed network) where
  digests := by
    rintro a (rfl | rfl) b (rfl | rfl) same
    · rfl
    · exact absurd same apart
    · exact absurd same.symm apart
    · rfl
  key := Or.inl rfl
  loadedKey bytes loaded := Or.inl (Except.ok.inj loaded).symm
  context := Or.inr rfl
  answers := (sampleQueries_free.mono (sample_queries network)).injOn

theorem disclosure_attested_iff_sample :
    Attested sampleSha256 (sampleClient testnet) samplePool (sampleReceipt testnet) (sampleInputs testnet)
      (sampleHashed testnet) := by
  have parsed : (sampleClient testnet).fromStr "" = .ok (sampleReceipt testnet) := rfl
  have expected : verifyingKeyHash sampleSha256 sampleKey = sampleVkHash.content := by decide +kernel
  exact (disclosure_attested_iff Circomlib.standard_published (sample_asks testnet) parsed expected
    (sampleProver testnet)
    rfl (sample_noCollision (by decide +kernel)) (sample_accepted testnet (by decide)) ⟨rfl, rfl, rfl⟩).mpr rfl

/-- A receipt for another network passes all checks, with everything assumed in place. -/
theorem foreign_network_verified :
    (sampleClient mainnet).AsksThePools (fun _ => samplePool) ∧ samplePool.config.levels = 10 ∧
      verifyingKeyHash sampleSha256 sampleKey = sampleVkHash.content ∧
      NoCollision sampleSha256 (sampleClient mainnet) samplePool sampleKey (sampleReceipt mainnet)
        (sampleProver mainnet).x (sampleProver mainnet).w (sampleHashed mainnet) ∧
      (sampleClient mainnet).fromStr "" = .ok (sampleReceipt mainnet) ∧
      (sampleClient mainnet).verifySelectiveDisclosure (sampleGroth16 mainnet) sampleSha256 "" sampleVkHash =
        .ok { proofVerified := true, contextVerified := true, knownRootStatus := true } ∧
      ¬Attested sampleSha256 (sampleClient mainnet) samplePool (sampleReceipt mainnet) (sampleProver mainnet).x
        (sampleHashed mainnet) := by
  have foreign : mainnet ≠ testnet := by decide +kernel
  refine ⟨sample_asks mainnet, rfl, by decide +kernel, sample_noCollision (by decide +kernel), rfl,
    sample_accepted mainnet (by decide), ?_⟩
  exact fun attested => foreign attested.network

end Sample

section Context

/-- A context is read off the bytes that are hashed of it; a receipt is accepted under the context whose
hash it stores, and under another one only where the two hashes collide. -/
theorem disclosure_context_binding (sha256 : Sha256) :
    (∀ context context' : DisclosureContext, context.validate = .ok () → context'.validate = .ok () →
      contextBytes context = contextBytes context' → context = context') ∧
    (∀ receipt, verifyReceiptContext sha256 receipt = .ok true ↔
      deriveExtContextHash sha256 receipt.context = .ok receipt.publicInputs.extContextHash) ∧
    ∀ receipt other, verifyReceiptContext sha256 receipt = .ok true →
      verifyReceiptContext sha256 { receipt with context := other } = .ok true → other ≠ receipt.context →
      contextBytes other ≠ contextBytes receipt.context ∧
        fromLeBytesModOrder (sha256 (contextBytes other)) =
          fromLeBytesModOrder (sha256 (contextBytes receipt.context)) := by
  refine ⟨fun _ _ _ _ same => contextBytes_injective same, fun _ => verifyReceiptContext_iff, ?_⟩
  intro receipt other accepted replayed different
  have stored := deriveExtContextHash_ok (verifyReceiptContext_ok accepted)
  have again := deriveExtContextHash_ok (verifyReceiptContext_ok replayed)
  exact ⟨fun same => different (contextBytes_injective same), again.symm.trans stored⟩

/-- A hash that reads no more than the length. -/
def lengthSha256 : Sha256 := fun bytes => List.replicate 32 (UInt8.ofNat bytes.length)

def lengthReceipt : DisclosureReceipt :=
  { sampleReceipt testnet with
    publicInputs :=
      { (sampleReceipt testnet).publicInputs with
        extContextHash := fromLeBytesModOrder (lengthSha256 (contextBytes (sampleContext testnet))) } }

/-- Under such a hash a receipt is replayed for the other network, whose name is as long. -/
theorem disclosure_context_binding_replay :
    verifyReceiptContext lengthSha256 { lengthReceipt with context := sampleContext mainnet } = .ok true ∧
      contextBytes (sampleContext mainnet) ≠ contextBytes lengthReceipt.context ∧
        fromLeBytesModOrder (lengthSha256 (contextBytes (sampleContext mainnet))) =
          fromLeBytesModOrder (lengthSha256 (contextBytes lengthReceipt.context)) := by
  obtain ⟨-, accepts, replay⟩ := disclosure_context_binding lengthSha256
  have accepted : verifyReceiptContext lengthSha256 lengthReceipt = .ok true := (accepts _).mpr (by decide +kernel)
  have replayed : verifyReceiptContext lengthSha256 { lengthReceipt with context := sampleContext mainnet } =
      .ok true :=
    (accepts _).mpr (by decide +kernel)
  exact ⟨replayed, replay _ _ accepted replayed (by decide +kernel)⟩

end Context

end PrivatePayments.Disclosure
