import PrivatePayments.Client.PrefixTree
import PrivatePayments.Prover.Honest
import PrivatePayments.Worker.Storage

/-!
How the worker answers a request to transact: from the keys and notes of the account and the local
copies of both trees it gathers the parameters of the builder. What it hands out is proven but for the
non-membership proof, which comes with the request.
-/

namespace PrivatePayments.Worker
open Bn254 Poseidon2 Client LocalState Planner Library Circuits
open Merkle (leafAt)
open Prover hiding Bytes

structure TransactRequest where
  userAddress : String
  poolRoot : Option Fr
  poolNextIndex : Nat
  poolAddress : String
  extRecipient : String
  extAmount : ExtAmount
  aspmemRoot : Fr
  aspmemContractId : String
  aspmemLedger : Nat
  inputCommitments : List Fr
  outputAmounts : NoteAmount × NoteAmount
  outRecipientNotePubkeys : Option Key × Option Key
  outRecipientEncryptionPubkeys : Option Key × Option Key
  smtDepth : Nat
  treeDepth : Nat
  nonMembershipProof : AspNonMembershipProof

/-- Why a call fails, with a text of its own or that of what it calls. -/
inductive Failure where
  | message (text : String)
  | read (e : ReadError)
  | precondition (e : PreconditionError)
  | tree (e : TreeError)

/-- What the worker answers instead of a result: the failure of a call, an error it finds itself, or that the
local state is not ready. -/
inductive Stop where
  | failed (e : Failure)
  | error (text : String)
  | sync (status : AspMembershipSync)

/-- The `?` on a call. -/
def orFail {ε α : Type} (failure : ε → Failure) (x : Except ε α) : Except Stop α :=
  x.mapError fun e => .failed (failure e)

/-- A note that may be spent: its amount, its blinding and the index of its leaf. -/
structure UnspentNote where
  amount : NoteAmount
  blinding : Fr
  leafIndex : Nat

/-- `LIMIT 1` of the two queries that have no order. -/
structure Picks where
  index : LimitOne Nat
  note : LimitOne UnspentNote

/-- The join of the notes with the commitments of a pool. -/
def Storage.joinedNotes (s : Storage) (pool : String) : List (UserNote × PoolCommitmentRow) :=
  s.user.userNotes.flatMap fun note =>
    ((s.db.poolRows pool).filter fun row => row.commitmentId = note.commitmentId).map fun row => (note, row)

def unspentOf (note : UserNote) (row : PoolCommitmentRow) : UnspentNote where
  amount := BitVec.ofNat 128 note.amount
  blinding := note.blinding
  leafIndex := row.leafIndex

section Answer

variable (H : Hasher) (picks : Picks) (s : Storage)

def getUnspentUserNoteByCommitment (pool userAddress : String) (commitment : Fr) : Option UnspentNote :=
  picks.note.pick (((s.joinedNotes pool).filter fun joined =>
    s.keyring.owns userAddress joined.1.accountId && decide (joined.2.commitment = commitment) &&
      decide (joined.1.nullifierId = none)).map fun joined => unspentOf joined.1 joined.2)

def loadUserKeyMaterial (userAddress : String) : Except Stop StoredUserKeys :=
  match s.keyring.getUserKeys userAddress with
  | some keys => .ok keys
  | none => .error (.failed (.message s!"address {userAddress} should generate privacy keys and ASP secret first"))

def aspMembershipLeaf (notePubkey : Key) (membershipBlinding : Fr) : Except String Fr := do
  let leaf := H.hash2 (← bytesToScalar notePubkey.bytes) (← bytesToScalar (fieldToLeBytes membershipBlinding)) 1
  fieldOfBytes "asp_membership_leaf" (scalarToBytes leaf)

/-- The tree over a prefix of the leaves, with all its levels. -/
def builtTree (treeDepth : Nat) (leaves : List Fr) : Except Stop MerklePrefixTreeBuilt := do
  return (← orFail .tree (MerklePrefixTree.new H treeDepth leaves)).intoBuilt H

def buildMembershipProof (aspmemContractId : String) (notePubkey : Key) (membershipBlinding aspmemRoot : Fr)
    (aspmemLedger treeDepth : Nat) : Except Stop Prover.AspMembershipProof := do
  let userLeaf ← orFail .message (aspMembershipLeaf H notePubkey membershipBlinding)
  match ← orFail .precondition
      (checkAspMembershipPrecondition picks.index s.db aspmemContractId userLeaf aspmemRoot aspmemLedger) with
  | .userIndex userLeafIndex =>
    let leaves ← orFail .read (getAllAspMembershipLeavesOrdered aspmemContractId s.db)
    let tree ← builtTree H treeDepth leaves
    let proof ← orFail .tree (tree.proof userLeafIndex)
    return { leaf := userLeaf
             blinding := membershipBlinding
             pathElements := proof.pathElements
             pathIndices := proof.pathIndices
             root := proof.root }
  | status => .error (.sync status)

def buildValidatedPoolTree (poolAddress : String) (poolNextIndex treeDepth : Nat) (expectedPoolRoot : Fr) :
    Except Stop MerklePrefixTreeBuilt := do
  let leaves ← orFail .read (getPoolCommitmentLeavesOrdered poolAddress s.db)
  if leaves.length ≠ poolNextIndex then .error (.sync (.syncRequired none))
  else
    let tree ← builtTree H treeDepth leaves
    if tree.root ≠ expectedPoolRoot then
      .error (.failed (.message "pool root mismatch: local computed root does not match on-chain root"))
    else return tree

def buildPoolInputNote (note : UnspentNote) (tree : MerklePrefixTreeBuilt) : Except Stop TransactInputNote := do
  let proof ← orFail .tree (tree.proof note.leafIndex)
  return { amount := note.amount
           blinding := note.blinding
           merklePathElements := proof.pathElements
           merklePathIndices := proof.pathIndices }

def poolInputNotes (tree : MerklePrefixTreeBuilt) (userAddress poolAddress : String) :
    List Fr → Except Stop (List TransactInputNote)
  | [] => .ok []
  | commitment :: rest => do
      match getUnspentUserNoteByCommitment picks s poolAddress userAddress commitment with
      | none => .error (.sync (.syncRequired none))
      | some note =>
        let inp ← buildPoolInputNote note tree
        return inp :: (← poolInputNotes tree userAddress poolAddress rest)

def buildPoolInputs (userAddress poolAddress : String) (poolNextIndex treeDepth : Nat) (expectedPoolRoot : Fr)
    (inputCommitments : List Fr) : Except Stop (List TransactInputNote) :=
  if inputCommitments.isEmpty then .ok []
  else do
    let tree ← buildValidatedPoolTree H s poolAddress poolNextIndex treeDepth expectedPoolRoot
    poolInputNotes picks s tree userAddress poolAddress inputCommitments

def requestedOutput (slot : Nat) (amount : NoteAmount) (blinding : Fr) (notePk encPk : Option Key) :
    Except Stop TransactOutput :=
  if notePk.isSome ≠ encPk.isSome then
    .error (.error s!"output {slot}: recipient_note_pubkey and recipient_encryption_pubkey must both be set or both be null")
  else .ok { amount := amount, blinding := blinding, recipientNotePubkey := notePk, recipientEncryptionPubkey := encPk }

/-- The `Transact` request; the blindings of the outputs are drawn. -/
def transactParams (blinding : Nat → Fr) (req : TransactRequest) : Except Stop TransactParams := do
  if 2 < req.inputCommitments.length then .error (.error "transact input_commitments must have length 0..=2")
  else
    let keys ← loadUserKeyMaterial s req.userAddress
    let membershipProof ← buildMembershipProof H picks s req.aspmemContractId keys.noteKeypair.publicKey
      keys.membershipBlinding req.aspmemRoot req.aspmemLedger req.treeDepth
    match req.poolRoot with
    | none => .error (.failed (.message "missing pool_root"))
    | some poolRoot =>
      let inputs ← buildPoolInputs H picks s req.userAddress req.poolAddress req.poolNextIndex req.treeDepth poolRoot
        req.inputCommitments
      let first ← requestedOutput 0 req.outputAmounts.1 (blinding 0) req.outRecipientNotePubkeys.1
        req.outRecipientEncryptionPubkeys.1
      let second ← requestedOutput 1 req.outputAmounts.2 (blinding 1) req.outRecipientNotePubkeys.2
        req.outRecipientEncryptionPubkeys.2
      return { privKey := keys.noteKeypair.privateKey
               encryptionPubkey := keys.encryptionKeypair.publicKey
               poolRoot := poolRoot
               extRecipient := req.extRecipient
               extAmount := req.extAmount
               inputs := inputs
               outputs := [first, second]
               membershipProof := membershipProof
               nonMembershipProof := req.nonMembershipProof
               treeDepth := req.treeDepth
               smtDepth := req.smtDepth }

end Answer

section Leaves

variable {db : Database}

theorem rows_of_collected {table : String} {k : Nat} {rows : List (Nat × Fr)} {read : List Fr}
    (returned : collectLeaves table k rows = .ok read) :
    rows.map Prod.fst = List.range' k read.length ∧ rows.map Prod.snd = read := by
  induction rows generalizing k read with
  | nil =>
    cases returned
    exact ⟨rfl, rfl⟩
  | cons row rows ih =>
    obtain ⟨first, value⟩ := row
    rw [collectLeaves] at returned
    split at returned
    · cases returned
    next here =>
      split at returned
      next low =>
        obtain ⟨rest, collected, isRead⟩ := of_bind_ok returned
        cases isRead
        obtain ⟨indices, values⟩ := ih collected
        rw [List.map_cons, List.map_cons, indices, values, not_not.mp here, List.length_cons, List.range'_succ]
        exact ⟨rfl, rfl⟩
      next => cases returned

theorem getElem?_of_collected {table : String} {rows : List (Nat × Fr)} {read : List Fr}
    (returned : collectLeaves table 0 rows = .ok read) {row : Nat × Fr} (member : row ∈ rows) :
    read[row.1]? = some row.2 := by
  obtain ⟨indices, values⟩ := rows_of_collected returned
  obtain ⟨i, here⟩ := List.mem_iff_getElem?.mp member
  have index := congrArg (·[i]?) indices
  have value := congrArg (·[i]?) values
  simp only [List.getElem?_map, here, Option.map_some] at index value
  obtain ⟨inside, isIndex⟩ := List.getElem?_eq_some_iff.mp index.symm
  rw [List.getElem_range', Nat.zero_add, Nat.one_mul] at isIndex
  rw [← isIndex]
  exact value.symm

theorem mem_orderedRows {contract : String} {rows : List (String × Nat × Fr)} {row : String × Nat × Fr}
    (member : row ∈ rows) (emitted : db.emittedBy row.1 contract = true) : row.2 ∈ orderedRows db contract rows :=
  (List.mem_insertionSort _).mpr (List.mem_map_of_mem (List.mem_filter.mpr ⟨member, emitted⟩))

theorem leaf_of_poolRow {pool : String} {row : PoolCommitmentRow} (member : row ∈ db.poolRows pool) {leaves : List Fr}
    (returned : getPoolCommitmentLeavesOrdered pool db = .ok leaves) :
    leaves[row.leafIndex]? = some row.commitment := by
  obtain ⟨-, ev, here, emitted, isRow⟩ := mem_poolRows member
  have ordered := mem_orderedRows (List.mem_map_of_mem (f := fun row => (row.id, row.index, row.commitment))
    (List.mem_of_getElem? here)) emitted
  rw [congrArg PoolCommitmentRow.leafIndex isRow, congrArg PoolCommitmentRow.commitment isRow]
  exact getElem?_of_collected returned ordered

theorem caughtUp_of_index {limitOne : LimitOne Nat} {asp : String} {userLeaf currentRoot : Fr} {currentLedger i : Nat}
    (answer : checkAspMembershipPrecondition limitOne db asp userLeaf currentRoot currentLedger = .ok (.userIndex i)) :
    db.CaughtUp asp currentLedger := by
  by_contra behind
  rcases check_of_not_caughtUp behind limitOne userLeaf currentRoot with ⟨gap, waits⟩ | ⟨e, fails⟩
  · cases answer.symm.trans waits
  · cases answer.symm.trans fails

theorem leaf_of_check {limitOne : LimitOne Nat} {asp : String} {userLeaf currentRoot : Fr} {currentLedger i : Nat}
    (answer : checkAspMembershipPrecondition limitOne db asp userLeaf currentRoot currentLedger = .ok (.userIndex i))
    {leaves : List Fr} (returned : getAllAspMembershipLeavesOrdered asp db = .ok leaves) :
    leaves[i]? = some userLeaf := by
  obtain ⟨row, inside, rfl, rfl, -⟩ := check_indexes (caughtUp_of_index answer) answer
  obtain ⟨member, emitted⟩ := List.mem_filter.mp inside
  have ordered := mem_orderedRows (List.mem_map_of_mem (f := fun row => (row.id, row.index, row.leaf)) member) emitted
  exact getElem?_of_collected returned ordered

end Leaves

section Trees

variable {H : Hasher} {treeDepth : Nat} {leaves : List Fr} {tree : MerklePrefixTreeBuilt}

theorem orFail_ok_iff {ε α : Type} {failure : ε → Failure} {x : Except ε α} {a : α} :
    orFail failure x = .ok a ↔ x = .ok a := by
  cases x with
  | ok b => exact ⟨fun same => by cases same; rfl, fun same => by cases same; rfl⟩
  | error e => exact iff_of_false (fun same => by cases same) fun same => by cases same

theorem builtTree_ok (built : builtTree H treeDepth leaves = .ok tree) :
    0 < treeDepth ∧ treeDepth ≤ 32 ∧ tree = builtOver H treeDepth leaves := by
  obtain ⟨start, new, isTree⟩ := of_bind_ok built
  have made := orFail_ok_iff.mp new
  unfold MerklePrefixTree.new at made
  split at made
  next => cases made
  next depths =>
    cases made
    cases isTree
    exact ⟨by omega, by omega, rfl⟩

theorem proof_walks (positive : 0 < treeDepth) (bounded : treeDepth ≤ 32) {index : Nat} {leaf : Fr}
    (here : leaves[index]? = some leaf) (fits : leaves.length ≤ 2 ^ treeDepth) {proof : Client.MerkleProof}
    (returned : (builtOver H treeDepth leaves).proof index = .ok proof) :
    proof.pathElements.length = treeDepth ∧ proof.pathIndices.val < 2 ^ treeDepth ∧
      MerkleProof.walkTo H (proof.inputs leaf) proof.pathIndices.val treeDepth = (builtOver H treeDepth leaves).root ∧
      proof.root = (builtOver H treeDepth leaves).root ∧ proof.pathIndices.val = index := by
  obtain ⟨inside, isLeaf⟩ := List.getElem?_eq_some_iff.mp here
  have low : index < 2 ^ treeDepth := lt_of_lt_of_le inside fits
  have counted : index < (builtOver H treeDepth leaves).leafCount := by
    rw [leafCount_builtOver leaves positive]
    exact lt_of_lt_of_le inside (le_max_left _ _)
  obtain ⟨other, isProof, -, elements, indices, root⟩ := proof_eq (H := H) leaves low bounded counted
  obtain rfl : other = proof := Except.ok.inj (isProof.symm.trans returned)
  have atIndex : leafAt leaves index = leaf := by
    rw [leafAt, List.getD_eq_getElem _ _ inside, isLeaf]
  have siblings (k : Nat) (below : k < treeDepth) :
      (other.inputs leaf).pathElements k = FullTree.siblingOf H.compress (leafAt leaves) index k := by
    change other.pathElements.getD k 0 = _
    rw [elements, List.getD_eq_getElem _ _ (by simpa using below), List.getElem_map, List.getElem_range]
  have same := FullTree.walk_congr H.compress index.testBit leaf siblings
  refine ⟨by rw [elements, List.length_map, List.length_range], by rw [indices]; exact low, ?_, ?_, indices⟩
  · rw [indices, builtOver_root]
    change FullTree.walk H.compress index.testBit _ leaf treeDepth = _
    rw [same, ← atIndex, FullTree.walk_siblingOf, Nat.div_eq_of_lt low]
  · rw [builtOver_root]
    exact root

end Trees

/-- The wallet of an address signs the same way every time. -/
def Steady (address : String) (requests : List Request) : Prop :=
  ∀ first second context context', .deriveSaveUserKeys address first context ∈ requests →
    .deriveSaveUserKeys address second context' ∈ requests → first = second

section Keys

variable {B : Backend} {requests : List Request} {s : Storage} {address : String} {keys : StoredUserKeys}

theorem Lawful.keys_saved (lawful : Lawful B requests s) (found : s.keyring.getUserKeys address = some keys) :
    ∃ signature networkContext, .deriveSaveUserKeys address signature networkContext ∈ requests ∧
      keys = userKeysOf B.hasher B.derivation signature networkContext := by
  obtain ⟨row, last, rfl⟩ := Option.map_eq_some_iff.mp found
  obtain ⟨member, owned⟩ := List.mem_filter.mp (List.mem_of_getLast? last)
  obtain ⟨owner, signature, networkContext, asked, mine, same⟩ := lawful.saved row member
  obtain rfl := owner_unique owned mine
  exact ⟨signature, networkContext, asked, same⟩

/-- Every key pair that was saved for the account of an address is the one it has now. -/
theorem Lawful.same_keypair (lawful : Lawful B requests s) (steady : Steady address requests)
    (found : s.keyring.getUserKeys address = some keys) {accountId : Nat} {other : StoredUserKeys}
    (owned : s.keyring.owns address accountId = true) (saved : SavedFor B requests s.keyring accountId other) :
    other.noteKeypair = keys.noteKeypair := by
  obtain ⟨signature, networkContext, asked, rfl⟩ := lawful.keys_saved found
  obtain ⟨owner, signature', networkContext', asked', mine, rfl⟩ := saved
  obtain rfl := owner_unique owned mine
  obtain rfl := steady signature signature' networkContext networkContext' asked asked'
  rfl

/-- A note that is looked up opens the commitment it was looked up by, and stands at its index. -/
theorem Lawful.unspent_opens (lawful : Lawful B requests s) (steady : Steady address requests)
    (found : s.keyring.getUserKeys address = some keys) {picks : Picks} {pool : String} {commitment : Fr}
    {note : UnspentNote} (looked : getUnspentUserNoteByCommitment picks s pool address commitment = some note)
    {leaves : List Fr} (returned : getPoolCommitmentLeavesOrdered pool s.db = .ok leaves) :
    leaves[note.leafIndex]? = some commitment ∧
      computeCommitment B.hasher (noteAmountToField note.amount) keys.noteKeypair.publicKey.scalar note.blinding =
        commitment := by
  obtain ⟨joined, kept, rfl⟩ := List.mem_map.mp (picks.note.mem looked)
  obtain ⟨member, conditions⟩ := List.mem_filter.mp kept
  rw [Bool.and_eq_true, Bool.and_eq_true, decide_eq_true_iff, decide_eq_true_iff] at conditions
  obtain ⟨⟨owned, isCommitment⟩, -⟩ := conditions
  obtain ⟨stored, isStored, there⟩ := List.mem_flatMap.mp member
  obtain ⟨row, isRow, rfl⟩ := List.mem_map.mp there
  obtain ⟨rowMember, sameId⟩ := List.mem_filter.mp isRow
  obtain ⟨other, ev, saved, positive, here, opens⟩ := lawful.made stored isStored
  obtain ⟨-, ev', here', -, rowIs⟩ := mem_poolRows rowMember
  rw [of_decide_eq_true sameId, here] at here'
  obtain rfl : ev = ev' := Option.some.inj here'
  have value : row.commitment = ev.commitment := congrArg PoolCommitmentRow.commitment rowIs
  have amount : noteAmountToField (unspentOf stored row).amount = (stored.amount : Fr) := by
    change ((BitVec.ofNat 128 stored.amount).toNat : Fr) = _
    rw [BitVec.toNat_ofNat, Nat.mod_eq_of_lt opens.fits]
  constructor
  · rw [← isCommitment]
    exact leaf_of_poolRow rowMember returned
  · rw [amount, ← lawful.same_keypair steady found owned saved, ← isCommitment, value]
    exact opens.commitment

end Keys

section Handed

variable {B : Backend} {requests : List Request} {s : Storage} {picks : Picks} {keys : StoredUserKeys}

theorem aspMembershipLeaf_eq (H : Hasher) (notePubkey : Key) (membershipBlinding : Fr) :
    aspMembershipLeaf H notePubkey membershipBlinding = .ok (H.hash2 notePubkey.scalar membershipBlinding 1) := by
  simp only [aspMembershipLeaf, bytesToScalar_key, fieldToLeBytes_eq, bytesToScalar_scalarToBytes, ok_bind,
    fieldOfBytes_scalarToBytes]

structure Member (H : Hasher) (treeDepth : Nat) (notePubkey membershipBlinding : Fr) (leaves : List Fr)
    (proof : Prover.AspMembershipProof) : Prop where
  leaf : proof.leaf = H.hash2 notePubkey membershipBlinding 1
  blinding : proof.blinding = membershipBlinding
  length : proof.pathElements.length = treeDepth
  fits : proof.pathIndices.val < 2 ^ treeDepth
  walks : MerkleProof.walkTo H (memberInputs proof) proof.pathIndices.val treeDepth = proof.root
  root : proof.root = (builtOver H treeDepth leaves).root

theorem member_of_built {H : Hasher} {asp : String} {notePubkey : Key} {membershipBlinding aspmemRoot : Fr}
    {aspmemLedger treeDepth : Nat} {proof : Prover.AspMembershipProof}
    (built : buildMembershipProof H picks s asp notePubkey membershipBlinding aspmemRoot aspmemLedger treeDepth =
      .ok proof)
    (fits : ∀ leaves, getAllAspMembershipLeavesOrdered asp s.db = .ok leaves → leaves.length ≤ 2 ^ treeDepth) :
    ∃ leaves index, getAllAspMembershipLeavesOrdered asp s.db = .ok leaves ∧
      checkAspMembershipPrecondition picks.index s.db asp (H.hash2 notePubkey.scalar membershipBlinding 1) aspmemRoot
        aspmemLedger = .ok (.userIndex index) ∧
      Member H treeDepth notePubkey.scalar membershipBlinding leaves proof := by
  obtain ⟨userLeaf, isLeaf, rest⟩ := of_bind_ok built
  obtain rfl : userLeaf = _ := Except.ok.inj ((orFail_ok_iff.mp isLeaf).symm.trans (aspMembershipLeaf_eq H _ _))
  obtain ⟨status, checked, rest⟩ := of_bind_ok rest
  have check := orFail_ok_iff.mp checked
  cases status with
  | syncRequired gap => cases rest
  | registerAtASP => cases rest
  | userIndex index =>
    obtain ⟨leaves, read, rest⟩ := of_bind_ok rest
    obtain ⟨tree, isTree, rest⟩ := of_bind_ok rest
    obtain ⟨path, isPath, isProof⟩ := of_bind_ok rest
    have returned := orFail_ok_iff.mp read
    obtain ⟨positive, bounded, rfl⟩ := builtTree_ok isTree
    obtain ⟨length, low, walks, root, -⟩ := proof_walks positive bounded (leaf_of_check check returned)
      (fits leaves returned) (orFail_ok_iff.mp isPath)
    obtain rfl := Except.ok.inj isProof
    exact ⟨leaves, index, returned, check,
      { leaf := rfl
        blinding := rfl
        length := length
        fits := low
        walks := walks.trans root.symm
        root := root }⟩

structure Spends (H : Hasher) (treeDepth : Nat) (notePubkey poolRoot : Fr) (commitment : Fr)
    (inp : TransactInputNote) : Prop where
  opens : computeCommitment H (noteAmountToField inp.amount) notePubkey inp.blinding = commitment
  length : inp.merklePathElements.length = treeDepth
  fits : inp.merklePathIndices.val < 2 ^ treeDepth
  walks : MerkleProof.walkTo H
    { leaf := commitment, pathElements := fun i => inp.merklePathElements.getD i 0,
      pathIndices := inp.merklePathIndices }
    inp.merklePathIndices.val treeDepth = poolRoot

theorem Lawful.spends (lawful : Lawful B requests s) {userAddress : String} (steady : Steady userAddress requests)
    (found : s.keyring.getUserKeys userAddress = some keys) {pool : String} {leaves : List Fr}
    (returned : getPoolCommitmentLeavesOrdered pool s.db = .ok leaves) {treeDepth : Nat} (positive : 0 < treeDepth)
    (bounded : treeDepth ≤ 32) (fits : leaves.length ≤ 2 ^ treeDepth) {commitments : List Fr}
    {inputs : List TransactInputNote}
    (built : poolInputNotes picks s (builtOver B.hasher treeDepth leaves) userAddress pool commitments = .ok inputs) :
    List.Forall₂ (Spends B.hasher treeDepth keys.noteKeypair.publicKey.scalar
      (builtOver B.hasher treeDepth leaves).root)
      commitments inputs := by
  induction commitments generalizing inputs with
  | nil =>
    cases built
    exact List.Forall₂.nil
  | cons commitment rest ih =>
    rw [poolInputNotes] at built
    cases looked : getUnspentUserNoteByCommitment picks s pool userAddress commitment with
    | none =>
      rw [looked] at built
      cases built
    | some note =>
      rw [looked] at built
      obtain ⟨inp, isInput, later⟩ := of_bind_ok built
      obtain ⟨more, isMore, isInputs⟩ := of_bind_ok later
      obtain ⟨path, isPath, isInp⟩ := of_bind_ok isInput
      obtain ⟨here, opens⟩ := lawful.unspent_opens steady found looked returned
      obtain ⟨length, low, walks, -, -⟩ := proof_walks positive bounded here fits (orFail_ok_iff.mp isPath)
      obtain rfl := Except.ok.inj isInputs
      obtain rfl := Except.ok.inj isInp
      exact List.Forall₂.cons ⟨opens, length, low, walks⟩ (ih isMore)

structure Handed (B : Backend) (picks : Picks) (s : Storage) (req : TransactRequest) (keys : StoredUserKeys)
    (p : TransactParams) : Prop where
  found : s.keyring.getUserKeys req.userAddress = some keys
  privKey : p.privKey = keys.noteKeypair.privateKey
  poolRoot : req.poolRoot = some p.poolRoot
  few : req.inputCommitments.length ≤ 2
  inputs : List.Forall₂ (Spends B.hasher req.treeDepth keys.noteKeypair.publicKey.scalar p.poolRoot)
      req.inputCommitments p.inputs
  membership : ∃ leaves index, getAllAspMembershipLeavesOrdered req.aspmemContractId s.db = .ok leaves ∧
    checkAspMembershipPrecondition picks.index s.db req.aspmemContractId
      (B.hasher.hash2 keys.noteKeypair.publicKey.scalar keys.membershipBlinding 1) req.aspmemRoot req.aspmemLedger =
        .ok (.userIndex index) ∧
    Member B.hasher req.treeDepth keys.noteKeypair.publicKey.scalar keys.membershipBlinding leaves p.membershipProof
  nonMembership : p.nonMembershipProof = req.nonMembershipProof
  extRecipient : p.extRecipient = req.extRecipient
  extAmount : p.extAmount = req.extAmount
  depths : p.treeDepth = req.treeDepth ∧ p.smtDepth = req.smtDepth

theorem Lawful.handed (lawful : Lawful B requests s) {req : TransactRequest} (steady : Steady req.userAddress requests)
    {blinding : Nat → Fr} {p : TransactParams} (returned : transactParams B.hasher picks s blinding req = .ok p)
    (poolFits : req.poolNextIndex ≤ 2 ^ req.treeDepth)
    (aspFits : ∀ leaves, getAllAspMembershipLeavesOrdered req.aspmemContractId s.db = .ok leaves →
      leaves.length ≤ 2 ^ req.treeDepth) : ∃ keys, Handed B picks s req keys p := by
  unfold transactParams at returned
  split at returned
  · cases returned
  next few =>
    obtain ⟨keys, loaded, returned⟩ := of_bind_ok returned
    obtain ⟨membershipProof, built, returned⟩ := of_bind_ok returned
    have found : s.keyring.getUserKeys req.userAddress = some keys := by
      unfold loadUserKeyMaterial at loaded
      split at loaded
      next other isKeys =>
        cases loaded
        exact isKeys
      next => cases loaded
    split at returned
    · cases returned
    next poolRoot isRoot =>
      obtain ⟨inputs, gathered, returned⟩ := of_bind_ok returned
      obtain ⟨first, isFirst, returned⟩ := of_bind_ok returned
      obtain ⟨second, isSecond, returned⟩ := of_bind_ok returned
      obtain rfl := Except.ok.inj returned
      obtain ⟨aspLeaves, index, read, check, member⟩ := member_of_built built aspFits
      have spends : List.Forall₂ (Spends B.hasher req.treeDepth keys.noteKeypair.publicKey.scalar poolRoot)
          req.inputCommitments inputs := by
        unfold buildPoolInputs at gathered
        split at gathered
        next none_ =>
          cases gathered
          rw [List.isEmpty_iff.mp none_]
          exact List.Forall₂.nil
        next =>
          obtain ⟨tree, validated, gathered⟩ := of_bind_ok gathered
          obtain ⟨leaves, isLeaves, validated⟩ := of_bind_ok validated
          split at validated
          next => cases validated
          next counted =>
            obtain ⟨made, isMade, validated⟩ := of_bind_ok validated
            split at validated
            next => cases validated
            next same =>
              obtain rfl := Except.ok.inj validated
              obtain ⟨positive, bounded, rfl⟩ := builtTree_ok isMade
              rw [← not_not.mp same]
              exact lawful.spends steady found (orFail_ok_iff.mp isLeaves) positive bounded
                ((not_not.mp counted).trans_le poolFits) gathered
      exact ⟨keys,
        { found := found
          privKey := rfl
          poolRoot := isRoot
          few := Nat.not_lt.mp few
          inputs := spends
          membership := ⟨aspLeaves, index, read, check, member⟩
          nonMembership := rfl
          extRecipient := rfl
          extAmount := rfl
          depths := ⟨rfl, rfl⟩ }⟩

end Handed

section Proven

variable {B : Backend} {picks : Picks} {s : Storage} {req : TransactRequest} {keys : StoredUserKeys}
    {p : TransactParams}

theorem Handed.senderPubkey_eq (handed : Handed B picks s req keys p)
    (derived : keys.noteKeypair.publicKey.scalar = B.hasher.hash2 keys.noteKeypair.privateKey.scalar 0 3) :
    senderPubkey B.hasher p = keys.noteKeypair.publicKey.scalar := by
  rw [senderPubkey, handed.privKey, derived]

theorem Handed.spendable (handed : Handed B picks s req keys p)
    (derived : keys.noteKeypair.publicKey.scalar = B.hasher.hash2 keys.noteKeypair.privateKey.scalar 0 3) :
    ∀ inp ∈ p.inputs, Spendable B.hasher p inp := by
  intro inp member
  obtain ⟨slot, inside, isInput⟩ := List.getElem_of_mem member
  have spends := (List.forall₂_iff_get.mp handed.inputs).2 slot (handed.inputs.length_eq ▸ inside) inside
  rw [List.get_eq_getElem, List.get_eq_getElem, isInput] at spends
  have depth := handed.depths.1
  constructor
  · rw [depth]
    exact spends.fits
  · intro _
    rw [spentInputs, handed.senderPubkey_eq derived, spends.opens, depth]
    exact spends.walks

theorem Handed.membershipProven (handed : Handed B picks s req keys p)
    (derived : keys.noteKeypair.publicKey.scalar = B.hasher.hash2 keys.noteKeypair.privateKey.scalar 0 3) :
    MembershipProven B.hasher p := by
  obtain ⟨leaves, index, -, -, member⟩ := handed.membership
  have depth := handed.depths.1
  constructor
  · rw [handed.senderPubkey_eq derived, member.blinding]
    exact member.leaf
  · rw [depth]
    exact member.fits
  · rw [depth]
    exact member.walks

end Proven

/-- Over all histories of its database, what the worker hands out spends the commitments that were asked for, and it
is proven as soon as the non-membership proof of the request is and the two nullifiers differ. -/
theorem transact_params_proven {B : Backend} {requests : List Request} {req : TransactRequest}
    (steady : Steady req.userAddress requests) {picks : Picks} {blinding : Nat → Fr} {p : TransactParams}
    (returned : transactParams B.hasher picks (Storage.run B requests) blinding req = .ok p)
    (poolFits : req.poolNextIndex ≤ 2 ^ req.treeDepth)
    (aspFits : ∀ leaves,
      getAllAspMembershipLeavesOrdered req.aspmemContractId (Storage.run B requests).db = .ok leaves →
      leaves.length ≤ 2 ^ req.treeDepth) (draws : Draws) :
    req.poolRoot = some p.poolRoot ∧ p.nonMembershipProof = req.nonMembershipProof ∧
      List.Forall₂ (fun commitment inp =>
        computeCommitment B.hasher (noteAmountToField inp.amount) (senderPubkey B.hasher p) inp.blinding = commitment)
        req.inputCommitments p.inputs ∧
      (Proven B.hasher draws p ↔
        AbsenceProven B.hasher p ∧ slotNullifier B.hasher draws p 0 ≠ slotNullifier B.hasher draws p 1) := by
  have lawful : Lawful B requests (Storage.run B requests) := (lawful_empty B).foldl requests
  obtain ⟨keys, handed⟩ := lawful.handed steady returned poolFits aspFits
  obtain ⟨signature, networkContext, -, isKeys⟩ := lawful.keys_saved handed.found
  have derived := userKeysOf_publicKey (H := B.hasher) (V := B.derivation) signature networkContext
  rw [← isKeys] at derived
  refine ⟨handed.poolRoot, handed.nonMembership, handed.inputs.imp fun commitment inp spends => ?_, ?_⟩
  · rw [handed.senderPubkey_eq derived]
    exact spends.opens
  · constructor
    · intro proven
      exact ⟨proven.nonMembership, proven.nullifiers⟩
    · intro rest
      exact ⟨handed.spendable derived, handed.membershipProven derived, rest.1, rest.2⟩

end PrivatePayments.Worker
