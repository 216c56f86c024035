import PrivatePayments.Prover.Submission
import PrivatePayments.Worker.Transact

/-!
From the local database to the pool: what the worker gathers for a request that was made of the state
on chain is built, proved and accepted.
-/

namespace PrivatePayments.Worker
open Bn254 Poseidon2 Soroban Client LocalState Planner Library Circuits PolicyTransaction
open Merkle (leafAt)
open Prover hiding Bytes

section Membership

variable {C : Codec} {db : Database} {asp : String} {admin : Address} {levels : Nat}
  {calls : List AspMembership.Call} {log : List RawEvent}

/-- Who is told an index has processed leaves up to one under the root that was passed. -/
theorem last_of_check {limitOne : LimitOne Nat} {userLeaf currentRoot : Fr} {currentLedger i : Nat}
    (answer : checkAspMembershipPrecondition limitOne db asp userLeaf currentRoot currentLedger = .ok (.userIndex i)) :
    ∃ last ∈ db.rowsOf leaves db.aspMembershipLeaves asp,
      (∀ row ∈ db.rowsOf leaves db.aspMembershipLeaves asp, row.index ≤ last.index) ∧ last.root = currentRoot := by
  rw [check_of_caughtUp (caughtUp_of_index answer)] at answer
  split at answer
  · cases answer
  next last ledger found =>
    obtain ⟨member, newest⟩ := lastLeaf_some found
    split at answer
    · split at answer <;> cases answer
    next same => exact ⟨last, member, newest, (not_not.mp same).symm⟩

/-- The tree of a contract never holds more leaves than it has room for. -/
theorem room_of_run (admitted : AspMembership.Admitted admin levels) (calls : List AspMembership.Call) :
    (AspMembership.run poseidon2 admin levels calls).leaves.length ≤ 2 ^ levels := by
  obtain ⟨positive, bounded⟩ := AspMembership.admitted_iff.mp admitted
  have follows : AspMembership.Follows poseidon2 levels (AspMembership.Members.run levels admin calls)
      (AspMembership.run poseidon2 admin levels calls) :=
    AspMembership.follows_run Merkle.zeroAt_chain positive bounded calls
  rw [follows.leaves]
  exact follows.represents.room

/-- The local leaves are the first ones of the contract, up to the last that is processed. -/
theorem leaves_told (admitted : AspMembership.Admitted admin levels) (good : Good C db)
    (observed : Observed C asp (AspMembership.run poseidon2 admin levels calls).env.storage.events log db)
    {last : LeafAddedEvent} (member : last ∈ db.rowsOf leaves db.aspMembershipLeaves asp)
    (newest : ∀ row ∈ db.rowsOf leaves db.aspMembershipLeaves asp, row.index ≤ last.index)
    {read : List Fr} (returned : getAllAspMembershipLeavesOrdered asp db = .ok read) :
    read = ((AspMembership.run poseidon2 admin levels calls).leaves.take (last.index + 1)).map ofU256 := by
  obtain ⟨indices, -⟩ := rows_of_collected returned
  have rows : orderedRows db asp (db.aspMembershipLeaves.map fun row => (row.id, row.index, row.leaf)) =
      ((db.rowsOf leaves db.aspMembershipLeaves asp).map fun row => (row.index, row.leaf)).insertionSort
        fun a b => a.1 ≤ b.1 := orderedRows_eq (K := leaves) asp
  have listed (row : LeafAddedEvent) (inside : row ∈ db.rowsOf leaves db.aspMembershipLeaves asp) :
      (row.index, row.leaf) ∈ orderedRows db asp (db.aspMembershipLeaves.map fun row => (row.id, row.index,
        row.leaf)) := by
    rw [rows, List.mem_insertionSort]
    exact List.mem_map_of_mem inside
  -- the reader has met every index below the number of leaves
  have met (i : Nat) (low : i < read.length) :
      ∃ row ∈ db.rowsOf leaves db.aspMembershipLeaves asp, row.index = i := by
    have index : i ∈ List.range' 0 read.length := List.mem_range'_1.mpr ⟨Nat.zero_le _, by omega⟩
    rw [← indices, rows] at index
    obtain ⟨entry, inside, isIndex⟩ := List.mem_map.mp index
    obtain ⟨row, isRow, rfl⟩ := List.mem_map.mp ((List.mem_insertionSort _).mp inside)
    exact ⟨row, isRow, isIndex⟩
  have count : read.length = last.index + 1 := by
    have below : last.index ∈ List.range' 0 read.length := by
      rw [← indices]
      exact List.mem_map_of_mem (listed last member)
    have high := (List.mem_range'_1.mp below).2
    obtain ⟨row, inside, isIndex⟩ := met (read.length - 1) (by omega)
    have bound := newest row inside
    omega
  apply List.ext_getElem?
  intro i
  rw [List.map_take]
  by_cases low : i < read.length
  · obtain ⟨row, inside, rfl⟩ := met i low
    rw [getElem?_of_collected returned (listed row inside), List.getElem?_take_of_lt (count ▸ low)]
    exact (observed.row_told admitted good inside).2.1.symm
  · rw [List.getElem?_eq_none (Nat.not_lt.mp low), List.getElem?_eq_none]
    rw [List.length_take]
    omega

theorem root_of_check (admitted : AspMembership.Admitted admin levels) (good : Good C db)
    (observed : Observed C asp (AspMembership.run poseidon2 admin levels calls).env.storage.events log db)
    {limitOne : LimitOne Nat} {userLeaf currentRoot : Fr} {currentLedger i : Nat}
    (answer : checkAspMembershipPrecondition limitOne db asp userLeaf currentRoot currentLedger = .ok (.userIndex i))
    {read : List Fr} (returned : getAllAspMembershipLeavesOrdered asp db = .ok read) :
    read.length ≤ 2 ^ levels ∧ (builtOver poseidon2 levels read).root = currentRoot := by
  obtain ⟨last, member, newest, isRoot⟩ := last_of_check answer
  obtain ⟨-, -, root⟩ := observed.row_told admitted good member
  have told := leaves_told admitted good observed member newest returned
  constructor
  · have room := room_of_run admitted calls
    rw [told, List.length_map, List.length_take]
    omega
  · rw [builtOver_root, told, ← isRoot, root]

/-- Whatever the local copy holds, it fits. -/
theorem fits_of_observed (admitted : AspMembership.Admitted admin levels) (good : Good C db)
    (observed : Observed C asp (AspMembership.run poseidon2 admin levels calls).env.storage.events log db)
    {read : List Fr} (returned : getAllAspMembershipLeavesOrdered asp db = .ok read) : read.length ≤ 2 ^ levels := by
  cases found : db.lastLeaf asp with
  | none =>
    obtain ⟨indices, -⟩ := rows_of_collected returned
    have rows : orderedRows db asp (db.aspMembershipLeaves.map fun row => (row.id, row.index, row.leaf)) =
        ((db.rowsOf leaves db.aspMembershipLeaves asp).map fun row => (row.index, row.leaf)).insertionSort
          fun a b => a.1 ≤ b.1 := orderedRows_eq (K := leaves) asp
    have count := congrArg List.length indices
    rw [rows, lastLeaf_none found, List.length_range'] at count
    rw [← count]
    exact Nat.zero_le _
  | some last =>
    obtain ⟨last, ledger⟩ := last
    obtain ⟨member, newest⟩ := lastLeaf_some found
    have room := room_of_run admitted calls
    rw [leaves_told admitted good observed member newest returned, List.length_map, List.length_take]
    omega

end Membership

section Absence

variable {H : Hasher} {admin : Address} {calls : List AspNonMembership.Call} {p : TransactParams} {root : Fr}

/-- What the client has from the contract proves the absence of a key that is not crowded. -/
theorem absenceProven_of_answer (free : CollisionFree H {q | q ∈ (AspNonMembership.run H admin calls).hashed})
    (absent : ∀ v, ¬AspNonMembership.Blocks (AspNonMembership.run H admin calls).storage (toU256 (senderPubkey H p)) v)
    (current : (AspNonMembership.run H admin calls).storage.root = some (toU256 root))
    (compiles : 2 ≤ p.smtDepth ∧ p.smtDepth ≤ 254)
    (roomy : ¬Crowded (AspNonMembership.run H admin calls).storage (toU256 (senderPubkey H p)) p.smtDepth)
    (answered : getNonmembershipProof (AspNonMembership.findKey (AspNonMembership.run H admin calls).storage)
      (toU256 (senderPubkey H p)) root p.smtDepth = .ok p.nonMembershipProof) :
    AbsenceProven H p ∧ p.nonMembershipProof.root = root := by
  obtain ⟨proof, returned, isKey, isRoot, usable, -⟩ :=
    nonmembership_proof_usable free absent current Circomlib.standard_published compiles
  obtain rfl : proof = p.nonMembershipProof := Except.ok.inj (returned.symm.trans answered)
  obtain ⟨w, satisfied⟩ := usable roomy
  obtain ⟨L, below, level, climbs, -, apart⟩ := satisfied.climbs Circomlib.standard_published rfl rfl
  refine ⟨⟨isKey, compiles, ⟨L, below, level, climbs⟩, ?_⟩, isRoot⟩
  refine apart.imp_left fun isOne => ?_
  by_contra other
  have isZero : (if p.nonMembershipProof.isOld0 then (1 : Fr) else 0) = 0 := if_neg other
  exact zero_ne_one (isZero.symm.trans isOne)

end Absence

/-- The state on chain that a request was made of: the current root of the pool, and the answer to the question for
the sender's key. -/
structure MadeOf (levels : Nat) (leaves : List U256) (nonMembership : AspNonMembership.Storage)
    (nonMembershipRoot notePubkey : Fr)
    (req : TransactRequest) : Prop where
  depth : req.treeDepth = levels
  poolRoot : ∀ root, req.poolRoot = some root →
    (Pool.MerkleTreeWithHistory.producedRoots poseidon2 levels (leaves.map ofU256)).getLast? = some (toU256 root)
  nextIndex : req.poolNextIndex = leaves.length
  current : nonMembership.root = some (toU256 nonMembershipRoot)
  answered : getNonmembershipProof (AspNonMembership.findKey nonMembership)
      (toU256 notePubkey) nonMembershipRoot req.smtDepth =
    .ok req.nonMembershipProof

/-- What the pool asks for besides: the sender's consent and tokens, nullifiers that are new, the two roots of the
policy contracts and room for two leaves. -/
structure Open (D : Pool.Deployment) (config : Pool.Config) (roots : Pool.Roots) (auths : List Address)
    (sender recipient : Address) (draws : Draws) (p : TransactParams) (aspmemRoot nonMembershipRoot : Fr)
    (leaves : List U256)
    (l : Pool.Ledger) : Prop where
  authorized : sender ∈ auths
  limit : 0 < p.extAmount.toInt →
    ∃ max, l.pool.maximumDepositAmount = some max ∧ p.extAmount.toInt ≤ (max.toNat : Int)
  tokens : ∃ middle balances, Pool.Deposited D config.token sender (p.extAmount.signExtend 256) l.balances middle ∧
    Pool.Withdrawn D config.token recipient (p.extAmount.signExtend 256) middle balances
  apart : slotNullifier poseidon2 draws p 0 ≠ slotNullifier poseidon2 draws p 1
  unspent : ∀ nulls, l.pool.nullifiers = some nulls →
    ∀ slot, slot < 2 → nulls (toU256 (slotNullifier poseidon2 draws p slot)) ≠ some true
  membershipRoot : ∃ asp, l.pool.aspMembership = some asp ∧ roots.membership asp = some (toU256 aspmemRoot)
  nonMembershipRoot : ∃ asp, l.pool.aspNonMembership = some asp ∧
    roots.nonMembership asp = some (toU256 nonMembershipRoot)
  filled : p.poolRoot ≠ 0
  room : leaves.length + 2 ≤ 2 ^ config.levels

/-- What is known of parameters that were gathered beside a tree of the members that was observed. -/
structure Gathered (req : TransactRequest) (draws : Draws) (p : TransactParams) : Prop where
  poolRoot : req.poolRoot = some p.poolRoot
  nonMembership : p.nonMembershipProof = req.nonMembershipProof
  smtDepth : p.smtDepth = req.smtDepth
  membershipRoot : p.membershipProof.root = req.aspmemRoot
  proven : AbsenceProven poseidon2 p → slotNullifier poseidon2 draws p 0 ≠ slotNullifier poseidon2 draws p 1 →
    Proven poseidon2 draws p

theorem gathered_of_params {B : Backend} (hash : B.hasher = poseidon2) {requests : List Request} {req : TransactRequest}
    (steady : Steady req.userAddress requests) {picks : Picks} {blinding : Nat → Fr} {p : TransactParams}
    (returned : transactParams poseidon2 picks (Storage.run B requests) blinding req = .ok p)
    {admin : Address} {calls : List AspMembership.Call} (admitted : AspMembership.Admitted admin req.treeDepth)
    {log : List RawEvent}
    (observed : Observed B.codec req.aspmemContractId
      (AspMembership.run poseidon2 admin req.treeDepth calls).env.storage.events log (Storage.run B requests).db)
    (poolFits : req.poolNextIndex ≤ 2 ^ req.treeDepth) (draws : Draws) : Gathered req draws p := by
  have lawful : Lawful B requests (Storage.run B requests) := (lawful_empty B).foldl requests
  have aspFits (read : List Fr)
      (isRead : getAllAspMembershipLeavesOrdered req.aspmemContractId (Storage.run B requests).db = .ok read) :
      read.length ≤ 2 ^ req.treeDepth := fits_of_observed admitted lawful.good observed isRead
  rw [← hash] at returned
  obtain ⟨keys, handed⟩ := lawful.handed steady returned poolFits aspFits
  obtain ⟨isRoot, isNonMembership, -, proven⟩ := transact_params_proven steady returned poolFits aspFits draws
  obtain ⟨read, index, isRead, check, member⟩ := handed.membership
  rw [hash] at proven member
  exact
    { poolRoot := isRoot
      nonMembership := isNonMembership
      smtDepth := handed.depths.2
      membershipRoot := by
        rw [member.root]
        exact (root_of_check admitted lawful.good observed check isRead).2
      proven := fun absence apart => proven.mpr ⟨absence, apart⟩ }

/-- A request that was made of the state on chain and that the worker answers with parameters is delivered: whatever
filled the database, the transaction is proved and the pool accepts it. -/
theorem request_delivered {C : Circomlib} (lib : C.Published) {D : Pool.Deployment} {config : Pool.Config}
    (positive : 0 < config.levels) (bounded : config.levels ≤ 32) {balances : Pool.Balances} {calls : List Pool.Call}
    {X : Cipher} {V : Derivation} {K : Codec} {disclaimer : String} {requests : List Request} {req : TransactRequest}
    (steady : Steady req.userAddress requests) {picks : Picks} {blinding : Nat → Fr} {p : TransactParams}
    (returned : transactParams poseidon2 picks (Storage.run ⟨poseidon2, X, V, K, disclaimer⟩ requests) blinding req =
      .ok p)
    {aspAdmin : Address} {aspCalls : List AspMembership.Call} (admitted : AspMembership.Admitted aspAdmin config.levels)
    {log : List RawEvent}
    (observed : Observed K req.aspmemContractId
      (AspMembership.run poseidon2 aspAdmin config.levels aspCalls).env.storage.events
      log (Storage.run ⟨poseidon2, X, V, K, disclaimer⟩ requests).db)
    {nonAdmin : Address} {nonCalls : List AspNonMembership.Call}
    (free : CollisionFree poseidon2 {q | q ∈ (AspNonMembership.run poseidon2 nonAdmin nonCalls).hashed})
    {nonMembershipRoot : Fr}
    (madeOf : MadeOf config.levels (Pool.run D poseidon2 config balances calls).leaves
      (AspNonMembership.run poseidon2 nonAdmin nonCalls).storage nonMembershipRoot (senderPubkey poseidon2 p) req)
    (absent : ∀ v, ¬AspNonMembership.Blocks (AspNonMembership.run poseidon2 nonAdmin nonCalls).storage
      (toU256 (senderPubkey poseidon2 p)) v)
    (compiles : 2 ≤ req.smtDepth ∧ req.smtDepth ≤ 254)
    (roomy : ¬Crowded (AspNonMembership.run poseidon2 nonAdmin nonCalls).storage
      (toU256 (senderPubkey poseidon2 p)) req.smtDepth)
    {parse : AddressParser} {parseBytes : String → Nat → Option Int} (reads : ReadsHex parseBytes)
    {prove : Inputs → Signals → Bytes} {draws : Draws} {a : TransactArtifacts}
    (made : transact poseidon2 X draws (hashExtDataOffchain parse D.keccak256) p = .ok a)
    (proves : Proves C D config.verifier (Pool.circuitSize p.treeDepth p.smtDepth) prove)
    {address : Soroban.ScAddress} {recipient : Address} (parsed : parse p.extRecipient = .ok address)
    (host : Address.ofScAddress address = some recipient) {roots : Pool.Roots} {auths : List Address} {sender : Address}
    (ready : Open D config roots auths sender recipient draws p req.aspmemRoot nonMembershipRoot
      (Pool.run D poseidon2 config balances calls).leaves (Pool.run D poseidon2 config balances calls).env.storage) :
    Nonempty (Delivered C D parse parseBytes prove draws roots auths sender recipient p a
      (Pool.run D poseidon2 config balances calls).env) := by
  have room : req.poolNextIndex ≤ 2 ^ req.treeDepth := by
    rw [madeOf.nextIndex, madeOf.depth]
    exact (Nat.le_add_right _ 2).trans ready.room
  rw [← madeOf.depth] at admitted observed
  have gathered := gathered_of_params (B := ⟨poseidon2, X, V, K, disclaimer⟩) rfl steady returned admitted
      observed room draws
  have smtDepth := gathered.smtDepth
  obtain ⟨absence, sameRoot⟩ := absenceProven_of_answer free absent madeOf.current (smtDepth ▸ compiles)
      (smtDepth ▸ roomy)
    (by
      rw [smtDepth, gathered.nonMembership]
      exact madeOf.answered)
  have recent : toU256 p.poolRoot ∈ (Pool.MerkleTreeWithHistory.producedRoots poseidon2 config.levels
      ((Pool.run D poseidon2 config balances calls).leaves.map ofU256)).reverse.take 90 := by
    have last := madeOf.poolRoot p.poolRoot gathered.poolRoot
    rw [← List.head?_reverse] at last
    obtain ⟨older, whole⟩ := List.head?_eq_some_iff.mp last
    rw [whole, List.take_succ_cons]
    exact List.mem_cons_self
  exact transact_delivered lib positive bounded reads made (gathered.proven absence ready.apart) proves parsed host
    { authorized := ready.authorized
      limit := ready.limit
      tokens := ready.tokens
      recent := ⟨ready.filled, recent⟩
      unspent := ready.unspent
      membershipRoot := by
        rw [gathered.membershipRoot]
        exact ready.membershipRoot
      nonMembershipRoot := by
        rw [sameRoot]
        exact ready.nonMembershipRoot
      room := ready.room }

section Samples

open Merkle (zeroAt)

/-- Keys that tell the three domains apart by the length of what is hashed. -/
def lengthDerivation : Derivation where
  sha256 bytes := if bytes.length = 88 then scalarKey 1 else if bytes.length = 94 then scalarKey 9 else scalarKey 5
  x25519 key := key

def userText : String := "GAAAAAAAAAAAAAAAAAAAAAAAAAAAAAAAAAAAAAAAAAAAAAAAAAAAEGWF"

def poolText : String := "CAAAAAAAAAAAAAAAAAAAAAAAAAAAAAAAAAAAAAAAAAAAAAAAAAAABSC4"

def aspText : String := "CAAAAAAAAAAAAAAAAAAAAAAAAAAAAAAAAAAAAAAAAAAAAAAAAAAAHK3M"

def commitmentText : String := "AAAADwAAABRuZXdfY29tbWl0bWVudF9ldmVudA=="

def memberData : String :=
  "AAAAEQAAAAEAAAADAAAADwAAAAVpbmRleAAAAAAAAAUAAAAAAAAAAAAAAA8AAAAEbGVhZgAAAAsdnXvMZHRZ3uQ0D3KGo96+yXPO" ++
    "YXlAgl8n6+6bV6L4XQAAAA8AAAAEcm9vdAAAAAsTZH+b037unNYHMaihLYaDozGyAs/wRiWafZ0tTO4CgA=="

def noteText : String := "AAAACyYb1FLkwbxRjhgNwmKQuzmQLgLct8votVkgAl0owiz0"

def dummyText : String := "AAAACx6WG3IA7QNSxPrN7iYZc3fiBfTi+uo24nPVZH/mXb2W"

def noteData : String :=
  "AAAAEQAAAAEAAAACAAAADwAAABBlbmNyeXB0ZWRfb3V0cHV0AAAADQAAAHgAAAAAAAAAAAAAAAAAAAAAAAAAAAAAAAAAAAAAAAAA" ++
    "AAAAAAAAAAAAAAAAAAAAAAAAAAAAAAAAAAkAAAAAAAAAAAAAAAAAAAAEAAAAAAAAAAAAAAAAAAAAAAAAAAAAAAAAAAAAAAAAAAoK" ++
    "CgoKCgoKCgoKCgoKCgoAAAAPAAAABWluZGV4AAAAAAAAAwAAAAA="

def dummyData : String :=
  "AAAAEQAAAAEAAAACAAAADwAAABBlbmNyeXB0ZWRfb3V0cHV0AAAADQAAAHgAAAAAAAAAAAAAAAAAAAAAAAAAAAAAAAAAAAAAAAAA" ++
    "AAAAAAAAAAAAAAAAAAAAAAAAAAAAAAAAAAAAAAAAAAAAAAAAAAAAAAAFAAAAAAAAAAAAAAAAAAAAAAAAAAAAAAAAAAAAAAAAAAoK" ++
    "CgoKCgoKCgoKCgoKCgoAAAAPAAAABWluZGV4AAAAAAAAAwAAAAE="

def outputData (amount blinding : Nat) (index : BitVec 32) : LocalState.ScVal :=
  .map (some [(.symbol (some "encrypted_output"), .bytes (Pool.sealedNote amount blinding)),
    (.symbol (some "index"), .u32 index)])

def spendCodec : Codec where
  fromXdrBase64 text :=
    [(leafAddedText, .symbol (some "leaf_added")), (commitmentText, .symbol (some "new_commitment_event")),
      (memberData, .map (some [(.symbol (some "index"), .u64 0),
        (.symbol (some "leaf"), .u256 0x1d9d7bcc647459de 0xe4340f7286a3debe 0xc973ce617940825f 0x27ebee9b57a2f85d),
        (.symbol (some "root"), .u256 0x13647f9bd37eee9c 0xd60731a8a12d8683 0xa331b202cff04625 0x9a7d9d2d4cee0280)])),
      (noteText, .u256 0x261bd452e4c1bc51 0x8e180dc26290bb39 0x902e02dcb7cbe8b5 0x5920025d28c22cf4),
      (dummyText, .u256 0x1e961b7200ed0352 0xc4facdee26197377 0xe205f4e2faea36e2 0x73d5647fe65dbd96),
      (noteData, outputData 9 4 0), (dummyData, outputData 0 5 1)].lookup text
  accountText _ := ""
  contractText _ := ""

def memberEvent : ContractEvent where
  id := "0000000042949677056-0000000000"
  ledger := 10
  contractId := aspText
  topics := [leafAddedText]
  value := memberData

def noteEvent : ContractEvent where
  id := "0000000047244644352-0000000000"
  ledger := 11
  contractId := poolText
  topics := [commitmentText, noteText]
  value := noteData

def dummyEvent : ContractEvent where
  id := "0000000047244644352-0000000001"
  ledger := 11
  contractId := poolText
  topics := [commitmentText, dummyText]
  value := dummyData

def spendBackend : Backend := ⟨poseidon2, byteCipher, lengthDerivation, spendCodec, "current"⟩

/-- The user derives keys; the leaf that was inserted for them and the outputs of their deposit are indexed. -/
def spendRequests : List Request :=
  [.acceptDisclaimer userText "current", .deriveSaveUserKeys userText (List.replicate 64 0) "testnet",
    .saveEvents [memberEvent], .saveEvents [noteEvent, dummyEvent],
    .saveSyncProgress [⟨aspText, 12, 0, "cur-asp"⟩, ⟨poolText, 12, 0, "cur-pool"⟩] true, .processUntilEmpty]

/-- The user asks for 4 of the 9 that were deposited. -/
def spendRequest : TransactRequest where
  userAddress := userText
  poolRoot := some Pool.withdrawalInputs.root
  poolNextIndex := 2
  poolAddress := poolText
  extRecipient := (spendParams poseidon2 (zeroAt 0)).extRecipient
  extAmount := -4
  aspmemRoot := Pool.depositInputs.membershipRoots 0 0
  aspmemContractId := aspText
  aspmemLedger := 12
  inputCommitments := [Pool.depositInputs.outputCommitment 0]
  outputAmounts := (5, 0)
  outRecipientNotePubkeys := (none, none)
  outRecipientEncryptionPubkeys := (none, none)
  smtDepth := 2
  treeDepth := 2
  nonMembershipProof := (spendParams poseidon2 (zeroAt 0)).nonMembershipProof

def firstPicks : Picks where
  index := .first Nat
  note := .first UnspentNote

def spendBlinding (slot : Nat) : Fr := if slot = 0 then 3 else 9

def recipientParser : AddressParser := parserOf (spendParams poseidon2 (zeroAt 0)).extRecipient (.account 3)

theorem ok_of_toOption {ε α : Type} {x : Except ε α} {a : α} (whole : x.toOption = some a) : x = .ok a := by
  cases x with
  | error e => cases whole
  | ok b => exact congrArg Except.ok (Option.some.inj whole)

theorem spendParams_returned : transactParams poseidon2 firstPicks (Storage.run spendBackend spendRequests)
    spendBlinding spendRequest = .ok (spendParams poseidon2 (zeroAt 0)) := ok_of_toOption (by decide +kernel)

def memberCalls : List AspMembership.Call :=
  [.insertLeaf [⟨2⟩] (toU256 (Pool.depositInputs.membershipProofs 0 0).leaf)]

def blockCalls : List AspNonMembership.Call := [.insertLeaf [⟨2⟩] 7 9]

def depositCalls : List Pool.Call :=
  let proof := Pool.submission (pointsOf (checksumProof (publicSignals smallSize Pool.depositInputs)))
    Pool.depositInputs
  [.transact Pool.sampleRoots [⟨4⟩] proof Pool.depositExtData ⟨4⟩]

def depositedPool : Pool.Progress :=
  Pool.run checksumDeployment poseidon2 Pool.sampleConfig Pool.sampleBalances depositCalls

theorem memberCalls_run :
    (AspMembership.run poseidon2 ⟨2⟩ Pool.sampleConfig.levels memberCalls).env.storage.events =
      [⟨toU256 (Pool.depositInputs.membershipProofs 0 0).leaf, 0, toU256 spendRequest.aspmemRoot⟩] ∧
    leaves.read spendCodec memberEvent.row =
      some ⟨memberEvent.id, (Pool.depositInputs.membershipProofs 0 0).leaf, 0, spendRequest.aspmemRoot⟩ ∧
    (Storage.run spendBackend spendRequests).db.rawContractEvents.filter
      (fun ev => ev.contract = spendRequest.aspmemContractId) = [memberEvent.row] := by
  decide +kernel

/-- The blocklist has the key 7 and not the sender's. -/
theorem blockCalls_run :
    (AspNonMembership.run poseidon2 ⟨2⟩ blockCalls).storage.root =
      some (toU256 (Pool.depositInputs.nonMembershipRoots 0 0)) ∧
    getNonmembershipProof (AspNonMembership.findKey (AspNonMembership.run poseidon2 ⟨2⟩ blockCalls).storage)
      (toU256 (keypair poseidon2 1)) (Pool.depositInputs.nonMembershipRoots 0 0) 2 =
      .ok spendRequest.nonMembershipProof ∧
    (0 :: (AspNonMembership.run poseidon2 ⟨2⟩ blockCalls).hashed.dedup.map poseidon2.answer).Nodup ∧
    (AspNonMembership.Blocklist.run ⟨2⟩ blockCalls).entries (toU256 (keypair poseidon2 1)) = none := by
  decide +kernel

theorem depositedPool_runs :
    depositedPool.leaves =
      [toU256 (Pool.depositInputs.outputCommitment 0), toU256 (Pool.depositInputs.outputCommitment 1)] ∧
    depositedPool.env.storage.pool.aspMembership = some ⟨7⟩ ∧
    depositedPool.env.storage.pool.aspNonMembership = some ⟨9⟩ ∧
    ∀ slot < 2, (depositedPool.env.storage.pool.nullifiers.map fun nulls =>
      nulls (toU256 (slotNullifier poseidon2 spendDraws (spendParams poseidon2 (zeroAt 0)) slot))) ≠
        some (some true) := by
  have shown : Pool.submission Pool.depositProof.proof Pool.depositInputs = Pool.depositProof := rfl
  unfold depositedPool depositCalls Pool.sampleRoots
  rw [← Pool.publicInputs_submission Pool.depositProof.proof rfl rfl, shown]
  dsimp only
  rw [Pool.submission_eq, Pool.depositProof_eq]
  decide +kernel

/-- What was built for the spend fits into the call and into the tree the deposit left. -/
theorem spendParams_fit :
    Encodable (builtExtData byteCipher spendDraws (spendParams poseidon2 (zeroAt 0))) ∧
    (Pool.MerkleTreeWithHistory.producedRoots poseidon2 Pool.sampleConfig.levels
      ([toU256 (Pool.depositInputs.outputCommitment 0), toU256 (Pool.depositInputs.outputCommitment 1)].map
        ofU256)).getLast? = some (toU256 Pool.withdrawalInputs.root) ∧
    slotNullifier poseidon2 spendDraws (spendParams poseidon2 (zeroAt 0)) 0 ≠
      slotNullifier poseidon2 spendDraws (spendParams poseidon2 (zeroAt 0)) 1 ∧
    (spendParams poseidon2 (zeroAt 0)).poolRoot ≠ 0 := by
  decide +kernel

theorem spendParams_built : ∃ a, transact poseidon2 byteCipher spendDraws
    (hashExtDataOffchain recipientParser checksumDeployment.keccak256) (spendParams poseidon2 (zeroAt 0)) = .ok a := by
  have parsed : recipientParser (builtExtData byteCipher spendDraws (spendParams poseidon2 (zeroAt 0))).recipient =
      .ok (.account 3) := parserOf_self _ _
  obtain ⟨hash, hashed⟩ : ∃ hash, hashExtDataOffchain recipientParser checksumDeployment.keccak256
      (builtExtData byteCipher spendDraws (spendParams poseidon2 (zeroAt 0))) = .ok hash := by
    rw [hashExtDataOffchain, extDataPayload_eq spendParams_fit.1 parsed]
    exact ⟨_, rfl⟩
  exact transact_of_hash (spendParams_ready poseidon2 (zeroAt 0)) hashed

theorem memberEvent_observed : Observed spendCodec spendRequest.aspmemContractId
    (AspMembership.run poseidon2 ⟨2⟩ Pool.sampleConfig.levels memberCalls).env.storage.events [memberEvent.row]
    (Storage.run spendBackend spendRequests).db := by
  obtain ⟨published, read, told⟩ := memberCalls_run
  have here : memberEvent.row.contract = spendRequest.aspmemContractId := rfl
  rw [published]
  refine ⟨.cons ⟨here, ?_⟩ .nil, ?_⟩
  · rw [read, ofU256_toU256, ofU256_toU256]
    rfl
  · rw [told]

theorem spendRequest_madeOf : MadeOf Pool.sampleConfig.levels depositedPool.leaves
    (AspNonMembership.run poseidon2 ⟨2⟩ blockCalls).storage (Pool.depositInputs.nonMembershipRoots 0 0)
    (senderPubkey poseidon2 (spendParams poseidon2 (zeroAt 0))) spendRequest where
  depth := rfl
  poolRoot root isRoot := by
    obtain rfl := Option.some.inj isRoot
    rw [depositedPool_runs.1]
    exact spendParams_fit.2.1
  nextIndex := by
    rw [depositedPool_runs.1]
    rfl
  current := blockCalls_run.1
  answered := by
    rw [spendParams_pubkey]
    exact blockCalls_run.2.1

theorem spendRequest_open : Open checksumDeployment Pool.sampleConfig Pool.sampleRoots [⟨4⟩] ⟨4⟩ ⟨6⟩ spendDraws
    (spendParams poseidon2 (zeroAt 0)) spendRequest.aspmemRoot (Pool.depositInputs.nonMembershipRoots 0 0)
    depositedPool.leaves depositedPool.env.storage := by
  obtain ⟨leaves, membership, nonMembership, unspent⟩ := depositedPool_runs
  exact
    { authorized := List.mem_singleton_self _
      limit := fun positive => absurd positive (by decide)
      tokens := ⟨_, _, rfl, rfl⟩
      apart := spendParams_fit.2.2.1
      unspent := fun nulls isNulls slot low spent => by
        refine unspent slot low ?_
        rw [isNulls, ← spent]
        rfl
      membershipRoot := ⟨⟨7⟩, membership, rfl⟩
      nonMembershipRoot := ⟨⟨9⟩, nonMembership, rfl⟩
      filled := spendParams_fit.2.2.2
      room := by
        rw [leaves]
        decide }

theorem signature_of_asked {signature : Bytes} {networkContext : String}
    (asked : .deriveSaveUserKeys spendRequest.userAddress signature networkContext ∈ spendRequests) :
    signature = List.replicate 64 0 := by
  simp only [spendRequests, List.mem_cons, Request.deriveSaveUserKeys.injEq, reduceCtorEq, List.not_mem_nil,
    or_false, false_or] at asked
  exact asked.2.1

theorem request_delivered_withdrawal : ∃ a, Nonempty
    (Delivered Circomlib.standard checksumDeployment recipientParser parseDigits
    (fun x _ => checksumProof (publicSignals (Pool.circuitSize 2 2) x)) spendDraws Pool.sampleRoots [⟨4⟩] ⟨4⟩ ⟨6⟩
    (spendParams poseidon2 (zeroAt 0)) a depositedPool.env) := by
  obtain ⟨a, made⟩ := spendParams_built
  have steady : Steady spendRequest.userAddress spendRequests := by
    intro first second context context' isFirst isSecond
    rw [signature_of_asked isFirst, signature_of_asked isSecond]
  have free : CollisionFree poseidon2 {q | q ∈ (AspNonMembership.run poseidon2 ⟨2⟩ blockCalls).hashed} :=
    CollisionFree.of_log _ blockCalls_run.2.2.1
  have absent : (AspNonMembership.Blocklist.run ⟨2⟩ blockCalls).entries
      (toU256 (senderPubkey poseidon2 (spendParams poseidon2 (zeroAt 0)))) = none := by
    rw [spendParams_pubkey]
    exact blockCalls_run.2.2.2
  have admitted : AspMembership.Admitted ⟨2⟩ Pool.sampleConfig.levels := AspMembership.admitted_iff.mpr (by decide)
  have madeOf := spendRequest_madeOf
  have ready := spendRequest_open
  unfold depositedPool at madeOf ready ⊢
  exact ⟨a, request_delivered Circomlib.standard_published Nat.two_pos (by decide) steady spendParams_returned admitted
    memberEvent_observed free madeOf (AspNonMembership.not_blocks_of_run free absent) (by decide)
    (not_crowded_single free _ _) readsHex_parseDigits made (proves_checksum _ _) (parserOf_self _ _) rfl ready⟩

end Samples

end PrivatePayments.Worker
