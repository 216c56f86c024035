import Mathlib.Data.UInt
import PrivatePayments.LocalState.Drain
import PrivatePayments.LocalState.NoteRecovery
import PrivatePayments.Poseidon2.Permutation

/-!
Which stored outputs block the note scan: those that the callback refuses with an error under
the keys of some account.
-/

namespace PrivatePayments.LocalState
open Bn254 Poseidon2 Library

theorem latestKeypair_of_mem {wallet : Wallet} {keys : AccountKeys}
    (member : keys ∈ getAccountsWithLatestKeypairs wallet) :
    (wallet.keypairs.reverse.find? fun (row : KeypairRow) => row.accountId = some keys.accountId).map
      (fun row => row.keys keys.accountId) = some keys := by
  obtain ⟨id, -, found⟩ := List.mem_filterMap.mp member
  obtain ⟨row, -, rfl⟩ := Option.map_eq_some_iff.mp found
  exact found

theorem accountIds_inj {wallet : Wallet} {a b : AccountKeys} (ha : a ∈ getAccountsWithLatestKeypairs wallet)
    (hb : b ∈ getAccountsWithLatestKeypairs wallet) (same : a.accountId = b.accountId) : a = b := by
  have foundA := latestKeypair_of_mem ha
  rw [same, latestKeypair_of_mem hb] at foundA
  exact (Option.some.inj foundA).symm

theorem contracts_run (C : Codec) (steps : List Step) :
    ∀ event ∈ (run C steps).rawContractEvents, event.contract ∈ (run C steps).contracts := by
  have saved {db : Database} (known : ∀ event ∈ db.rawContractEvents, event.contract ∈ db.contracts)
      (event : ContractEvent) :
      ∀ r ∈ (saveEvent db event).rawContractEvents, r.contract ∈ (saveEvent db event).contracts := by
    have more : db.contracts ⊆ getOrCreateContractId db.contracts event.contractId := by
      unfold getOrCreateContractId
      split
      · exact List.Subset.refl _
      · exact List.subset_append_left _ _
    have here : event.contractId ∈ getOrCreateContractId db.contracts event.contractId := by
      unfold getOrCreateContractId
      split
      · assumption
      · simp
    intro r member
    unfold saveEvent at member ⊢
    dsimp only at member ⊢
    split at member
    · exact more (known r member)
    · rcases List.mem_append.mp member with older | new
      · exact more (known r older)
      · rw [List.mem_singleton.mp new]
        exact here
  induction steps using List.reverseRecOn with
  | nil => simp [run, Database.empty]
  | append_singleton steps step ih =>
    have last : run C (steps ++ [step]) = step.apply C (run C steps) := by
      unfold run
      rw [List.foldl_append]
      rfl
    rw [last]
    clear last
    cases step with
    | saveEvents events =>
      change ∀ r ∈ (events.foldl saveEvent (run C steps)).rawContractEvents,
        r.contract ∈ (events.foldl saveEvent (run C steps)).contracts
      generalize run C steps = db at ih
      induction events generalizing db with
      | nil => exact ih
      | cons event events more => exact more (saveEvent db event) (saved ih event)
    | process limit =>
      obtain ⟨next, returned, -, step⟩ := (good_run C steps).run_processEvents limit
      rw [Step.apply_process returned, step.raw, step.contracts]
      exact ih

def nullifierQueries (H : Hasher) (db : Database) (accounts : List AccountKeys) : Set Query :=
  {q | ∃ account ∈ accounts, ∃ ev ∈ db.poolCommitments,
    q = .hash3 ev.commitment ev.index
      (computeSignature H account.noteKeypair.privateKey ev.commitment ev.index) 2}

section Worker

variable {H : Hasher} {X : Cipher} {C : Codec} {db : Database} {accounts : List AccountKeys}

theorem workerDerive_some {account : AccountKeys} {row : PoolCommitmentRow} {note : DerivedUserNote}
    (returned : workerDerive H X account row = .ok (some note)) :
    note.expectedNullifier = computeNullifier H row.commitment row.leafIndex
      (computeSignature H account.noteKeypair.privateKey row.commitment row.leafIndex) := by
  unfold workerDerive at returned
  cases opened : tryDecryptAndDeriveUserNote H X account row.commitment row.leafIndex row.encryptedOutput with
  | error e =>
    rw [opened] at returned
    cases returned
  | ok found =>
    rw [opened] at returned
    cases returned
    exact derive_nullifier opened

theorem workerDerive_fails_iff {account : AccountKeys} {row : PoolCommitmentRow} :
    (∃ e, workerDerive H X account row = .error e) ↔
      ¬Acceptable X account.encryptionPrivate row.encryptedOutput := by
  have accepted : (∃ note, tryDecryptAndDeriveUserNote H X account row.commitment row.leafIndex
      row.encryptedOutput = .ok note) ↔ Acceptable X account.encryptionPrivate row.encryptedOutput :=
    derive_ok_iff
  rw [← accepted]
  unfold workerDerive
  cases tryDecryptAndDeriveUserNote H X account row.commitment row.leafIndex row.encryptedOutput with
  | error e => exact iff_of_true ⟨.derive e, rfl⟩ (fun ⟨note, returned⟩ => by cases returned)
  | ok found =>
    refine iff_of_false (fun ⟨e, returned⟩ => by cases returned) ?_
    exact not_not.mpr ⟨found, rfl⟩

theorem Good.apart (good : Good C db) (distinct : Set.InjOn H.answer (nullifierQueries H db accounts)) :
    NullifiersApart db (workerDerive H X) accounts := by
  intro pool pool' row member row' member' account known account' known' derived derived' returned returned' same
  obtain ⟨first, ev, here, -, rowIs⟩ := mem_poolRows member
  obtain ⟨first', ev', here', -, rowIs'⟩ := mem_poolRows member'
  have expected := workerDerive_some returned
  have expected' := workerDerive_some returned'
  rw [rowIs] at expected
  rw [rowIs'] at expected'
  have queries := distinct ⟨account, known, ev, List.mem_of_getElem? here, rfl⟩
    ⟨account', known', ev', List.mem_of_getElem? here', rfl⟩ (expected.symm.trans (same.trans expected'))
  have commitment : ev.commitment = ev'.commitment := (Query.hash3.inj queries).1
  obtain ⟨inside, isEv⟩ := List.getElem?_eq_some_iff.mp here
  obtain ⟨inside', isEv'⟩ := List.getElem?_eq_some_iff.mp here'
  have sameEv := List.inj_on_of_nodup_map good.filedCommitments.keys (List.mem_of_getElem? here)
    (List.mem_of_getElem? here') commitment
  have rows : db.poolCommitments.Nodup := List.Nodup.of_map _ good.filedCommitments.keys
  have positions := (List.Nodup.getElem_inj_iff rows).mp (isEv.trans (sameEv.trans isEv'.symm))
  omega

theorem Good.pool_of_commitment (good : Good C db)
    (known : ∀ event ∈ db.rawContractEvents, event.contract ∈ db.contracts) {ev : NewCommitmentEvent}
    (member : ev ∈ db.poolCommitments) : ∃ pool ∈ db.commitmentPools, db.emittedBy ev.id pool := by
  obtain ⟨event, there, read⟩ := good.filedCommitments.source ev member
  have id : ev.id = event.id := Kind.read_id commitments_named read
  have emitted : db.emittedBy ev.id event.contract := by
    unfold Database.emittedBy
    exact List.any_eq_true.mpr ⟨event, there, by simp [id]⟩
  refine ⟨event.contract, List.mem_filter.mpr ⟨known event there, ?_⟩, emitted⟩
  exact List.any_eq_true.mpr ⟨ev, member, emitted⟩

def AllAcceptable (X : Cipher) (db : Database) (accounts : List AccountKeys) : Prop :=
  ∀ account ∈ accounts, ∀ ev ∈ db.poolCommitments, Acceptable X account.encryptionPrivate ev.encryptedOutput

theorem not_blocked_of_acceptable (acceptable : AllAcceptable X db accounts) :
    ¬Blocked db (workerDerive H X) accounts := by
  intro ⟨pool, account, known, row, member, fails⟩
  obtain ⟨-, ev, here, -, rowIs⟩ := mem_poolRows member
  refine workerDerive_fails_iff.mp fails ?_
  rw [rowIs]
  exact acceptable account known ev (List.mem_of_getElem? here)

/-- The output was made by `encrypt_output_note` for the account, with an amount that is not zero. -/
def Addressed (H : Hasher) (X : Cipher) (account : AccountKeys) (ev : NewCommitmentEvent) : Prop :=
  ∃ (r : Randomness) (amount : BitVec 128) (blinding : Fr), r.nonce.length = 24 ∧ amount ≠ 0 ∧
    ev.encryptedOutput = encryptOutputNote X (X.publicKey account.encryptionPrivate) r amount blinding ∧
    ev.commitment = computeCommitment H amount.toNat account.noteKeypair.publicKey blinding

def AllRecovered (H : Hasher) (X : Cipher) (db : Database) (accounts : List AccountKeys) (notes : List UserNote) :
    Prop :=
  ∀ account ∈ accounts, ∀ ev ∈ db.poolCommitments, Addressed H X account ev → ev.commitment ∈ notes.map (·.id)

theorem Good.allRecovered (good : Good C db)
    (known : ∀ event ∈ db.rawContractEvents, event.contract ∈ db.contracts) (opens : X.Opens)
    {notes : List UserNote} (tried : AllTried db (workerDerive H X) accounts notes) :
    AllRecovered H X db accounts notes := by
  intro account mine ev member ⟨r, amount, blinding, nonce, positive, output, commitment⟩
  obtain ⟨pool, scanned, emitted⟩ := good.pool_of_commitment known member
  obtain ⟨id, row⟩ := poolRows_of_mem member emitted
  obtain ⟨result, returned, noted⟩ := tried pool scanned account mine _ row
  obtain ⟨note, found⟩ : ∃ note, tryDecryptAndDeriveUserNote H X account _ ev.index _ = .ok (some note) :=
    derive_encrypt opens account nonce positive blinding ev.index
  have same : workerDerive H X account ⟨id, ev.commitment, ev.index, ev.encryptedOutput⟩ = .ok (some note) := by
    unfold workerDerive
    dsimp only
    rw [output, commitment, found]
    rfl
  rw [same, Except.ok.injEq] at returned
  exact noted (returned ▸ Option.some_ne_none note)

theorem Good.allAcceptable (good : Good C db)
    (known : ∀ event ∈ db.rawContractEvents, event.contract ∈ db.contracts) {notes : List UserNote}
    (tried : AllTried db (workerDerive H X) accounts notes) : AllAcceptable X db accounts := by
  intro account mine ev member
  obtain ⟨pool, scanned, emitted⟩ := good.pool_of_commitment known member
  obtain ⟨id, row⟩ := poolRows_of_mem member emitted
  obtain ⟨result, returned, -⟩ := tried pool scanned account mine _ row
  by_contra refused
  obtain ⟨e, fails⟩ : ∃ e, workerDerive H X account ⟨id, ev.commitment, ev.index, ev.encryptedOutput⟩ =
      .error e := workerDerive_fails_iff.mpr refused
  rw [fails] at returned
  cases returned

theorem Good.scannable {wallet : Wallet} (good : Good C db)
    (distinct : Set.InjOn H.answer (nullifierQueries H db (getAccountsWithLatestKeypairs wallet))) :
    Scannable db (workerDerive H X) (getAccountsWithLatestKeypairs wallet) :=
  ⟨good.apart distinct, fun _ ha _ hb same => accountIds_inj ha hb same⟩

end Worker

theorem nullifierQueries_injOn {H : Hasher} {db : Database} {accounts : List AccountKeys} {ev : NewCommitmentEvent}
    {account : AccountKeys} (rows : db.poolCommitments = [ev]) (single : accounts = [account]) :
    Set.InjOn H.answer (nullifierQueries H db accounts) := by
  intro q hq r hr _
  obtain ⟨a, knownA, evA, memberA, rfl⟩ := hq
  obtain ⟨b, knownB, evB, memberB, rfl⟩ := hr
  rw [single, List.mem_singleton] at knownA knownB
  rw [rows, List.mem_singleton] at memberA memberB
  rw [knownA, knownB, memberA, memberB]

/-- A cipher whose key is a byte both sides know and whose tag is that byte, 16 times. -/
def byteCipher : Cipher where
  publicKey secret := (secret ++ List.replicate 32 0).take 32
  encrypt recipient ephemeralSecret _ plaintext :=
    plaintext ++ List.replicate 16 (1 + ((ephemeralSecret ++ List.replicate 32 0).take 32).sum + recipient.sum)
  decrypt secret ephemeralPublic _ ciphertext :=
    let tag := List.replicate 16 (1 + ephemeralPublic.sum + ((secret ++ List.replicate 32 0).take 32).sum)
    if ciphertext.drop (ciphertext.length - 16) = tag then some (ciphertext.take (ciphertext.length - 16))
    else none

theorem byteCipher_opens : byteCipher.Opens := by
  constructor
  · intro secret ephemeralSecret nonce plaintext
    unfold byteCipher
    simp
  · intro secret
    simp [byteCipher]
  · intro recipient ephemeralSecret nonce plaintext
    simp [byteCipher]

def sampleWallet : Wallet where
  accounts := 1
  keypairs := [⟨some 1, ⟨0, 0⟩, List.replicate 32 0⟩]

def sampleAccount : AccountKeys := ⟨1, ⟨0, 0⟩, List.replicate 32 0⟩

theorem sampleWallet_accounts : getAccountsWithLatestKeypairs sampleWallet = [sampleAccount] := rfl

/-- Where the nullifiers in play do not collide, the calls of `process_notes` never fail, come to an end
and leave a note for every output addressed to an account iff every stored output has at least 120
bytes and, under the keys of every account, does not open, opens to nothing, or opens to 48 bytes of
which the last 32 are a field element. -/
theorem process_notes_recovers_iff (H : Hasher) (X : Cipher) (C : Codec) (steps : List Step) (wallet : Wallet)
    {limit : Nat} (positive : 1 ≤ limit) (opens : X.Opens)
    (distinct : Set.InjOn H.answer
      (nullifierQueries H (run C steps) (getAccountsWithLatestKeypairs wallet))) :
    RunsDry (run C steps) (workerDerive H X) (getAccountsWithLatestKeypairs wallet) limit UserState.fresh
        (AllRecovered H X (run C steps) (getAccountsWithLatestKeypairs wallet)) ↔
      AllAcceptable X (run C steps) (getAccountsWithLatestKeypairs wallet) := by
  have good := good_run C steps
  have known := contracts_run C steps
  have sound : Scannable (run C steps) (workerDerive H X) (getAccountsWithLatestKeypairs wallet) :=
    good.scannable distinct
  constructor
  · intro ⟨returns, n, dry, _⟩
    exact good.allAcceptable known (allTried_of_returns sound scanned_fresh positive returns dry)
  · intro acceptable
    obtain ⟨returns, n, dry, tried⟩ :=
      runsDry_of_free sound scanned_fresh positive (not_blocked_of_acceptable acceptable)
    exact ⟨returns, n, dry, good.allRecovered known opens tried⟩

def outputTopic : String := "AAAADwAAABRuZXdfY29tbWl0bWVudF9ldmVudA=="

def zeroOutputData : String :=
  "AAAAEQAAAAEAAAACAAAADwAAABBlbmNyeXB0ZWRfb3V0cHV0AAAADQAAAHgAAAAAAAAAAAAAAAAAAAAAAAAAAAAAAAAAAAAAAAAA" ++
    "AAAAAAAAAAAAAAAAAAAAAAAAAAAAAAAAAAAAAAAAAAAAAAAAAAAAAAAAAAAAAAAAAAAAAAAAAAAAAAAAAAAAAAAAAAAAAAAAAAAA" ++
    "AAAAAAAAAAAAAAAAAAAAAAAPAAAABWluZGV4AAAAAAAAAwAAAAA="

def addressedText : String := "AAAACxEqmZiVLwRMqm7jIyeGVb/SNV048QKlRdnnl9V6dHDU"

def addressedData : String :=
  "AAAAEQAAAAEAAAACAAAADwAAABBlbmNyeXB0ZWRfb3V0cHV0AAAADQAAAHgAAAAAAAAAAAAAAAAAAAAAAAAAAAAAAAAAAAAAAAAA" ++
    "AAAAAAAAAAAAAAAAAAAAAAAAAAAAAAAAAAMAAAAAAAAAAAAAAAAAAAAJAAAAAAAAAAAAAAAAAAAAAAAAAAAAAAAAAAAAAAAAAAEB" ++
    "AQEBAQEBAQEBAQEBAQEAAAAPAAAABWluZGV4AAAAAAAAAwAAAAE="

def addressedRow : NewCommitmentEvent where
  id := "0000000004294971392-0000000001"
  commitment := poseidon2.hash3 3 0 9 1
  index := 1
  encryptedOutput := encryptOutputNote byteCipher (byteCipher.publicKey sampleAccount.encryptionPrivate)
    ⟨[], List.replicate 24 0⟩ 3 9

/-- The texts of two commitment events: one has an output of 120 zero bytes, the other a note for the sample account. -/
def outputsCodec : Codec where
  fromXdrBase64 text :=
    [(outputTopic, .symbol (some "new_commitment_event")),
      ("AAAACwAAAAAAAAAAAAAAAAAAAAAAAAAAAAAAAAAAAAAAAAAF", .u256 0 0 0 5),
      (addressedText, .u256 0x112a9998952f044c 0xaa6ee323278655bf 0xd2355d38f102a545 0xd9e797d57a7470d4),
      (zeroOutputData, .map (some [(.symbol (some "encrypted_output"), .bytes (List.replicate 120 0)),
        (.symbol (some "index"), .u32 0)])),
      (addressedData, .map (some [(.symbol (some "encrypted_output"), .bytes addressedRow.encryptedOutput),
        (.symbol (some "index"), .u32 1)]))].lookup text
  accountText _ := ""
  contractText _ := ""

def zeroOutput : ContractEvent := sampleCommitment "0000000004294971392-0000000000" zeroOutputData

def addressedOutput : ContractEvent :=
  { sampleCommitment "0000000004294971392-0000000001" addressedData with topics := [outputTopic, addressedText] }

def zeroRow : NewCommitmentEvent := { firstRow with encryptedOutput := List.replicate 120 0 }

theorem process_notes_recovers_iff_sample :
    RunsDry (run outputsCodec [.saveEvents [zeroOutput, addressedOutput], .process 50])
      (workerDerive poseidon2 byteCipher) (getAccountsWithLatestKeypairs sampleWallet) 50 UserState.fresh
      (AllRecovered poseidon2 byteCipher (run outputsCodec [.saveEvents [zeroOutput, addressedOutput], .process 50])
        (getAccountsWithLatestKeypairs sampleWallet)) := by
  have rows : (run outputsCodec [.saveEvents [zeroOutput, addressedOutput], .process 50]).poolCommitments =
      [addressedRow, zeroRow] := by decide +kernel
  have distinct : Set.InjOn poseidon2.answer (nullifierQueries poseidon2
      (run outputsCodec [.saveEvents [zeroOutput, addressedOutput], .process 50])
        (getAccountsWithLatestKeypairs sampleWallet)) := by
    refine (CollisionFree.of_log ([addressedRow, zeroRow].map fun ev => .hash3 ev.commitment ev.index
      (computeSignature poseidon2 sampleAccount.noteKeypair.privateKey ev.commitment ev.index) 2)
        (by decide +kernel)).injOn.mono ?_
    rintro q ⟨account, mine, ev, member, rfl⟩
    rw [sampleWallet_accounts, List.mem_singleton] at mine
    rw [rows] at member
    rw [mine]
    exact List.mem_map.mpr ⟨ev, member, rfl⟩
  rw [process_notes_recovers_iff poseidon2 byteCipher outputsCodec _ sampleWallet (by decide) byteCipher_opens distinct]
  intro account mine ev member
  rw [sampleWallet_accounts, List.mem_singleton] at mine
  rw [rows] at member
  rw [mine]
  rcases List.mem_pair.mp member with rfl | rfl
  · refine ⟨by decide, fun plaintext opened => Or.inr ?_⟩
    have plain : byteCipher.decrypt sampleAccount.encryptionPrivate (addressedRow.encryptedOutput.take 32)
        ((addressedRow.encryptedOutput.drop 32).take 24) (addressedRow.encryptedOutput.drop 56) =
        some (notePlaintext 3 9) := by
      decide +kernel
    obtain rfl := Option.some.inj (plain.symm.trans opened)
    decide +kernel
  · refine ⟨by decide, fun plaintext opened => ?_⟩
    have closed : byteCipher.decrypt sampleAccount.encryptionPrivate ((List.replicate 120 0).take 32)
        (((List.replicate 120 0).drop 32).take 24) ((List.replicate 120 0).drop 56) = none := by decide
    cases closed.symm.trans opened

/-- One output of no bytes keeps the scan of every account from getting past it. -/
theorem empty_output_blocks :
    ¬RunsDry (run sampleCodec [.saveEvents [firstCommitment], .process 50])
      (workerDerive poseidon2 byteCipher) (getAccountsWithLatestKeypairs sampleWallet) 50 UserState.fresh
      (AllRecovered poseidon2 byteCipher (run sampleCodec [.saveEvents [firstCommitment], .process 50])
        (getAccountsWithLatestKeypairs sampleWallet)) := by
  have rows : (run sampleCodec [.saveEvents [firstCommitment], .process 50]).poolCommitments = [firstRow] := by
    decide +kernel
  intro ⟨returns, n, dry, _⟩
  have good := good_run sampleCodec [.saveEvents [firstCommitment], .process 50]
  have known := contracts_run sampleCodec [.saveEvents [firstCommitment], .process 50]
  have sound := good.scannable (H := poseidon2) (X := byteCipher)
    (nullifierQueries_injOn rows sampleWallet_accounts)
  have acceptable := good.allAcceptable known
    (allTried_of_returns sound scanned_fresh (by decide) returns dry)
  have refused := acceptable sampleAccount (by simp [sampleWallet_accounts]) firstRow (by simp [rows])
  exact absurd refused.1 (by decide)

end PrivatePayments.LocalState
