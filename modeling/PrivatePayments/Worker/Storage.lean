import PrivatePayments.LocalState.AspPrecondition
import PrivatePayments.LocalState.NoteContents
import PrivatePayments.Worker.Keyring

/-!
The database of the storage worker under its requests. At every moment a note is what keys that were
saved for its account open a stored commitment to.
-/

namespace PrivatePayments.Worker
open Bn254 Poseidon2 LocalState Library Library.LittleEndian
open Prover hiding Bytes

/-- What the worker is built on; the hash is that of the disclaimer the build was made with. -/
structure Backend where
  hasher : Hasher
  cipher : Cipher
  derivation : Derivation
  codec : Codec
  currentDisclaimerHashHex : String

structure Storage where
  db : Database
  keyring : Keyring
  user : UserState

/-- The requests that change the modelled tables, and a round of the events processor. -/
inductive Request where
  | saveEvents (events : List ContractEvent)
  | saveSyncProgress (metadata : List SyncMetadata) (fullyIndexed : Bool)
  | clearIndexingCursors
  | deriveSaveUserKeys (address : String) (signature : Bytes) (networkContext : String)
  | disclaimerState (address : String)
  | acceptDisclaimer (address disclaimerHashHex : String)
  | processUntilEmpty

def fetchLimit : Nat := 50

namespace Storage

def empty : Storage where
  db := .empty
  keyring := .empty
  user := .fresh

def accounts (s : Storage) : List AccountKeys := getAccountsWithLatestKeypairs s.keyring.wallet

variable (B : Backend)

/-- One round of `process_until_empty`: where the events fail, the notes are not processed. -/
def processRound (s : Storage) : Storage :=
  match processEvents B.codec fetchLimit s.db with
  | none => s
  | some (_, db) =>
      { s with
        db := db
        user := (processNotes db (workerDerive B.hasher B.cipher) s.accounts fetchLimit s.user).2 }

/-- A request that fails changes nothing. -/
def handle (s : Storage) : Request → Storage
  | .saveEvents events => { s with db := saveEventsBatch events s.db }
  | .saveSyncProgress metadata fullyIndexed => { s with db := saveSyncProgress metadata fullyIndexed s.db }
  | .clearIndexingCursors => { s with db := clearIndexingCursors s.db }
  | .deriveSaveUserKeys address signature networkContext =>
      match deriveUserKeys B.hasher B.derivation signature networkContext with
      | .ok keys => { s with keyring := s.keyring.saveEncryptionAndNoteKeypairs address keys }
      | .error _ => s
  | .disclaimerState address => { s with keyring := s.keyring.getOrCreateAccount address }
  | .acceptDisclaimer address disclaimerHashHex =>
      if disclaimerHashHex ≠ B.currentDisclaimerHashHex then s
      else { s with keyring := s.keyring.getOrCreateAccount address }
  | .processUntilEmpty => s.processRound B

def run (requests : List Request) : Storage := requests.foldl (handle B) empty

end Storage

structure StoredUserKeys.Opens (H : Hasher) (keys : StoredUserKeys) (note : UserNote) (ev : NewCommitmentEvent) :
    Prop where
  positive : note.amount ≠ 0
  fits : note.amount < 2 ^ 128
  commitment : computeCommitment H note.amount keys.noteKeypair.publicKey.scalar note.blinding = ev.commitment
  nullifier : note.expectedNullifier = computeNullifier H ev.commitment ev.index
    (computeSignature H keys.noteKeypair.privateKey.scalar ev.commitment ev.index)

def SavedFor (B : Backend) (requests : List Request) (ring : Keyring) (accountId : Nat) (keys : StoredUserKeys) :
    Prop :=
  ∃ address signature networkContext, .deriveSaveUserKeys address signature networkContext ∈ requests ∧
    ring.owns address accountId = true ∧ keys = userKeysOf B.hasher B.derivation signature networkContext

def MadeFrom (B : Backend) (requests : List Request) (s : Storage) (note : UserNote) : Prop :=
  ∃ keys ev, SavedFor B requests s.keyring note.accountId keys ∧ 0 < note.commitmentId ∧
    s.db.poolCommitments[note.commitmentId - 1]? = some ev ∧ keys.Opens B.hasher note ev

structure Lawful (B : Backend) (requests : List Request) (s : Storage) : Prop where
  good : Good B.codec s.db
  addresses : s.keyring.accounts.Nodup
  saved : ∀ row ∈ s.keyring.keypairs, SavedFor B requests s.keyring row.accountId row.keys
  made : ∀ note ∈ s.user.userNotes, MadeFrom B requests s note

section Opening

variable {H : Hasher} {X : Cipher}

theorem readOutputNote_fits {plaintext : Bytes} {amount : Nat} {blinding : Fr}
    (opened : readOutputNote plaintext = .ok (some (amount, blinding))) : amount < 2 ^ 128 := by
  unfold readOutputNote at opened
  split at opened
  · cases opened
  · split at opened
    · cases opened
    · obtain ⟨field, -, read⟩ := of_bind_ok opened
      cases read
      have small := fromLeBytes_lt (plaintext.take 16)
      have length := List.length_take_le 16 plaintext
      exact lt_of_lt_of_le small ((Nat.pow_le_pow_right (by decide) length).trans (by decide))

/-- What the callback finds opens the commitment. -/
theorem workerDerive_opens {keys : StoredUserKeys} {accountId : Nat} {db : Database} {pool : String}
    {row : PoolCommitmentRow} {derived : DerivedUserNote} {ev : NewCommitmentEvent}
    (returned : workerDerive H X (keys.account accountId) row = .ok (some derived))
    (sameCommitment : row.commitment = ev.commitment) (sameIndex : row.leafIndex = ev.index) :
    keys.Opens H (userNote db pool (keys.account accountId) row derived) ev := by
  have nullifier := workerDerive_some returned
  rw [sameCommitment, sameIndex] at nullifier
  unfold workerDerive tryDecryptAndDeriveUserNote decryptOutputNote at returned
  cases decrypted : decryptNoteData X (keys.account accountId).encryptionPrivate row.encryptedOutput with
  | error e =>
    rw [decrypted] at returned
    cases returned
  | ok plaintext =>
    rw [decrypted] at returned
    change Except.mapError _ (readOutputNote plaintext >>= _) = _ at returned
    cases read : readOutputNote plaintext with
    | error e =>
      rw [read] at returned
      cases returned
    | ok found =>
      rw [read] at returned
      cases found with
      | none => cases returned
      | some found =>
        obtain ⟨amount, blinding⟩ := found
        have fits := readOutputNote_fits read
        change Except.mapError _ (if amount = 0 then _ else _) = _ at returned
        split at returned
        next zero => cases returned
        next positive =>
          split at returned
          next other => cases returned
          next same =>
            cases returned
            exact ⟨positive, fits, (not_not.mp same).trans sameCommitment, nullifier⟩

end Opening

section Steps

variable {B : Backend} {requests : List Request} {s : Storage}

theorem getElem?_of_prefix {α : Type} {xs ys : List α} (grown : xs <+: ys) {i : Nat} {x : α} (here : xs[i]? = some x) :
    ys[i]? = some x := by
  obtain ⟨more, rfl⟩ := grown
  obtain ⟨inside, -⟩ := List.getElem?_eq_some_iff.mp here
  rw [List.getElem?_append_left inside]
  exact here

theorem commitments_saved (events : List ContractEvent) (db : Database) :
    (saveEventsBatch events db).poolCommitments = db.poolCommitments := by
  unfold saveEventsBatch
  induction events generalizing db with
  | nil => rfl
  | cons event events ih => exact ih (saveEvent db event)

theorem commitments_progress (metadata : List SyncMetadata) (fullyIndexed : Bool) (db : Database) :
    (saveSyncProgress metadata fullyIndexed db).poolCommitments = db.poolCommitments := by
  unfold saveSyncProgress
  induction metadata generalizing db with
  | nil => rfl
  | cons entry metadata ih => exact ih (saveSyncEntry fullyIndexed db entry)

theorem owns_created {ring : Keyring} {address other : String} {accountId : Nat}
    (owned : ring.owns address accountId = true) : (ring.getOrCreateAccount other).owns address accountId = true := by
  obtain ⟨positive, here⟩ := owns_iff.mp owned
  refine owns_iff.mpr ⟨positive, ?_⟩
  change (if other ∈ ring.accounts then ring.accounts else ring.accounts ++ [other])[accountId - 1]? = some address
  split
  · exact here
  · exact getElem?_of_prefix (List.prefix_append ring.accounts [other]) here

theorem nodup_created {ring : Keyring} (distinct : ring.accounts.Nodup) (address : String) :
    (ring.getOrCreateAccount address).accounts.Nodup := by
  change (if address ∈ ring.accounts then ring.accounts else ring.accounts ++ [address]).Nodup
  split
  · exact distinct
  · exact List.nodup_append'.mpr ⟨distinct, List.nodup_singleton _, List.disjoint_singleton.mpr ‹_›⟩

theorem owns_new (ring : Keyring) (address : String) :
    (ring.getOrCreateAccount address).owns address
      ((ring.getOrCreateAccount address).accounts.idxOf address + 1) = true := by
  have member : address ∈ (ring.getOrCreateAccount address).accounts := by
    change address ∈ if address ∈ ring.accounts then ring.accounts else ring.accounts ++ [address]
    split
    · assumption
    · exact List.mem_append_right _ List.mem_cons_self
  exact owns_iff.mpr ⟨Nat.succ_pos _, List.getElem?_idxOf member⟩

theorem SavedFor.mono {ring next : Keyring} {more : List Request} {accountId : Nat} {keys : StoredUserKeys}
    (saved : SavedFor B requests ring accountId keys) (larger : requests ⊆ more)
    (kept : ∀ address, ring.owns address accountId = true → next.owns address accountId = true) :
    SavedFor B more next accountId keys := by
  obtain ⟨address, signature, networkContext, asked, owned, same⟩ := saved
  exact ⟨address, signature, networkContext, larger asked, kept address owned, same⟩

theorem MadeFrom.mono {next : Storage} {more : List Request} {note : UserNote} (made : MadeFrom B requests s note)
    (larger : requests ⊆ more)
    (kept : ∀ address, s.keyring.owns address note.accountId = true → next.keyring.owns address note.accountId = true)
    (grown : s.db.poolCommitments <+: next.db.poolCommitments) : MadeFrom B more next note := by
  obtain ⟨keys, ev, saved, positive, here, opens⟩ := made
  exact ⟨keys, ev, saved.mono larger kept, positive, getElem?_of_prefix grown here, opens⟩

theorem Lawful.of_db (lawful : Lawful B requests s) {more : List Request} (larger : requests ⊆ more) {db : Database}
    (good : Good B.codec db) (same : db.poolCommitments = s.db.poolCommitments) :
    Lawful B more { s with db := db } where
  good := good
  addresses := lawful.addresses
  saved row member := (lawful.saved row member).mono larger fun _ owned => owned
  made note member := (lawful.made note member).mono larger (fun _ owned => owned) (same ▸ List.prefix_refl _)

theorem Lawful.account (lawful : Lawful B requests s) {account : AccountKeys} (known : account ∈ s.accounts) :
    ∃ keys, SavedFor B requests s.keyring account.accountId keys ∧ account = keys.account account.accountId := by
  obtain ⟨id, -, latest⟩ := List.mem_filterMap.mp known
  obtain ⟨row, found, rfl⟩ := Option.map_eq_some_iff.mp latest
  have isId : row.accountId = some id := by simpa using List.find?_some found
  obtain ⟨stored, member, rfl⟩ := List.mem_map.mp (List.mem_reverse.mp (List.mem_of_find?_eq_some found))
  obtain rfl : stored.accountId = id := Option.some.inj isId
  exact ⟨stored.keys, lawful.saved stored member, rfl⟩

theorem Lawful.createAccount (lawful : Lawful B requests s) {more : List Request} (larger : requests ⊆ more)
    (address : String) : Lawful B more { s with keyring := s.keyring.getOrCreateAccount address } where
  good := lawful.good
  addresses := nodup_created lawful.addresses address
  saved row member := (lawful.saved row member).mono larger fun _ owned => owns_created owned
  made note member := (lawful.made note member).mono larger (fun _ owned => owns_created owned) (List.prefix_refl _)

theorem Lawful.saveKeys (lawful : Lawful B requests s) {address : String} {signature : Bytes}
    {networkContext : String} :
    Lawful B (requests ++ [.deriveSaveUserKeys address signature networkContext])
      { s with keyring := s.keyring.saveEncryptionAndNoteKeypairs address
                 (userKeysOf B.hasher B.derivation signature networkContext) } where
  good := lawful.good
  addresses := nodup_created lawful.addresses address
  saved row member := by
    have created := lawful.createAccount (List.subset_append_left requests
      [.deriveSaveUserKeys address signature networkContext]) address
    rcases List.mem_append.mp member with older | new
    · exact created.saved row older
    · rw [List.mem_singleton.mp new]
      exact ⟨address, signature, networkContext, List.mem_append_right _ List.mem_cons_self,
        owns_new s.keyring address, rfl⟩
  made note member := (lawful.createAccount (List.subset_append_left _ _) address).made note member

theorem Lawful.processRound (lawful : Lawful B requests s) {more : List Request} (larger : requests ⊆ more) :
    Lawful B more (s.processRound B) := by
  obtain ⟨db, returned, good, step⟩ := lawful.good.run_processEvents fetchLimit
  obtain ⟨added, commitments, -⟩ := step.addedCommitments
  have grown : s.db.poolCommitments <+: db.poolCommitments := commitments ▸ List.prefix_append _ _
  have processed : s.processRound B =
      { s with
        db := db
        user := (processNotes db (workerDerive B.hasher B.cipher) s.accounts fetchLimit s.user).2 } := by
    rw [Storage.processRound, returned]
  have lasting : Lasting db (workerDerive B.hasher B.cipher) s.accounts (MadeFrom B more { s with db := db }) := by
    constructor
    · intro pool row member account known derived opened
      obtain ⟨keys, saved, isAccount⟩ := lawful.account known
      obtain ⟨positive, ev, here, -, isRow⟩ := mem_poolRows member
      rw [isAccount] at opened ⊢
      exact ⟨keys, ev, saved.mono larger fun _ owned => owned, positive, here,
        workerDerive_opens opened (congrArg PoolCommitmentRow.commitment isRow)
          (congrArg PoolCommitmentRow.leafIndex isRow)⟩
    · intro note id made
      obtain ⟨keys, ev, saved, positive, here, opens⟩ := made
      exact ⟨keys, ev, saved, positive, here, opens.positive, opens.fits, opens.commitment, opens.nullifier⟩
  have notes := lasting.processNotes fetchLimit fun note member =>
    (lawful.made note member).mono larger (fun _ owned => owned) grown
  rw [processed]
  exact
    { good := good
      addresses := lawful.addresses
      saved := fun row member => (lawful.saved row member).mono larger fun _ owned => owned
      made := notes }

theorem Lawful.handle (lawful : Lawful B requests s) (request : Request) :
    Lawful B (requests ++ [request]) (s.handle B request) := by
  have larger : requests ⊆ requests ++ [request] := List.subset_append_left _ _
  cases request with
  | saveEvents events =>
    exact lawful.of_db larger (lawful.good.step (.saveEvents events)) (commitments_saved events s.db)
  | saveSyncProgress metadata fullyIndexed =>
    exact lawful.of_db larger (lawful.good.run_saveSyncProgress metadata fullyIndexed)
      (commitments_progress metadata fullyIndexed s.db)
  | clearIndexingCursors =>
    exact lawful.of_db larger ⟨lawful.good.rawIds, lawful.good.filedNullifiers, lawful.good.filedCommitments,
      lawful.good.filedPubkeys, lawful.good.filedLeaves⟩ rfl
  | deriveSaveUserKeys address signature networkContext =>
    simp only [Storage.handle]
    cases derived : deriveUserKeys B.hasher B.derivation signature networkContext with
    | ok keys =>
      rw [(deriveUserKeys_ok_iff.mp derived).2]
      exact lawful.saveKeys
    | error e => exact lawful.of_db larger lawful.good rfl
  | disclaimerState address => exact lawful.createAccount larger address
  | acceptDisclaimer address disclaimerHashHex =>
    simp only [Storage.handle]
    split
    · exact lawful.of_db larger lawful.good rfl
    · exact lawful.createAccount larger address
  | processUntilEmpty => exact lawful.processRound larger

theorem lawful_empty (B : Backend) : Lawful B [] .empty where
  good := good_run B.codec []
  addresses := List.nodup_nil
  saved _ member := absurd member List.not_mem_nil
  made _ member := absurd member List.not_mem_nil

theorem Lawful.foldl (lawful : Lawful B requests s) (more : List Request) :
    Lawful B (requests ++ more) (more.foldl (Storage.handle B) s) := by
  induction more generalizing requests s with
  | nil =>
    rw [List.append_nil]
    exact lawful
  | cons request more ih =>
    rw [List.append_cons, List.foldl_cons]
    exact ih (lawful.handle request)

/-- The requests come in any order and any number. -/
theorem lawful_run (B : Backend) (requests : List Request) : Lawful B requests (Storage.run B requests) :=
  (lawful_empty B).foldl requests

end Steps

end PrivatePayments.Worker
