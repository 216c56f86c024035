import Mathlib.Data.List.Sort
import PrivatePayments.Library.UniqueTable
import PrivatePayments.LocalState.EventsParsers

/-!
The local database up to the derived chain state: raw events and sync progress as the
indexer files them, the tables the raw events are processed into, and the readers of the
leaves. Rows are never deleted, so the row id of a table is the position of the row.
-/

namespace PrivatePayments.LocalState
open Bn254 Library

structure ContractEvent where
  id : String
  ledger : Nat
  contractId : String
  topics : List String
  value : String
  deriving DecidableEq

/-- The topics are stored as one comma-separated text. -/
def ContractEvent.row (event : ContractEvent) : RawEvent where
  id := event.id
  ledger := event.ledger
  contract := event.contractId
  topics := ",".intercalate event.topics
  value := event.value

structure MetadataRow where
  contract : String
  lastCursor : Option String
  lastIndexedLedger : Nat
  lastFullyIndexedLedger : Nat
  deriving DecidableEq

structure SyncMetadata where
  contractId : String
  lastIndexedLedger : Nat
  lastFullyIndexedLedger : Nat
  cursor : String
  deriving DecidableEq

/-- The contracts in the order of their ids; a row of a derived table is the event it was made from. -/
structure Database where
  contracts : List String
  indexingMetadata : List MetadataRow
  rawContractEvents : List RawEvent
  poolNullifiers : List NewNullifierEvent
  poolCommitments : List NewCommitmentEvent
  publicKeys : List PublicKeyEvent
  aspMembershipLeaves : List LeafAddedEvent
  deriving DecidableEq

namespace Database

def empty : Database where
  contracts := []
  indexingMetadata := []
  rawContractEvents := []
  poolNullifiers := []
  poolCommitments := []
  publicKeys := []
  aspMembershipLeaves := []

end Database

def getOrCreateContractId (contracts : List String) (address : String) : List String :=
  if address ∈ contracts then contracts else contracts ++ [address]

/-- `ON CONFLICT(id) DO NOTHING`. -/
def saveEvent (db : Database) (event : ContractEvent) : Database :=
  { db with
    contracts := getOrCreateContractId db.contracts event.contractId
    rawContractEvents :=
      if event.id ∈ db.rawContractEvents.map (·.id) then db.rawContractEvents
      else db.rawContractEvents ++ [event.row] }

def saveEventsBatch (events : List ContractEvent) (db : Database) : Database :=
  events.foldl saveEvent db

def SyncMetadata.row (entry : SyncMetadata) : MetadataRow where
  contract := entry.contractId
  lastCursor := some entry.cursor
  lastIndexedLedger := entry.lastIndexedLedger
  lastFullyIndexedLedger := 0

/-- One entry of `save_sync_progress`: the row is inserted if it is missing, then updated. -/
def saveSyncEntry (fullyIndexed : Bool) (db : Database) (entry : SyncMetadata) : Database :=
  let inserted :=
    if entry.contractId ∈ db.indexingMetadata.map (·.contract) then db.indexingMetadata
    else db.indexingMetadata ++ [entry.row]
  { db with
    contracts := getOrCreateContractId db.contracts entry.contractId
    indexingMetadata := inserted.map fun row =>
      if row.contract = entry.contractId then
        { row with
          lastCursor := some entry.cursor
          lastIndexedLedger := entry.lastIndexedLedger
          lastFullyIndexedLedger :=
            if fullyIndexed then entry.lastIndexedLedger else row.lastFullyIndexedLedger }
      else row }

def saveSyncProgress (metadata : List SyncMetadata) (fullyIndexed : Bool) (db : Database) : Database :=
  metadata.foldl (saveSyncEntry fullyIndexed) db

def clearIndexingCursors (db : Database) : Database :=
  { db with indexingMetadata := db.indexingMetadata.map fun row => { row with lastCursor := none } }

/-- A missing cursor reads as the empty one. -/
def MetadataRow.read (row : MetadataRow) : SyncMetadata where
  contractId := row.contract
  lastIndexedLedger := row.lastIndexedLedger
  lastFullyIndexedLedger := row.lastFullyIndexedLedger
  cursor := row.lastCursor.getD ""

/-- `ORDER BY contract_id`. -/
def getSyncMetadata (db : Database) : List SyncMetadata :=
  (db.contracts.filterMap fun c => db.indexingMetadata.find? fun row => row.contract = c).map
    MetadataRow.read

/-- The events that have a row in one of the four derived tables. -/
def Database.processedIds (db : Database) : List String :=
  db.poolCommitments.map (·.id) ++ db.publicKeys.map (·.id) ++ db.aspMembershipLeaves.map (·.id) ++
    db.poolNullifiers.map (·.id)

/-- `ORDER BY r.ledger ASC, r.id ASC`. -/
def RawEvent.Before (a b : RawEvent) : Prop := a.ledger < b.ledger ∨ a.ledger = b.ledger ∧ a.id ≤ b.id

instance : DecidableRel RawEvent.Before := fun _ _ => inferInstanceAs (Decidable (_ ∨ _ ∧ _))

def getUnprocessedEvents (limit : Nat) (db : Database) : List RawEvent :=
  ((db.rawContractEvents.filter fun r => r.id ∉ db.processedIds).insertionSort RawEvent.Before).take limit

/-- A derived table: which processed events it holds, the unique column whose conflicts are skipped
and the event id, which is unique too. -/
structure Kind (α κ : Type) where
  unwrap : ProcessedEvent → Option α
  key : α → κ
  id : α → String

def nullifiers : Kind NewNullifierEvent Fr where
  unwrap
    | .nullifier ev => some ev
    | _ => none
  key := (·.nullifier)
  id := (·.id)

def commitments : Kind NewCommitmentEvent Fr where
  unwrap
    | .commitment ev => some ev
    | _ => none
  key := (·.commitment)
  id := (·.id)

/-- The event id is the primary key. -/
def pubkeys : Kind PublicKeyEvent String where
  unwrap
    | .publicKey ev => some ev
    | _ => none
  key := (·.id)
  id := (·.id)

def leaves : Kind LeafAddedEvent Nat where
  unwrap
    | .leafAdded ev => some ev
    | _ => none
  key := (·.index)
  id := (·.id)

/-- One of the `save_*_events_batch`; none where a constraint aborts it. -/
def Kind.saveBatch {α κ : Type} [DecidableEq κ] (K : Kind α κ) (table events : List α) : Option (List α) :=
  UniqueTable.insertAll K.key K.id table events

def saveNullifierEventsBatch (events : List NewNullifierEvent) (db : Database) : Option Database := do
  return { db with poolNullifiers := ← nullifiers.saveBatch db.poolNullifiers events }

def saveCommitmentEventsBatch (events : List NewCommitmentEvent) (db : Database) : Option Database := do
  return { db with poolCommitments := ← commitments.saveBatch db.poolCommitments events }

def savePublicKeyEventsBatch (events : List PublicKeyEvent) (db : Database) : Option Database := do
  return { db with publicKeys := ← pubkeys.saveBatch db.publicKeys events }

def saveLeafAddedEventsBatch (events : List LeafAddedEvent) (db : Database) : Option Database := do
  return { db with aspMembershipLeaves := ← leaves.saveBatch db.aspMembershipLeaves events }

/-- The events that parse; the others are logged and left in the table of raw events. -/
def parseAll (C : Codec) (events : List RawEvent) : List ProcessedEvent :=
  events.filterMap fun event => (parseEvent C event).toOption

/-- `None` where a constraint aborts one of the batches. -/
def processEvents (C : Codec) (limit : Nat) (db : Database) : Option (Bool × Database) :=
  let unprocessed := getUnprocessedEvents limit db
  if unprocessed.isEmpty then some (false, db)
  else do
    -- `pop` takes the last event first
    let parsed := parseAll C unprocessed.reverse
    let db ← saveNullifierEventsBatch (parsed.filterMap nullifiers.unwrap) db
    let db ← saveCommitmentEventsBatch (parsed.filterMap commitments.unwrap) db
    let db ← savePublicKeyEventsBatch (parsed.filterMap pubkeys.unwrap) db
    let db ← saveLeafAddedEventsBatch (parsed.filterMap leaves.unwrap) db
    return (true, db)

inductive ReadError where
  | gap (table : String) (expected got : Nat)
  | indexOverflow (table : String)
  deriving DecidableEq

/-- The loop of both readers; `expected_index` is a `u32`. -/
def collectLeaves (table : String) : Nat → List (Nat × Fr) → Except ReadError (List Fr)
  | _, [] => .ok []
  | expected, (idx, leaf) :: rest =>
      if idx ≠ expected then .error (.gap table expected idx)
      else if expected + 1 < 2 ^ 32 then do return leaf :: (← collectLeaves table (expected + 1) rest)
      else .error (.indexOverflow table)

def Database.emittedBy (db : Database) (id contract : String) : Bool :=
  db.rawContractEvents.any fun r => r.id = id ∧ r.contract = contract

/-- The join and the sort of both readers. -/
def orderedRows (db : Database) (contract : String) (rows : List (String × Nat × Fr)) : List (Nat × Fr) :=
  ((rows.filter fun row => db.emittedBy row.1 contract).map (·.2)).insertionSort fun a b => a.1 ≤ b.1

def getPoolCommitmentLeavesOrdered (pool : String) (db : Database) : Except ReadError (List Fr) :=
  collectLeaves "pool_commitments" 0 (orderedRows db pool
    (db.poolCommitments.map fun row => (row.id, row.index, row.commitment)))

def getAllAspMembershipLeavesOrdered (asp : String) (db : Database) : Except ReadError (List Fr) :=
  collectLeaves "asp_membership_leaves" 0 (orderedRows db asp
    (db.aspMembershipLeaves.map fun row => (row.id, row.index, row.leaf)))

/-- What the client does to the derived state: it saves fetched events and processes them. -/
inductive Step where
  | saveEvents (events : List ContractEvent)
  | process (limit : Nat)

/-- A processing call that aborts keeps nothing. -/
def Step.apply (C : Codec) (db : Database) : Step → Database
  | .saveEvents events => saveEventsBatch events db
  | .process limit =>
      match processEvents C limit db with
      | some (_, next) => next
      | none => db

def run (C : Codec) (steps : List Step) : Database := steps.foldl (Step.apply C) Database.empty

end PrivatePayments.LocalState
