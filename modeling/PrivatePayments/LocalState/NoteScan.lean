import PrivatePayments.Library.Cursor
import PrivatePayments.LocalState.Database
import PrivatePayments.LocalState.NoteDecryption

/-!
The scan of the pool commitments for the notes of the local accounts and the
reconciliation with the nullifiers, as one call of `process_notes` runs them.
-/

namespace PrivatePayments.LocalState
open Bn254 Poseidon2 Library

structure KeypairRow where
  accountId : Option Nat
  noteKeypair : NoteKeyPair
  encryptionPrivate : Bytes

/-- The local accounts, with ids from one on, and their keys in the order they were saved. -/
structure Wallet where
  accounts : Nat
  keypairs : List KeypairRow

def KeypairRow.keys (row : KeypairRow) (accountId : Nat) : AccountKeys where
  accountId := accountId
  noteKeypair := row.noteKeypair
  encryptionPrivate := row.encryptionPrivate

def getAccountsWithLatestKeypairs (wallet : Wallet) : List AccountKeys :=
  (List.range' 1 wallet.accounts).filterMap fun id =>
    (wallet.keypairs.reverse.find? fun row => row.accountId = some id).map (·.keys id)

structure PoolCommitmentRow where
  commitmentId : Nat
  commitment : Fr
  leafIndex : Nat
  encryptedOutput : Bytes

structure NullifierRow where
  nullifierId : Nat
  nullifier : Fr

/-- A row id is the position of the row, from one on. -/
def Database.poolRows (db : Database) (pool : String) : List PoolCommitmentRow :=
  ((db.poolCommitments.zipIdx 1).filter fun entry => db.emittedBy entry.1.id pool).map fun entry =>
    ⟨entry.2, entry.1.commitment, entry.1.index, entry.1.encryptedOutput⟩

def Database.nullifierRows (db : Database) (pool : String) : List NullifierRow :=
  ((db.poolNullifiers.zipIdx 1).filter fun entry => db.emittedBy entry.1.id pool).map fun entry =>
    ⟨entry.2, entry.1.nullifier⟩

/-- `SELECT DISTINCT r.contract_id .. ORDER BY r.contract_id`. -/
def Database.commitmentPools (db : Database) : List String :=
  db.contracts.filter fun c => db.poolCommitments.any fun row => db.emittedBy row.id c

def Database.nullifierPools (db : Database) : List String :=
  db.contracts.filter fun c => db.poolNullifiers.any fun row => db.emittedBy row.id c

def Database.nullifierId (db : Database) (pool : String) (nullifier : Fr) : Option Nat :=
  ((db.nullifierRows pool).find? fun row => row.nullifier = nullifier).map (·.nullifierId)

structure UserNote where
  id : Fr
  accountId : Nat
  commitmentId : Nat
  nullifierId : Option Nat
  expectedNullifier : Fr
  blinding : Fr
  amount : Nat
  deriving DecidableEq

/-- The tables of the user processing. A cursor that is missing is inserted as zero before it is read. -/
structure UserState where
  userNotes : List UserNote
  accountCommitmentScan : String → Nat → Nat
  nullifierScanState : String → Nat

namespace UserState

def fresh : UserState where
  userNotes := []
  accountCommitmentScan _ _ := 0
  nullifierScanState _ := 0

def setCommitmentScan (st : UserState) (pool : String) (accountId last : Nat) : UserState :=
  { st with
    accountCommitmentScan := fun p a =>
      if p = pool ∧ a = accountId then last else st.accountCommitmentScan p a }

def setNullifierScan (st : UserState) (pool : String) (last : Nat) : UserState :=
  { st with nullifierScanState := fun p => if p = pool then last else st.nullifierScanState p }

end UserState

inductive ScanError where
  | derive (e : DeriveError)
  | uniqueNullifierId (nullifierId : Nat)
  deriving DecidableEq

abbrev DeriveNoteFn := AccountKeys → PoolCommitmentRow → Except ScanError (Option DerivedUserNote)

def workerDerive (H : Hasher) (X : Cipher) : DeriveNoteFn := fun account row =>
  (tryDecryptAndDeriveUserNote H X account row.commitment row.leafIndex row.encryptedOutput).mapError
    ScanError.derive

/-- `INSERT OR IGNORE`: three columns are unique, and a missing nullifier repeats none. -/
def insertUserNote (notes : List UserNote) (note : UserNote) : List UserNote :=
  if note.id ∈ notes.map (·.id) ∨ note.commitmentId ∈ notes.map (·.commitmentId) ∨
      note.nullifierId ≠ none ∧ note.nullifierId ∈ notes.map (·.nullifierId) then notes
  else notes ++ [note]

section Scan

variable (db : Database) (derive : DeriveNoteFn) (pool : String)

def userNote (account : AccountKeys) (row : PoolCommitmentRow) (derived : DerivedUserNote) : UserNote where
  id := row.commitment
  accountId := account.accountId
  commitmentId := row.commitmentId
  nullifierId := db.nullifierId pool derived.expectedNullifier
  expectedNullifier := derived.expectedNullifier
  blinding := derived.blinding
  amount := derived.amount

def scanRow (account : AccountKeys) (notes : List UserNote) (row : PoolCommitmentRow) :
    Except ScanError (List UserNote) := do
  match ← derive account row with
  | none => return notes
  | some derived => return insertUserNote notes (userNote db pool account row derived)

structure Turn where
  state : UserState
  poolQuota : Nat
  progressedThisCycle : Bool

def accountChunk : Nat := 4

/-- Where the quota is used up, the loop over the accounts breaks. -/
def scanAccount (turn : Turn) (account : AccountKeys) : Except ScanError Turn :=
  if turn.poolQuota = 0 then .ok turn
  else
    let last := turn.state.accountCommitmentScan pool account.accountId
    let rows := Cursor.fetch (·.commitmentId) (db.poolRows pool) last (min turn.poolQuota accountChunk)
    if rows.isEmpty then .ok turn
    else do
      let notes ← rows.foldlM (scanRow db derive pool account) turn.state.userNotes
      let reached := Cursor.advance (·.commitmentId) last rows
      return {
        state := { turn.state with userNotes := notes }.setCommitmentScan pool account.accountId reached
        poolQuota := turn.poolQuota - rows.length
        progressedThisCycle := true }

/-- `while pool_quota > 0`: a cycle that does not end the loop uses up some of the quota, so that the
quota bounds the cycles. -/
def scanCycles (accounts : List AccountKeys) :
    (cycles poolQuota : Nat) → UserState → Except ScanError (Bool × UserState)
  | 0, _, st => .ok (false, st)
  | cycles + 1, poolQuota, st =>
      if poolQuota = 0 then .ok (false, st)
      else do
        let turn ← accounts.foldlM (scanAccount db derive pool) ⟨st, poolQuota, false⟩
        if turn.progressedThisCycle then do
          let (_, last) ← scanCycles accounts cycles turn.poolQuota turn.state
          return (true, last)
        else return (false, turn.state)

/-- The transaction of one pool: the loop, and whether it got on. -/
def scanPool (accounts : List AccountKeys) (poolQuota : Nat) (st : UserState) :
    Except ScanError (Bool × UserState) :=
  scanCycles db derive pool accounts poolQuota poolQuota st

end Scan

/-- Transactions one after the other: the first that fails is rolled back, and those before it stay. -/
def transactions {α : Type} (f : α → UserState → Except ScanError (Bool × UserState)) :
    List α → UserState → Except ScanError Bool × UserState
  | [], st => (.ok false, st)
  | item :: rest, st =>
      match f item st with
      | .error e => (.error e, st)
      | .ok (did, next) =>
          match transactions f rest next with
          | (.ok more, last) => (.ok (did || more), last)
          | (.error e, last) => (.error e, last)

/-- What is left of the limit goes to the pools one by one. -/
def distribute : (remainder nextPool : Nat) → List Nat → List Nat
  | 0, _, quotas => quotas
  | remainder + 1, nextPool, quotas =>
      distribute remainder ((nextPool + 1) % quotas.length) (quotas.modify nextPool (· + 1))

def quotas (totalLimit poolCount : Nat) : List Nat :=
  let baseQuota := if poolCount ≤ totalLimit then totalLimit / poolCount else 1
  distribute (totalLimit - baseQuota * poolCount) 0 (List.replicate poolCount baseQuota)

section Calls

variable (db : Database) (derive : DeriveNoteFn) (accounts : List AccountKeys)

def scanCommitmentsForUserNotes (totalLimit : Nat) (st : UserState) : Except ScanError Bool × UserState :=
  if accounts.isEmpty ∨ totalLimit = 0 then (.ok false, st)
  else if db.commitmentPools.isEmpty then (.ok false, st)
  else
    transactions
      (fun entry st => if entry.2 = 0 then .ok (false, st) else scanPool db derive entry.1 accounts entry.2 st)
      (db.commitmentPools.zip (quotas totalLimit db.commitmentPools.length)) st

/-- `SET nullifier_id` on the unspent note of the pool that expects the nullifier. -/
def spendNote (pool : String) (row : NullifierRow) (note : UserNote) : UserNote :=
  if note.nullifierId = none ∧ note.expectedNullifier = row.nullifier ∧
      (db.poolRows pool).any (·.commitmentId = note.commitmentId) then
    { note with nullifierId := some row.nullifierId }
  else note

/-- The `UPDATE` of one nullifier; it fails where two notes would get the same nullifier. -/
def reconcileNullifier (pool : String) (notes : List UserNote) (row : NullifierRow) :
    Except ScanError (List UserNote) :=
  let updated := notes.map (spendNote db pool row)
  if (updated.filter fun note => note.nullifierId = some row.nullifierId).length ≤ 1 then .ok updated
  else .error (.uniqueNullifierId row.nullifierId)

def reconcilePool (limit : Nat) (pool : String) (st : UserState) : Except ScanError (Bool × UserState) := do
  let last := st.nullifierScanState pool
  let rows := Cursor.fetch (·.nullifierId) (db.nullifierRows pool) last limit
  let notes ← rows.foldlM (reconcileNullifier db pool) st.userNotes
  let reached := Cursor.advance (·.nullifierId) last rows
  return (!rows.isEmpty, { st with userNotes := notes }.setNullifierScan pool reached)

def reconcileNullifiers (limit : Nat) (st : UserState) : Except ScanError Bool × UserState :=
  if limit = 0 then (.ok false, st) else transactions (reconcilePool db limit) db.nullifierPools st

/-- Whether the call did any work, or its error, and the tables after it. -/
def processNotes (limit : Nat) (st : UserState) : Except ScanError Bool × UserState :=
  match scanCommitmentsForUserNotes db derive accounts limit st with
  | (.error e, last) => (.error e, last)
  | (.ok scanned, next) =>
      match reconcileNullifiers db limit next with
      | (.error e, last) => (.error e, last)
      | (.ok reconciled, last) => (.ok (scanned || reconciled), last)

def afterCalls (limit : Nat) : Nat → UserState → UserState
  | 0, st => st
  | n + 1, st => afterCalls limit n (processNotes db derive accounts limit st).2

end Calls

end PrivatePayments.LocalState
