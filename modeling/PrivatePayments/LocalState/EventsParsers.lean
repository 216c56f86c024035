import PrivatePayments.Library.Outcome
import PrivatePayments.Soroban.Xdr

/-!
How the client reads contract events: a raw event as the RPC delivers it, its decoding
into Soroban values and the parsers of the events it knows by name.
-/

namespace PrivatePayments.LocalState
open Bn254 Library

/-- The Soroban values that occur in events, where any value may be the key of a map; a symbol whose bytes are
no UTF-8 has no text. -/
inductive ScVal where
  | symbol (text : Option String)
  | u32 (n : BitVec 32)
  | u64 (n : BitVec 64)
  | u256 (hiHi hiLo loHi loLo : BitVec 64)
  | bytes (content : List UInt8)
  | address (a : Soroban.ScAddress)
  | map (entries : Option (List (ScVal × ScVal)))
  | void
  | other

/-- The encodings the client takes from libraries: XDR in base64, and the text form of addresses. -/
structure Codec where
  fromXdrBase64 : String → Option ScVal
  accountText : U256 → String
  contractText : U256 → String

/-- A row of `raw_contract_events`, joined with the address of its contract. -/
structure RawEvent where
  id : String
  ledger : Nat
  contract : String
  topics : String
  value : String
  deriving DecidableEq

inductive ParseError where
  | xdr
  | unexpectedScVal
  | missing (name id field : String)
  | fieldOutOfRange
  | indexOutOfRange
  | keyLength (length : Nat)
  | unhandled (name : String)
  deriving DecidableEq

def scvalToAddressString (C : Codec) : ScVal → Except ParseError String
  | .address (.account key) => .ok (C.accountText key)
  | .address (.contract id) => .ok (C.contractText id)
  | _ => .error .unexpectedScVal

def scvalToBytes : ScVal → Except ParseError (List UInt8)
  | .bytes content => .ok content
  | _ => .error .unexpectedScVal

/-- The checked additions of the source join disjoint limbs. -/
def scvalToU256 : ScVal → Except ParseError U256
  | .u256 hiHi hiLo loHi loLo => .ok (hiHi ++ hiLo ++ loHi ++ loLo)
  | _ => .error .unexpectedScVal

def scvalToU32 : ScVal → Except ParseError Nat
  | .u32 n => .ok n.toNat
  | _ => .error .unexpectedScVal

def scvalToU64 : ScVal → Except ParseError Nat
  | .u64 n => .ok n.toNat
  | _ => .error .unexpectedScVal

def tryFromU256 (x : U256) : Except ParseError Fr :=
  if bn256Modulus ≤ x.toNat then .error .fieldOutOfRange else .ok (ofU256 x)

def scvalToField (v : ScVal) : Except ParseError Fr := do tryFromU256 (← scvalToU256 v)

/-- `try_into` a 32-byte key. -/
def tryIntoKey (content : List UInt8) : Except ParseError (List UInt8) :=
  if content.length ≠ 32 then .error (.keyLength content.length) else .ok content

structure ParsedContractEvent where
  id : String
  name : String
  topics : List ScVal
  values : List (String × ScVal)

/-- A later field of the same name replaces an earlier one. -/
def ParsedContractEvent.get (parsed : ParsedContractEvent) (field : String) : Option ScVal :=
  parsed.values.reverse.lookup field

def decode (C : Codec) (text : String) : Except ParseError ScVal :=
  match C.fromXdrBase64 text with
  | some v => .ok v
  | none => .error .xdr

def symbolText : ScVal → Except ParseError String
  | .symbol (some text) => .ok text
  | .symbol none => .error .xdr
  | _ => .error .unexpectedScVal

def mapEntry (entry : ScVal × ScVal) : Except ParseError (String × ScVal) := do
  return (← symbolText entry.1, entry.2)

def dataFields : ScVal → Except ParseError (List (String × ScVal))
  | .map (some entries) => entries.mapM mapEntry
  | .void => .ok []
  | _ => .error .unexpectedScVal

/-- `topics_str.split(',')`. -/
def splitTopics (topics : String) : List String := (topics.toList.splitOn ',').map String.ofList

def parseEventMetadata (C : Codec) (event : RawEvent) : Except ParseError ParsedContractEvent :=
  match splitTopics event.topics with
  | [] => .error .xdr
  | first :: rest => do
      let topics ← rest.mapM (decode C)
      let name ← symbolText (← decode C first)
      let data ← decode C event.value
      let values ← dataFields data
      return { id := event.id, name := name, topics := topics, values := values }

structure NewNullifierEvent where
  id : String
  nullifier : Fr
  deriving DecidableEq

structure NewCommitmentEvent where
  id : String
  commitment : Fr
  index : Nat
  encryptedOutput : List UInt8
  deriving DecidableEq

structure PublicKeyEvent where
  id : String
  owner : String
  encryptionKey : List UInt8
  noteKey : List UInt8
  deriving DecidableEq

structure LeafAddedEvent where
  id : String
  leaf : Fr
  index : Nat
  root : Fr
  deriving DecidableEq

/-- The events of the non-membership contract are parsed and then left alone. -/
inductive ProcessedEvent where
  | nullifier (ev : NewNullifierEvent)
  | commitment (ev : NewCommitmentEvent)
  | publicKey (ev : PublicKeyEvent)
  | leafAdded (ev : LeafAddedEvent)
  | leafInserted (key value root : Fr)
  | leafUpdated (key oldValue newValue root : Fr)
  | leafDeleted (key root : Fr)
  deriving DecidableEq

section Parsers

variable (parsed : ParsedContractEvent)

/-- `topics.first().ok_or_else(..)?`. -/
def topic (field : String) : Except ParseError ScVal :=
  match parsed.topics with
  | first :: _ => .ok first
  | [] => .error (.missing parsed.name parsed.id field)

/-- `values.get(..).ok_or_else(..)?`. -/
def value (field : String) : Except ParseError ScVal :=
  match parsed.get field with
  | some v => .ok v
  | none => .error (.missing parsed.name parsed.id field)

def fieldValue (field : String) : Except ParseError Fr := do scvalToField (← value parsed field)

def parseNewNullifierEvent : Except ParseError NewNullifierEvent := do
  let nullifier ← scvalToField (← topic parsed "nullifier")
  return { id := parsed.id, nullifier := nullifier }

def parseNewCommitmentEvent : Except ParseError NewCommitmentEvent := do
  let commitment ← scvalToField (← topic parsed "commitment")
  let index ← scvalToU32 (← value parsed "index")
  let encryptedOutput ← scvalToBytes (← value parsed "encrypted_output")
  return { id := parsed.id, commitment := commitment, index := index, encryptedOutput := encryptedOutput }

def parsePublicKeyEvent (C : Codec) : Except ParseError PublicKeyEvent := do
  let owner ← scvalToAddressString C (← topic parsed "owner")
  let encryptionKey ← tryIntoKey (← scvalToBytes (← value parsed "encryption_key"))
  let noteKey ← tryIntoKey (← scvalToBytes (← value parsed "note_key"))
  return { id := parsed.id, owner := owner, encryptionKey := encryptionKey, noteKey := noteKey }

/-- `u64` into `u32`. -/
def tryIntoU32 (n : Nat) : Except ParseError Nat :=
  if n < 2 ^ 32 then .ok n else .error .indexOutOfRange

/-- The index is a `u64` on chain and a `u32` here. -/
def parseLeafAdded : Except ParseError LeafAddedEvent := do
  let leaf ← fieldValue parsed "leaf"
  let index ← tryIntoU32 (← scvalToU64 (← value parsed "index"))
  let root ← fieldValue parsed "root"
  return { id := parsed.id, leaf := leaf, index := index, root := root }

def parseLeafInserted : Except ParseError ProcessedEvent := do
  let key ← fieldValue parsed "key"
  let value ← fieldValue parsed "value"
  let root ← fieldValue parsed "root"
  return .leafInserted key value root

def parseLeafUpdated : Except ParseError ProcessedEvent := do
  let key ← fieldValue parsed "key"
  let oldValue ← fieldValue parsed "old_value"
  let newValue ← fieldValue parsed "new_value"
  let root ← fieldValue parsed "root"
  return .leafUpdated key oldValue newValue root

def parseLeafDeleted : Except ParseError ProcessedEvent := do
  let key ← fieldValue parsed "key"
  let root ← fieldValue parsed "root"
  return .leafDeleted key root

end Parsers

def parseEvent (C : Codec) (event : RawEvent) : Except ParseError ProcessedEvent := do
  let parsed ← parseEventMetadata C event
  match parsed.name with
  | "new_nullifier_event" | "NewNullifierEvent" => .nullifier <$> parseNewNullifierEvent parsed
  | "new_commitment_event" | "NewCommitmentEvent" => .commitment <$> parseNewCommitmentEvent parsed
  | "public_key_event" | "PublicKeyEvent" => .publicKey <$> parsePublicKeyEvent parsed C
  | "leaf_added" | "LeafAdded" => .leafAdded <$> parseLeafAdded parsed
  | "leaf_inserted" | "LeafInserted" => parseLeafInserted parsed
  | "leaf_updated" | "LeafUpdated" => parseLeafUpdated parsed
  | "leaf_deleted" | "LeafDeleted" => parseLeafDeleted parsed
  | name => .error (.unhandled name)

section Ids

variable {C : Codec} {event : RawEvent}

theorem parseEventMetadata_id {parsed : ParsedContractEvent}
    (returned : parseEventMetadata C event = .ok parsed) : parsed.id = event.id := by
  unfold parseEventMetadata at returned
  split at returned
  · cases returned
  · obtain ⟨topics, -, returned⟩ := of_bind_ok returned
    obtain ⟨first, -, returned⟩ := of_bind_ok returned
    obtain ⟨name, -, returned⟩ := of_bind_ok returned
    obtain ⟨data, -, returned⟩ := of_bind_ok returned
    obtain ⟨values, -, returned⟩ := of_bind_ok returned
    cases returned
    rfl

variable {parsed : ParsedContractEvent}

theorem parseNewNullifierEvent_id {ev : NewNullifierEvent}
    (returned : parseNewNullifierEvent parsed = .ok ev) : ev.id = parsed.id := by
  obtain ⟨scval, -, returned⟩ := of_bind_ok returned
  obtain ⟨nullifier, -, returned⟩ := of_bind_ok returned
  cases returned
  rfl

theorem parseNewCommitmentEvent_id {ev : NewCommitmentEvent}
    (returned : parseNewCommitmentEvent parsed = .ok ev) : ev.id = parsed.id := by
  obtain ⟨scval, -, returned⟩ := of_bind_ok returned
  obtain ⟨commitment, -, returned⟩ := of_bind_ok returned
  obtain ⟨indexVal, -, returned⟩ := of_bind_ok returned
  obtain ⟨index, -, returned⟩ := of_bind_ok returned
  obtain ⟨outputVal, -, returned⟩ := of_bind_ok returned
  obtain ⟨output, -, returned⟩ := of_bind_ok returned
  cases returned
  rfl

theorem parsePublicKeyEvent_id {ev : PublicKeyEvent}
    (returned : parsePublicKeyEvent parsed C = .ok ev) : ev.id = parsed.id := by
  obtain ⟨scval, -, returned⟩ := of_bind_ok returned
  obtain ⟨owner, -, returned⟩ := of_bind_ok returned
  obtain ⟨encVal, -, returned⟩ := of_bind_ok returned
  obtain ⟨encBytes, -, returned⟩ := of_bind_ok returned
  obtain ⟨encKey, -, returned⟩ := of_bind_ok returned
  obtain ⟨noteVal, -, returned⟩ := of_bind_ok returned
  obtain ⟨noteBytes, -, returned⟩ := of_bind_ok returned
  obtain ⟨noteKey, -, returned⟩ := of_bind_ok returned
  cases returned
  rfl

theorem parseLeafAdded_id {ev : LeafAddedEvent}
    (returned : parseLeafAdded parsed = .ok ev) : ev.id = parsed.id := by
  obtain ⟨leaf, -, returned⟩ := of_bind_ok returned
  obtain ⟨indexVal, -, returned⟩ := of_bind_ok returned
  obtain ⟨wide, -, returned⟩ := of_bind_ok returned
  obtain ⟨index, -, returned⟩ := of_bind_ok returned
  obtain ⟨root, -, returned⟩ := of_bind_ok returned
  cases returned
  rfl

def ProcessedEvent.rowId : ProcessedEvent → Option String
  | .nullifier ev => some ev.id
  | .commitment ev => some ev.id
  | .publicKey ev => some ev.id
  | .leafAdded ev => some ev.id
  | .leafInserted .. => none
  | .leafUpdated .. => none
  | .leafDeleted .. => none

theorem parseLeafInserted_rowId {p : ProcessedEvent}
    (returned : parseLeafInserted parsed = .ok p) : p.rowId = none := by
  obtain ⟨key, -, returned⟩ := of_bind_ok returned
  obtain ⟨value, -, returned⟩ := of_bind_ok returned
  obtain ⟨root, -, returned⟩ := of_bind_ok returned
  cases returned
  rfl

theorem parseLeafUpdated_rowId {p : ProcessedEvent}
    (returned : parseLeafUpdated parsed = .ok p) : p.rowId = none := by
  obtain ⟨key, -, returned⟩ := of_bind_ok returned
  obtain ⟨old, -, returned⟩ := of_bind_ok returned
  obtain ⟨new, -, returned⟩ := of_bind_ok returned
  obtain ⟨root, -, returned⟩ := of_bind_ok returned
  cases returned
  rfl

theorem parseLeafDeleted_rowId {p : ProcessedEvent}
    (returned : parseLeafDeleted parsed = .ok p) : p.rowId = none := by
  obtain ⟨key, -, returned⟩ := of_bind_ok returned
  obtain ⟨root, -, returned⟩ := of_bind_ok returned
  cases returned
  rfl

theorem parseEvent_rowId {p : ProcessedEvent} (returned : parseEvent C event = .ok p) {id : String}
    (isRow : p.rowId = some id) : id = event.id := by
  obtain ⟨parsed, metadata, returned⟩ := of_bind_ok returned
  have same := parseEventMetadata_id metadata
  have row {α : Type} {x : Except ParseError α} {wrap : α → ProcessedEvent} {own : α → String}
      (parsedRow : wrap <$> x = .ok p) (rowId : ∀ ev, (wrap ev).rowId = some (own ev))
      (kept : ∀ ev, x = .ok ev → own ev = parsed.id) : id = event.id := by
    obtain ⟨ev, read, rfl⟩ := of_map_ok parsedRow
    rw [rowId, Option.some.injEq] at isRow
    rw [← isRow, kept ev read, same]
  have noRow {x : Except ParseError ProcessedEvent} (parsedOther : x = .ok p)
      (other : ∀ q, x = .ok q → q.rowId = none) : id = event.id := by
    rw [other p parsedOther] at isRow
    cases isRow
  split at returned
  case h_1 | h_2 => exact row returned (fun _ => rfl) fun _ => parseNewNullifierEvent_id
  case h_3 | h_4 => exact row returned (fun _ => rfl) fun _ => parseNewCommitmentEvent_id
  case h_5 | h_6 => exact row returned (fun _ => rfl) fun _ => parsePublicKeyEvent_id
  case h_7 | h_8 => exact row returned (fun _ => rfl) fun _ => parseLeafAdded_id
  case h_9 | h_10 => exact noRow returned fun _ => parseLeafInserted_rowId
  case h_11 | h_12 => exact noRow returned fun _ => parseLeafUpdated_rowId
  case h_13 | h_14 => exact noRow returned fun _ => parseLeafDeleted_rowId
  case h_15 => cases returned

end Ids

end PrivatePayments.LocalState
