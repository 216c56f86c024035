import PrivatePayments.LocalState.Processing

/-!
Draining the raw events: the calls of `process_events` come to an end iff every raw event
parses into a row and no unique column is claimed twice.
-/

namespace PrivatePayments.LocalState
open Bn254 Library UniqueTable

def processTimes (C : Codec) (limit : Nat) : Nat → Database → Option Database
  | 0, db => some db
  | n + 1, db => do
      let (_, next) ← processEvents C limit db
      processTimes C limit n next

/-- After finitely many calls the next one reports that there is no more work. -/
def DrainsTo (C : Codec) (limit : Nat) (db last : Database) : Prop :=
  ∃ n, processTimes C limit n db = some last ∧ processEvents C limit last = some (false, last)

/-- The event has exactly its own row, if it is of this table. -/
def WrittenOnce {α κ : Type} (C : Codec) (K : Kind α κ) (table : List α) (event : RawEvent) : Prop :=
  ∀ row, K.read C event = some row → table.filter (fun r => K.id r = event.id) = [row]

/-- Every well-formed event of the pools, the membership contracts and the registry is written once. -/
def AllWritten (C : Codec) (raw : List RawEvent) (db : Database) : Prop :=
  ∀ event ∈ raw, WrittenOnce C nullifiers db.poolNullifiers event ∧
    WrittenOnce C commitments db.poolCommitments event ∧ WrittenOnce C pubkeys db.publicKeys event ∧
    WrittenOnce C leaves db.aspMembershipLeaves event

/-- No two raw events claim one key of the table. -/
def Distinct {α κ : Type} (C : Codec) (K : Kind α κ) (raw : List RawEvent) : Prop :=
  ((raw.filterMap (K.read C)).map K.key).Nodup

/-- The raw events fit the tables: each parses into a row, and no nullifier, commitment or leaf index
is claimed twice. -/
structure Fits (C : Codec) (raw : List RawEvent) : Prop where
  parses : ∀ event ∈ raw, ∃ p, parseEvent C event = .ok p ∧ p.rowId ≠ none
  distinctNullifiers : Distinct C nullifiers raw
  distinctCommitments : Distinct C commitments raw
  distinctLeaves : Distinct C leaves raw

section Tables

variable {α κ : Type} {K : Kind α κ} {C : Codec} {raw : List RawEvent} {table : List α}

theorem Filed.only (filed : Filed C K raw table) (named : K.Named) {event : RawEvent} {row : α}
    (read : K.read C event = some row) (member : row ∈ table) :
    table.filter (fun r => K.id r = event.id) = [row] := by
  rw [← Kind.read_id named read]
  exact filter_key filed.ids member

theorem Filed.writtenOnce (filed : Filed C K raw table) (named : K.Named) {event : RawEvent}
    {p : ProcessedEvent} (parsed : parseEvent C event = .ok p)
    (holds : ∀ row, K.unwrap p = some row → row ∈ table) : WrittenOnce C K table event := by
  intro row read
  obtain ⟨q, again, unwrapped⟩ := Kind.read_eq_some.mp read
  rw [parsed, Except.ok.injEq] at again
  rw [← again] at unwrapped
  exact filed.only named read (holds row unwrapped)

theorem WrittenOnce.mem {event : RawEvent} (written : WrittenOnce C K table event) {row : α}
    (read : K.read C event = some row) : row ∈ table := by
  have only : row ∈ table.filter fun r => K.id r = event.id := by
    rw [written row read]
    exact List.mem_singleton_self row
  exact (List.mem_filter.mp only).1

theorem Filed.distinct (filed : Filed C K raw table) (named : K.Named)
    (rawIds : (raw.map (·.id)).Nodup) (written : ∀ event ∈ raw, WrittenOnce C K table event) :
    Distinct C K raw := by
  have rows : (raw.filterMap (K.read C)).Nodup := List.Nodup.of_map K.id (read_nodup named rawIds)
  have inside : raw.filterMap (K.read C) ⊆ table := by
    intro row member
    obtain ⟨event, there, read⟩ := List.mem_filterMap.mp member
    exact (written event there).mem read
  obtain ⟨kept, same, sub⟩ := rows.subperm inside
  exact (same.map K.key).nodup_iff.mp (filed.keys.sublist (sub.map K.key))

theorem Filed.mem_of_added {batch : List RawEvent} {added : List α}
    (filed : Filed C K raw (table ++ added)) (distinct : Distinct C K raw)
    (step : Added K.key table (batch.filterMap (K.read C)) added) {event : RawEvent}
    (member : event ∈ batch) (part : event ∈ raw) {row : α} (read : K.read C event = some row) :
    row ∈ table ++ added := by
  have covered := step.covers row (List.mem_filterMap.mpr ⟨event, member, read⟩)
  obtain ⟨other, inside, same⟩ := List.mem_map.mp covered
  obtain ⟨source, there, otherRead⟩ := filed.source other inside
  have equal : other = row := List.inj_on_of_nodup_map distinct
    (List.mem_filterMap.mpr ⟨source, there, otherRead⟩)
    (List.mem_filterMap.mpr ⟨event, part, read⟩) same
  rw [← equal]
  exact inside

end Tables

section Drain

variable {C : Codec} {db : Database} {limit : Nat}

def backlog (db : Database) : Nat := (db.rawContractEvents.filter fun r => r.id ∉ db.processedIds).length

theorem batch_empty_iff (positive : 1 ≤ limit) :
    batchOf limit db = [] ↔ ∀ event ∈ db.rawContractEvents, event.id ∈ db.processedIds := by
  have sorted := List.perm_insertionSort RawEvent.Before
    (db.rawContractEvents.filter fun r => r.id ∉ db.processedIds)
  unfold batchOf getUnprocessedEvents
  rw [List.reverse_eq_nil_iff, List.take_eq_nil_iff, List.eq_nil_iff_length_eq_zero, sorted.length_eq,
    ← List.eq_nil_iff_length_eq_zero, List.filter_eq_nil_iff]
  constructor
  · intro idle event member
    rcases idle with zero | known
    · omega
    · simpa using known event member
  · intro known
    exact Or.inr fun event member => by simpa using known event member

theorem Processed.mono {batch : List RawEvent} {next : Database} (step : Processed C batch db next) :
    db.processedIds ⊆ next.processedIds := by
  obtain ⟨n, isN, -⟩ := step.addedNullifiers
  obtain ⟨c, isC, -⟩ := step.addedCommitments
  obtain ⟨p, isP, -⟩ := step.addedPubkeys
  obtain ⟨l, isL, -⟩ := step.addedLeaves
  intro id
  simp only [Database.processedIds, isN, isC, isP, isL, List.map_append, List.mem_append]
  tauto

/-- Where the raw events fit the tables, a call writes a row for every event of its window. -/
theorem Processed.batch_processed {limit : Nat} {next : Database} (good : Good C next)
    (step : Processed C (batchOf limit db) db next) (fits : Fits C db.rawContractEvents)
    {event : RawEvent} (member : event ∈ batchOf limit db) : event.id ∈ next.processedIds := by
  have part := (mem_batchOf member).1
  obtain ⟨p, parsed, isRow⟩ := fits.parses event part
  have processed {α κ : Type} {K : Kind α κ} {table added : List α} (named : K.Named)
      (filed : Filed C K next.rawContractEvents (table ++ added))
      (distinct : Distinct C K db.rawContractEvents)
      (more : Added K.key table ((batchOf limit db).filterMap (K.read C)) added) {row : α}
      (unwrapped : K.unwrap p = some row) : event.id ∈ (table ++ added).map K.id := by
    have read : K.read C event = some row := Kind.read_eq_some.mpr ⟨p, parsed, unwrapped⟩
    rw [step.raw] at filed
    rw [← Kind.read_id named read]
    exact List.mem_map_of_mem (filed.mem_of_added distinct more member part read)
  simp only [Database.processedIds, List.mem_append]
  cases p with
  | nullifier ev =>
    obtain ⟨n, isN, more⟩ := step.addedNullifiers
    have filed := good.filedNullifiers
    rw [isN] at filed ⊢
    exact Or.inr (processed nullifiers_named filed fits.distinctNullifiers more rfl)
  | commitment ev =>
    obtain ⟨c, isC, more⟩ := step.addedCommitments
    have filed := good.filedCommitments
    rw [isC] at filed ⊢
    exact Or.inl (Or.inl (Or.inl (processed commitments_named filed fits.distinctCommitments more rfl)))
  | publicKey ev =>
    obtain ⟨q, isQ, more⟩ := step.addedPubkeys
    have filed := good.filedPubkeys
    -- the key of a registration is its event id
    have distinct : Distinct C pubkeys db.rawContractEvents :=
      read_nodup pubkeys_named (step.raw ▸ good.rawIds)
    rw [isQ] at filed ⊢
    exact Or.inl (Or.inl (Or.inr (processed pubkeys_named filed distinct more rfl)))
  | leafAdded ev =>
    obtain ⟨l, isL, more⟩ := step.addedLeaves
    have filed := good.filedLeaves
    rw [isL] at filed ⊢
    exact Or.inl (Or.inr (processed leaves_named filed fits.distinctLeaves more rfl))
  | leafInserted => exact absurd rfl isRow
  | leafUpdated => exact absurd rfl isRow
  | leafDeleted => exact absurd rfl isRow

theorem Processed.backlog_lt {next : Database} (good : Good C next)
    (step : Processed C (batchOf limit db) db next) (fits : Fits C db.rawContractEvents)
    (busy : batchOf limit db ≠ []) : backlog next < backlog db := by
  obtain ⟨event, member⟩ := List.exists_mem_of_ne_nil _ busy
  have mono := step.mono
  have here := step.batch_processed good fits member
  have part := mem_batchOf member
  have rest : (next.rawContractEvents.filter fun r => r.id ∉ next.processedIds) =
      (db.rawContractEvents.filter fun r => r.id ∉ db.processedIds).filter
        fun r => r.id ∉ next.processedIds := by
    rw [List.filter_filter, step.raw]
    refine List.filter_congr fun r _ => ?_
    by_cases known : r.id ∈ db.processedIds
    · simp [known, mono known]
    · simp [known]
  unfold backlog
  rw [rest]
  refine List.length_filter_lt_length_iff_exists.mpr ⟨event, ?_, ?_⟩
  · exact List.mem_filter.mpr ⟨part.1, by simpa using part.2⟩
  · simpa using here

theorem Good.drains (good : Good C db) (positive : 1 ≤ limit) (fits : Fits C db.rawContractEvents) :
    ∃ last, DrainsTo C limit db last ∧ Good C last ∧
      last.rawContractEvents = db.rawContractEvents ∧
      ∀ event ∈ db.rawContractEvents, event.id ∈ last.processedIds := by
  induction left : backlog db using Nat.strong_induction_on generalizing db with
  | _ size ih =>
    obtain ⟨next, returned, after, step⟩ := good.run_processEvents limit
    by_cases idle : batchOf limit db = []
    · have same : next = db := by
        have empty : getUnprocessedEvents limit db = [] := List.reverse_eq_nil_iff.mp idle
        simp only [processEvents, empty, List.isEmpty_nil, if_true, Option.some.injEq,
          Prod.mk.injEq] at returned
        exact returned.2.symm
      refine ⟨db, ⟨0, rfl, ?_⟩, good, rfl, (batch_empty_iff positive).mp idle⟩
      rw [returned, same, decide_eq_false (not_not.mpr idle)]
    · have smaller := step.backlog_lt after fits idle
      have fits' : Fits C next.rawContractEvents := by
        rw [step.raw]
        exact fits
      obtain ⟨last, ⟨n, rest, done⟩, goodLast, raw, all⟩ := ih _ (left ▸ smaller) after fits' rfl
      refine ⟨last, ⟨n + 1, ?_, done⟩, goodLast, raw.trans step.raw, step.raw ▸ all⟩
      rw [processTimes, returned]
      exact rest

theorem Good.written (good : Good C db) {event : RawEvent} (member : event ∈ db.rawContractEvents)
    (known : event.id ∈ db.processedIds) :
    WrittenOnce C nullifiers db.poolNullifiers event ∧
      WrittenOnce C commitments db.poolCommitments event ∧ WrittenOnce C pubkeys db.publicKeys event ∧
      WrittenOnce C leaves db.aspMembershipLeaves event := by
  -- the table that knows the event is the one of its kind
  have source {α κ : Type} {K : Kind α κ} {table : List α} (named : K.Named)
      (filed : Filed C K db.rawContractEvents table) (here : event.id ∈ table.map K.id) :
      ∃ p row, parseEvent C event = .ok p ∧ K.unwrap p = some row ∧ row ∈ table := by
    obtain ⟨row, inside, read⟩ := filed.read_of_id named good.rawIds member here
    obtain ⟨p, parsed, unwrapped⟩ := Kind.read_eq_some.mp read
    exact ⟨p, row, parsed, unwrapped, inside⟩
  have written {p : ProcessedEvent} (parsed : parseEvent C event = .ok p)
      (isN : ∀ row, nullifiers.unwrap p = some row → row ∈ db.poolNullifiers)
      (isC : ∀ row, commitments.unwrap p = some row → row ∈ db.poolCommitments)
      (isP : ∀ row, pubkeys.unwrap p = some row → row ∈ db.publicKeys)
      (isL : ∀ row, leaves.unwrap p = some row → row ∈ db.aspMembershipLeaves) :=
    And.intro (good.filedNullifiers.writtenOnce nullifiers_named parsed isN)
      (And.intro (good.filedCommitments.writtenOnce commitments_named parsed isC)
        (And.intro (good.filedPubkeys.writtenOnce pubkeys_named parsed isP)
          (good.filedLeaves.writtenOnce leaves_named parsed isL)))
  simp only [Database.processedIds, List.mem_append] at known
  rcases known with ((c | p) | l) | n
  · obtain ⟨p, row, parsed, unwrapped, inside⟩ := source commitments_named good.filedCommitments c
    cases p with
    | commitment ev =>
      cases unwrapped
      exact written parsed (fun _ other => by cases other) (fun _ same => Option.some.inj same ▸ inside)
        (fun _ other => by cases other) (fun _ other => by cases other)
    | _ => cases unwrapped
  · obtain ⟨p, row, parsed, unwrapped, inside⟩ := source pubkeys_named good.filedPubkeys p
    cases p with
    | publicKey ev =>
      cases unwrapped
      exact written parsed (fun _ other => by cases other) (fun _ other => by cases other)
        (fun _ same => Option.some.inj same ▸ inside) (fun _ other => by cases other)
    | _ => cases unwrapped
  · obtain ⟨p, row, parsed, unwrapped, inside⟩ := source leaves_named good.filedLeaves l
    cases p with
    | leafAdded ev =>
      cases unwrapped
      exact written parsed (fun _ other => by cases other) (fun _ other => by cases other)
        (fun _ other => by cases other) (fun _ same => Option.some.inj same ▸ inside)
    | _ => cases unwrapped
  · obtain ⟨p, row, parsed, unwrapped, inside⟩ := source nullifiers_named good.filedNullifiers n
    cases p with
    | nullifier ev =>
      cases unwrapped
      exact written parsed (fun _ same => Option.some.inj same ▸ inside) (fun _ other => by cases other)
        (fun _ other => by cases other) (fun _ other => by cases other)
    | _ => cases unwrapped

theorem Good.allWritten (good : Good C db)
    (all : ∀ event ∈ db.rawContractEvents, event.id ∈ db.processedIds) :
    AllWritten C db.rawContractEvents db := fun event member => good.written member (all event member)

theorem Good.fits (good : Good C db) (positive : 1 ≤ limit)
    (done : processEvents C limit db = some (false, db)) (written : AllWritten C db.rawContractEvents db) :
    Fits C db.rawContractEvents := by
  obtain ⟨next, returned, -, -⟩ := good.run_processEvents limit
  rw [returned, Option.some.injEq, Prod.mk.injEq, decide_eq_false_iff_not, not_not] at done
  have all := (batch_empty_iff positive).mp done.1
  constructor
  · intro event member
    have known := all event member
    have source {α κ : Type} {K : Kind α κ} {table : List α} (named : K.Named)
        (filed : Filed C K db.rawContractEvents table) (here : event.id ∈ table.map K.id) :
        ∃ p, parseEvent C event = .ok p ∧ p.rowId ≠ none := by
      obtain ⟨row, -, read⟩ := filed.read_of_id named good.rawIds member here
      obtain ⟨p, parsed, unwrapped⟩ := Kind.read_eq_some.mp read
      refine ⟨p, parsed, ?_⟩
      rw [named p row unwrapped]
      exact Option.some_ne_none _
    simp only [Database.processedIds, List.mem_append] at known
    rcases known with ((c | p) | l) | n
    · exact source commitments_named good.filedCommitments c
    · exact source pubkeys_named good.filedPubkeys p
    · exact source leaves_named good.filedLeaves l
    · exact source nullifiers_named good.filedNullifiers n
  · exact good.filedNullifiers.distinct nullifiers_named good.rawIds fun event member =>
      (written event member).1
  · exact good.filedCommitments.distinct commitments_named good.rawIds fun event member =>
      (written event member).2.1
  · exact good.filedLeaves.distinct leaves_named good.rawIds fun event member =>
      (written event member).2.2.2

theorem Good.processTimes (good : Good C db) {n : Nat} {last : Database}
    (returned : LocalState.processTimes C limit n db = some last) :
    Good C last ∧ last.rawContractEvents = db.rawContractEvents := by
  induction n generalizing db with
  | zero =>
    cases returned
    exact ⟨good, rfl⟩
  | succ n ih =>
    obtain ⟨next, once, after, step⟩ := good.run_processEvents limit
    rw [LocalState.processTimes, once] at returned
    obtain ⟨goodLast, raw⟩ := ih after returned
    exact ⟨goodLast, raw.trans step.raw⟩

theorem Good.fits_of_drained (good : Good C db) (positive : 1 ≤ limit) {last : Database}
    (drains : DrainsTo C limit db last) (written : AllWritten C db.rawContractEvents last) :
    Fits C db.rawContractEvents := by
  obtain ⟨n, returned, done⟩ := drains
  obtain ⟨goodLast, raw⟩ := good.processTimes returned
  rw [← raw] at written ⊢
  exact goodLast.fits positive done written

end Drain

def sampleCodec : Codec where
  fromXdrBase64
    | "AAAADwAAABRuZXdfY29tbWl0bWVudF9ldmVudA==" => some (.symbol (some "new_commitment_event"))
    | "AAAACwAAAAAAAAAAAAAAAAAAAAAAAAAAAAAAAAAAAAAAAAAF" => some (.u256 0 0 0 5)
    | "AAAAEQAAAAEAAAACAAAADwAAABBlbmNyeXB0ZWRfb3V0cHV0AAAADQAAAAAAAAAPAAAABWluZGV4AAAAAAAAAwAAAAA=" =>
        some (.map (some [(.symbol (some "encrypted_output"), .bytes []), (.symbol (some "index"), .u32 0)]))
    | "AAAAEQAAAAEAAAACAAAADwAAABBlbmNyeXB0ZWRfb3V0cHV0AAAADQAAAAAAAAAPAAAABWluZGV4AAAAAAAAAwAAAAE=" =>
        some (.map (some [(.symbol (some "encrypted_output"), .bytes []), (.symbol (some "index"), .u32 1)]))
    | _ => none
  accountText _ := ""
  contractText _ := ""

def sampleCommitment (id value : String) : ContractEvent where
  id := id
  ledger := 1
  contractId := "CPOOL"
  topics := ["AAAADwAAABRuZXdfY29tbWl0bWVudF9ldmVudA==", "AAAACwAAAAAAAAAAAAAAAAAAAAAAAAAAAAAAAAAAAAAAAAAF"]
  value := value

def firstCommitment : ContractEvent := sampleCommitment "0000000004294971392-0000000000"
  "AAAAEQAAAAEAAAACAAAADwAAABBlbmNyeXB0ZWRfb3V0cHV0AAAADQAAAAAAAAAPAAAABWluZGV4AAAAAAAAAwAAAAA="

def repeatedCommitment : ContractEvent := sampleCommitment "0000000004294971392-0000000001"
  "AAAAEQAAAAEAAAACAAAADwAAABBlbmNyeXB0ZWRfb3V0cHV0AAAADQAAAAAAAAAPAAAABWluZGV4AAAAAAAAAwAAAAE="

def firstRow : NewCommitmentEvent where
  id := "0000000004294971392-0000000000"
  commitment := 5
  index := 0
  encryptedOutput := []

def repeatedRow : NewCommitmentEvent where
  id := "0000000004294971392-0000000001"
  commitment := 5
  index := 1
  encryptedOutput := []

theorem parse_firstCommitment :
    parseEvent sampleCodec firstCommitment.row = .ok (.commitment firstRow) := by decide +kernel

theorem parse_repeatedCommitment :
    parseEvent sampleCodec repeatedCommitment.row = .ok (.commitment repeatedRow) := by decide +kernel

theorem read_sample {α κ : Type} (K : Kind α κ) :
    K.read sampleCodec firstCommitment.row = K.unwrap (.commitment firstRow) ∧
      K.read sampleCodec repeatedCommitment.row = K.unwrap (.commitment repeatedRow) := by
  unfold Kind.read
  rw [parse_firstCommitment, parse_repeatedCommitment]
  exact ⟨rfl, rfl⟩

/-- From every database a run reaches, the calls of `process_events` come to an end with every
well-formed event written exactly once iff each raw event parses into a row of one of the four tables
and no nullifier, no commitment and no membership leaf index is claimed by two of them. -/
theorem process_events_drain_iff (C : Codec) (steps : List Step) {limit : Nat} (positive : 1 ≤ limit) :
    (∃ last, DrainsTo C limit (run C steps) last ∧ AllWritten C (run C steps).rawContractEvents last) ↔
      Fits C (run C steps).rawContractEvents := by
  have good := good_run C steps
  constructor
  · intro ⟨last, drains, written⟩
    exact good.fits_of_drained positive drains written
  · intro fits
    obtain ⟨last, drains, goodLast, raw, all⟩ := good.drains positive fits
    have written := goodLast.allWritten (raw ▸ all)
    rw [raw] at written
    exact ⟨last, drains, written⟩

theorem process_events_drain_iff_sample :
    ∃ last, DrainsTo sampleCodec 50 (run sampleCodec [.saveEvents [firstCommitment]]) last ∧
      AllWritten sampleCodec (run sampleCodec [.saveEvents [firstCommitment]]).rawContractEvents last := by
  rw [process_events_drain_iff sampleCodec _ (by decide)]
  have raw : (run sampleCodec [.saveEvents [firstCommitment]]).rawContractEvents =
      [firstCommitment.row] := by decide +kernel
  rw [raw]
  constructor
  · intro event member
    rw [List.mem_singleton.mp member]
    exact ⟨_, parse_firstCommitment, Option.some_ne_none _⟩
  · simp [Distinct, read_sample, nullifiers]
  · simp [Distinct, read_sample, commitments]
  · simp [Distinct, read_sample, leaves]

/-- A pool that has the same commitment twice keeps `process_events` at work for ever. -/
theorem repeated_commitment_not_drained :
    ¬∃ last, DrainsTo sampleCodec 50
        (run sampleCodec [.saveEvents [firstCommitment, repeatedCommitment]]) last ∧
      AllWritten sampleCodec
        (run sampleCodec [.saveEvents [firstCommitment, repeatedCommitment]]).rawContractEvents last := by
  intro ⟨last, drains, written⟩
  have fits := (good_run sampleCodec [.saveEvents [firstCommitment, repeatedCommitment]]).fits_of_drained
    (by decide) drains written
  have twice := fits.distinctCommitments
  have raw : (run sampleCodec [.saveEvents [firstCommitment, repeatedCommitment]]).rawContractEvents =
      [firstCommitment.row, repeatedCommitment.row] := by decide +kernel
  rw [raw] at twice
  simp [Distinct, read_sample, commitments, firstRow, repeatedRow] at twice

end PrivatePayments.LocalState
