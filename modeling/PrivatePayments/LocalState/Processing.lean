import PrivatePayments.LocalState.Database

/-!
What `process_events` does to the derived tables: every row comes from a raw event, no
unique column repeats, and a batch adds a row for each of its events whose key is free.
-/

namespace PrivatePayments.LocalState
open Bn254 Library UniqueTable

def Kind.read {α κ : Type} (K : Kind α κ) (C : Codec) (event : RawEvent) : Option α :=
  (parseEvent C event).toOption.bind K.unwrap

/-- The rows of a table carry the event ids. -/
def Kind.Named {α κ : Type} (K : Kind α κ) : Prop := ∀ p row, K.unwrap p = some row → p.rowId = some (K.id row)

theorem nullifiers_named : nullifiers.Named := by
  intro p row unwrapped
  cases p with
  | nullifier ev => cases unwrapped; rfl
  | _ => cases unwrapped

theorem commitments_named : commitments.Named := by
  intro p row unwrapped
  cases p with
  | commitment ev => cases unwrapped; rfl
  | _ => cases unwrapped

theorem pubkeys_named : pubkeys.Named := by
  intro p row unwrapped
  cases p with
  | publicKey ev => cases unwrapped; rfl
  | _ => cases unwrapped

theorem leaves_named : leaves.Named := by
  intro p row unwrapped
  cases p with
  | leafAdded ev => cases unwrapped; rfl
  | _ => cases unwrapped

section Read

variable {α κ : Type} {K : Kind α κ} {C : Codec} {event : RawEvent}

theorem Kind.read_eq_some {row : α} :
    K.read C event = some row ↔ ∃ p, parseEvent C event = .ok p ∧ K.unwrap p = some row := by
  unfold Kind.read
  cases parseEvent C event with
  | error e => simp [Except.toOption]
  | ok p => simp [Except.toOption]

theorem Kind.read_id (named : K.Named) {row : α} (read : K.read C event = some row) :
    K.id row = event.id := by
  obtain ⟨p, parsed, unwrapped⟩ := Kind.read_eq_some.mp read
  exact parseEvent_rowId parsed (named p row unwrapped)

theorem parseAll_unwrap (C : Codec) (events : List RawEvent) :
    (parseAll C events).filterMap K.unwrap = events.filterMap (K.read C) := by
  unfold parseAll
  rw [List.filterMap_filterMap]
  rfl

theorem read_nodup (named : K.Named) {events : List RawEvent} (ids : (events.map (·.id)).Nodup) :
    ((events.filterMap (K.read C)).map K.id).Nodup := by
  have part : ((events.filterMap (K.read C)).map K.id).Sublist (events.map (·.id)) := by
    induction events with
    | nil => exact List.Sublist.refl _
    | cons event events ih =>
      have rest := ih (List.nodup_cons.mp ids).2
      cases read : K.read C event with
      | none =>
        rw [List.filterMap_cons_none read]
        exact rest.cons _
      | some row =>
        rw [List.filterMap_cons_some read, List.map_cons, List.map_cons, Kind.read_id named read]
        exact rest.cons_cons _
  exact ids.sublist part

end Read

/-- A derived table over the raw events: each row comes from one, and neither its key nor its event
id is there twice. -/
structure Filed {α κ : Type} (C : Codec) (K : Kind α κ) (raw : List RawEvent) (table : List α) : Prop where
  source : ∀ row ∈ table, ∃ event ∈ raw, K.read C event = some row
  keys : (table.map K.key).Nodup
  ids : (table.map K.id).Nodup

section Filed

variable {α κ : Type} {K : Kind α κ} {C : Codec} {raw : List RawEvent} {table : List α}

theorem filed_empty (C : Codec) (K : Kind α κ) (raw : List RawEvent) : Filed C K raw [] :=
  ⟨by simp, List.nodup_nil, List.nodup_nil⟩

theorem Filed.mono (filed : Filed C K raw table) {raw' : List RawEvent} (more : raw ⊆ raw') :
    Filed C K raw' table :=
  ⟨fun row member =>
    let ⟨event, inside, read⟩ := filed.source row member
    ⟨event, more inside, read⟩, filed.keys, filed.ids⟩

theorem Filed.read_of_id (filed : Filed C K raw table) (named : K.Named) (distinct : (raw.map (·.id)).Nodup)
    {event : RawEvent} (member : event ∈ raw) (processed : event.id ∈ table.map K.id) :
    ∃ row ∈ table, K.read C event = some row := by
  obtain ⟨row, inside, same⟩ := List.mem_map.mp processed
  obtain ⟨other, there, read⟩ := filed.source row inside
  have equal : other.id = event.id := (Kind.read_id named read).symm.trans same
  rw [List.inj_on_of_nodup_map distinct there member equal] at read
  exact ⟨row, inside, read⟩

theorem Filed.saveBatch [DecidableEq κ] (filed : Filed C K raw table) (named : K.Named)
    {batch : List RawEvent} (part : batch ⊆ raw) (distinct : (batch.map (·.id)).Nodup)
    (fresh : ∀ event ∈ batch, event.id ∉ table.map K.id) :
    ∃ added, K.saveBatch table (batch.filterMap (K.read C)) = some (table ++ added) ∧
      Added K.key table (batch.filterMap (K.read C)) added ∧ Filed C K raw (table ++ added) := by
  have rows := read_nodup (C := C) named distinct
  have apart : ((table ++ batch.filterMap (K.read C)).map K.id).Nodup := by
    rw [List.map_append, List.nodup_append']
    refine ⟨filed.ids, rows, ?_⟩
    intro id older newer
    obtain ⟨row, member, rfl⟩ := List.mem_map.mp newer
    obtain ⟨event, inside, read⟩ := List.mem_filterMap.mp member
    rw [Kind.read_id named read] at older
    exact fresh event inside older
  obtain ⟨added, result, step⟩ := insertAll_added apart filed.keys
  refine ⟨added, result, step, ?_, step.nodup, ?_⟩
  · intro row member
    rcases List.mem_append.mp member with older | newer
    · exact filed.source row older
    · obtain ⟨event, inside, read⟩ := List.mem_filterMap.mp (step.sublist.subset newer)
      exact ⟨event, part inside, read⟩
  · exact apart.sublist ((step.sublist.append_left table).map K.id)

end Filed

structure Good (C : Codec) (db : Database) : Prop where
  rawIds : (db.rawContractEvents.map (·.id)).Nodup
  filedNullifiers : Filed C nullifiers db.rawContractEvents db.poolNullifiers
  filedCommitments : Filed C commitments db.rawContractEvents db.poolCommitments
  filedPubkeys : Filed C pubkeys db.rawContractEvents db.publicKeys
  filedLeaves : Filed C leaves db.rawContractEvents db.aspMembershipLeaves

/-- One call of `process_events`: each table has taken what its constraints let in of the batch. -/
structure Processed (C : Codec) (batch : List RawEvent) (db next : Database) : Prop where
  contracts : next.contracts = db.contracts
  raw : next.rawContractEvents = db.rawContractEvents
  addedNullifiers : ∃ added, next.poolNullifiers = db.poolNullifiers ++ added ∧
    Added nullifiers.key db.poolNullifiers (batch.filterMap (nullifiers.read C)) added
  addedCommitments : ∃ added, next.poolCommitments = db.poolCommitments ++ added ∧
    Added commitments.key db.poolCommitments (batch.filterMap (commitments.read C)) added
  addedPubkeys : ∃ added, next.publicKeys = db.publicKeys ++ added ∧
    Added pubkeys.key db.publicKeys (batch.filterMap (pubkeys.read C)) added
  addedLeaves : ∃ added, next.aspMembershipLeaves = db.aspMembershipLeaves ++ added ∧
    Added leaves.key db.aspMembershipLeaves (batch.filterMap (leaves.read C)) added

section Process

variable {C : Codec} {db : Database}

/-- The window of a call, in the order it is worked off. -/
def batchOf (limit : Nat) (db : Database) : List RawEvent := (getUnprocessedEvents limit db).reverse

theorem mem_batchOf {limit : Nat} {event : RawEvent} (member : event ∈ batchOf limit db) :
    event ∈ db.rawContractEvents ∧ event.id ∉ db.processedIds := by
  have taken := List.mem_of_mem_take (List.mem_reverse.mp member)
  have kept := (List.perm_insertionSort RawEvent.Before _).mem_iff.mp taken
  simpa using List.mem_filter.mp kept

theorem Good.batch_nodup (good : Good C db) (limit : Nat) : ((batchOf limit db).map (·.id)).Nodup := by
  unfold batchOf getUnprocessedEvents
  rw [List.map_reverse, List.nodup_reverse]
  have part := ((List.take_sublist limit ((db.rawContractEvents.filter fun r =>
    r.id ∉ db.processedIds).insertionSort RawEvent.Before)).map RawEvent.id)
  refine List.Nodup.sublist part ?_
  have sorted := (List.perm_insertionSort RawEvent.Before
    (db.rawContractEvents.filter fun r => r.id ∉ db.processedIds)).map RawEvent.id
  exact sorted.nodup_iff.mpr (good.rawIds.sublist (List.filter_sublist.map _))

theorem Good.run_processEvents (good : Good C db) (limit : Nat) :
    ∃ next, processEvents C limit db = some (decide (batchOf limit db ≠ []), next) ∧
      Good C next ∧ Processed C (batchOf limit db) db next := by
  unfold processEvents
  by_cases idle : batchOf limit db = []
  · have empty : getUnprocessedEvents limit db = [] := List.reverse_eq_nil_iff.mp idle
    refine ⟨db, ?_, good, ?_⟩
    · simp [empty, idle]
    · rw [idle]
      exact ⟨rfl, rfl, ⟨[], by simp, List.Sublist.refl _, by simpa using good.filedNullifiers.keys, by simp⟩,
        ⟨[], by simp, List.Sublist.refl _, by simpa using good.filedCommitments.keys, by simp⟩,
        ⟨[], by simp, List.Sublist.refl _, by simpa using good.filedPubkeys.keys, by simp⟩,
        ⟨[], by simp, List.Sublist.refl _, by simpa using good.filedLeaves.keys, by simp⟩⟩
  · have busy : (getUnprocessedEvents limit db).isEmpty = false := by
      rw [Bool.eq_false_iff, ne_eq, List.isEmpty_iff]
      exact fun empty => idle (List.reverse_eq_nil_iff.mpr empty)
    have part : batchOf limit db ⊆ db.rawContractEvents := fun _ member => (mem_batchOf member).1
    have fresh (ids : List String) (inside : ids ⊆ db.processedIds) :
        ∀ event ∈ batchOf limit db, event.id ∉ ids :=
      fun _ member taken => (mem_batchOf member).2 (inside taken)
    have distinct := good.batch_nodup limit
    obtain ⟨n, savedN, stepN, filedN⟩ := good.filedNullifiers.saveBatch nullifiers_named part distinct
      (fresh _ (by intro id; simp only [Database.processedIds, List.mem_append]; exact Or.inr))
    obtain ⟨c, savedC, stepC, filedC⟩ := good.filedCommitments.saveBatch commitments_named part distinct
      (fresh _ (by
        intro id member
        simp only [Database.processedIds, List.mem_append]
        exact Or.inl (Or.inl (Or.inl member))))
    obtain ⟨p, savedP, stepP, filedP⟩ := good.filedPubkeys.saveBatch pubkeys_named part distinct
      (fresh _ (by
        intro id member
        simp only [Database.processedIds, List.mem_append]
        exact Or.inl (Or.inl (Or.inr member))))
    obtain ⟨l, savedL, stepL, filedL⟩ := good.filedLeaves.saveBatch leaves_named part distinct
      (fresh _ (by
        intro id member
        simp only [Database.processedIds, List.mem_append]
        exact Or.inl (Or.inr member)))
    refine ⟨{ db with
      poolNullifiers := db.poolNullifiers ++ n
      poolCommitments := db.poolCommitments ++ c
      publicKeys := db.publicKeys ++ p
      aspMembershipLeaves := db.aspMembershipLeaves ++ l }, ?_, ?_, ?_⟩
    · simp only [busy, Bool.false_eq_true, if_false, parseAll_unwrap, saveNullifierEventsBatch,
        saveCommitmentEventsBatch, savePublicKeyEventsBatch, saveLeafAddedEventsBatch]
      rw [show (getUnprocessedEvents limit db).reverse = batchOf limit db from rfl]
      simp [savedN, savedC, savedP, savedL, idle]
    · exact ⟨good.rawIds, filedN, filedC, filedP, filedL⟩
    · exact ⟨rfl, rfl, ⟨n, rfl, stepN⟩, ⟨c, rfl, stepC⟩, ⟨p, rfl, stepP⟩, ⟨l, rfl, stepL⟩⟩

theorem Good.run_saveEvent (good : Good C db) (event : ContractEvent) : Good C (saveEvent db event) := by
  unfold saveEvent
  by_cases known : event.id ∈ db.rawContractEvents.map (·.id)
  · rw [if_pos known]
    exact ⟨good.rawIds, good.filedNullifiers, good.filedCommitments, good.filedPubkeys, good.filedLeaves⟩
  · rw [if_neg known]
    have more : db.rawContractEvents ⊆ db.rawContractEvents ++ [event.row] := List.subset_append_left _ _
    refine ⟨?_, good.filedNullifiers.mono more, good.filedCommitments.mono more, good.filedPubkeys.mono more,
      good.filedLeaves.mono more⟩
    rw [List.map_append, List.map_singleton]
    exact List.nodup_append'.mpr ⟨good.rawIds, List.nodup_singleton _, List.disjoint_singleton.mpr known⟩

theorem Step.apply_process {limit : Nat} {more : Bool} {next : Database}
    (returned : processEvents C limit db = some (more, next)) : (Step.process limit).apply C db = next := by
  simp only [Step.apply, returned]

theorem Good.step (good : Good C db) (step : Step) : Good C (step.apply C db) := by
  cases step with
  | saveEvents events =>
    change Good C (events.foldl saveEvent db)
    induction events generalizing db with
    | nil => exact good
    | cons event events ih => exact ih (good.run_saveEvent event)
  | process limit =>
    obtain ⟨next, returned, after, -⟩ := good.run_processEvents limit
    rw [Step.apply_process returned]
    exact after

theorem good_run (C : Codec) (steps : List Step) : Good C (run C steps) := by
  induction steps using List.reverseRecOn with
  | nil =>
    exact ⟨List.nodup_nil, filed_empty C nullifiers [], filed_empty C commitments [],
      filed_empty C pubkeys [], filed_empty C leaves []⟩
  | append_singleton steps step ih =>
    have last : run C (steps ++ [step]) = step.apply C (run C steps) := by
      unfold run
      rw [List.foldl_append]
      rfl
    rw [last]
    exact ih.step step

end Process

end PrivatePayments.LocalState
