import PrivatePayments.LocalState.Drain

/-!
The local copies of the trees: once all raw events are saved and processed, the readers
return the leaves of every contract in on-chain order iff no two contracts, and no two
positions of one, share a key of the tables.
-/

namespace PrivatePayments.LocalState
open Bn254 Library UniqueTable

/-- What a contract has told of one kind, in the order of the log. -/
def emitted {α κ : Type} (C : Codec) (K : Kind α κ) (log : List RawEvent) (contract : String) : List α :=
  (log.filter fun event => event.contract = contract).filterMap (K.read C)

/-- On chain, every contract numbers the leaves it tells from zero on. -/
structure Produced (C : Codec) (log : List RawEvent) : Prop where
  pools : ∀ pool, (emitted C commitments log pool).map (·.index) =
    List.range (emitted C commitments log pool).length
  asps : ∀ asp, (emitted C leaves log asp).map (·.index) = List.range (emitted C leaves log asp).length

/-- Everything saved has been processed: no further call, whatever its limit, changes the database. -/
def Settled (C : Codec) (db : Database) : Prop := ∀ limit, ∃ more, processEvents C limit db = some (more, db)

/-- The readers return the leaves of every contract in on-chain order. -/
def Mirrors (C : Codec) (log : List RawEvent) (db : Database) : Prop :=
  (∀ pool, getPoolCommitmentLeavesOrdered pool db =
    .ok ((emitted C commitments log pool).map (·.commitment))) ∧
  ∀ asp, getAllAspMembershipLeavesOrdered asp db = .ok ((emitted C leaves log asp).map (·.leaf))

section Collect

theorem collectLeaves_ok (table : String) {k : Nat} {rows : List (Nat × Fr)}
    (numbered : rows.map Prod.fst = List.range' k rows.length) (fits : k + rows.length < 2 ^ 32) :
    collectLeaves table k rows = .ok (rows.map Prod.snd) := by
  induction rows generalizing k with
  | nil => rfl
  | cons row rows ih =>
    rw [List.map_cons, List.length_cons, List.range'_succ, List.cons.injEq] at numbered
    rw [List.length_cons] at fits
    obtain ⟨idx, leaf⟩ := row
    have here : ¬idx ≠ k := fun apart => apart numbered.1
    rw [collectLeaves, if_neg here, if_pos (by omega), ih numbered.2 (by omega)]
    rfl

theorem collectLeaves_returned {table : String} {k : Nat} {rows : List (Nat × Fr)} {read : List Fr}
    (returned : collectLeaves table k rows = .ok read) :
    read.length = rows.length ∧ (k < 2 ^ 32 → k + rows.length < 2 ^ 32) := by
  induction rows generalizing k read with
  | nil =>
    cases returned
    exact ⟨rfl, fun low => low⟩
  | cons row rows ih =>
    obtain ⟨idx, leaf⟩ := row
    rw [collectLeaves] at returned
    split at returned
    · cases returned
    · split at returned
      next low =>
        obtain ⟨rest, collected, returned⟩ := of_bind_ok returned
        cases returned
        obtain ⟨length, bounded⟩ := ih collected
        rw [List.length_cons, List.length_cons, length]
        exact ⟨rfl, fun _ => by have := bounded low; omega⟩
      next => cases returned

end Collect

section Rows

variable {α κ : Type} {K : Kind α κ} {C : Codec} {db : Database} {table : List α} {index : α → Nat}
  {value : α → Fr}

def Database.rowsOf (db : Database) (K : Kind α κ) (table : List α) (contract : String) : List α :=
  table.filter fun row => db.emittedBy (K.id row) contract

theorem orderedRows_eq (contract : String) :
    orderedRows db contract (table.map fun row => (K.id row, index row, value row)) =
      ((db.rowsOf K table contract).map fun row => (index row, value row)).insertionSort
        fun a b => a.1 ≤ b.1 := by
  unfold orderedRows Database.rowsOf
  rw [List.filter_map, List.map_map]
  rfl

theorem mem_emitted {log : List RawEvent} {contract : String} {row : α} :
    row ∈ emitted C K log contract ↔
      ∃ event ∈ log, event.contract = contract ∧ K.read C event = some row := by
  simp [emitted, and_assoc]

theorem emitted_nodup (named : K.Named) {log : List RawEvent} (ids : (log.map (·.id)).Nodup)
    (contract : String) : (emitted C K log contract).Nodup :=
  List.Nodup.of_map K.id (read_nodup named (ids.sublist (List.filter_sublist.map _)))

theorem Filed.rowsOf_subset (filed : Filed C K db.rawContractEvents table) (named : K.Named)
    (rawIds : (db.rawContractEvents.map (·.id)).Nodup) (contract : String) :
    db.rowsOf K table contract ⊆ emitted C K db.rawContractEvents contract := by
  intro row member
  obtain ⟨inside, from_⟩ := List.mem_filter.mp member
  obtain ⟨event, there, read⟩ := filed.source row inside
  obtain ⟨other, known, same⟩ := List.any_eq_true.mp from_
  simp only [decide_eq_true_eq] at same
  have equal : other = event :=
    List.inj_on_of_nodup_map rawIds known there (same.1.trans (Kind.read_id named read))
  rw [equal] at same
  exact mem_emitted.mpr ⟨event, there, same.2, read⟩

theorem mem_rowsOf {event : RawEvent} (named : K.Named) (member : event ∈ db.rawContractEvents) {row : α}
    (read : K.read C event = some row) (inside : row ∈ table) :
    row ∈ db.rowsOf K table event.contract := by
  refine List.mem_filter.mpr ⟨inside, List.any_eq_true.mpr ⟨event, member, ?_⟩⟩
  simp only [decide_eq_true_eq]
  exact ⟨(Kind.read_id named read).symm, trivial⟩

theorem Filed.rowsOf_nodup (filed : Filed C K db.rawContractEvents table) (contract : String) :
    (db.rowsOf K table contract).Nodup :=
  (List.Nodup.of_map K.id filed.ids).filter _

/-- A table that holds a row for every event holds exactly what each contract has told. -/
theorem Filed.rowsOf_perm (filed : Filed C K db.rawContractEvents table) (named : K.Named)
    (rawIds : (db.rawContractEvents.map (·.id)).Nodup)
    (all : ∀ event ∈ db.rawContractEvents, ∀ row, K.read C event = some row → row ∈ table)
    (contract : String) :
    (db.rowsOf K table contract).Perm (emitted C K db.rawContractEvents contract) := by
  rw [List.perm_ext_iff_of_nodup (filed.rowsOf_nodup contract) (emitted_nodup named rawIds contract)]
  intro row
  constructor
  · intro member
    exact filed.rowsOf_subset named rawIds contract member
  · intro member
    obtain ⟨event, there, same, read⟩ := mem_emitted.mp member
    rw [← same]
    exact mem_rowsOf named there read (all event there row read)

variable {log : List RawEvent} {contract tableName : String}

theorem collectLeaves_of_perm
    (rows : (db.rowsOf K table contract).Perm (emitted C K log contract))
    (numbered : (emitted C K log contract).map index = List.range (emitted C K log contract).length)
    (fits : (emitted C K log contract).length < 2 ^ 32) :
    collectLeaves tableName 0 (orderedRows db contract
      (table.map fun row => (K.id row, index row, value row))) =
        .ok ((emitted C K log contract).map value) := by
  have onChain : ((emitted C K log contract).map fun row => (index row, value row)).map Prod.fst =
      List.range (emitted C K log contract).length := by
    rw [List.map_map]
    exact numbered
  have sorted : ((emitted C K log contract).map fun row => (index row, value row)).Pairwise
      fun a b => a.1 < b.1 := by
    refine List.Pairwise.of_map Prod.fst (fun a b less => less) ?_
    rw [onChain]
    exact List.pairwise_lt_range
  have distinct : ∀ a b : Nat × Fr, a ∈ (emitted C K log contract).map (fun row => (index row, value row)) →
      b ∈ (emitted C K log contract).map (fun row => (index row, value row)) → a.1 = b.1 → a = b := by
    intro a b memberA memberB same
    refine List.inj_on_of_nodup_map (f := Prod.fst) ?_ memberA memberB same
    rw [onChain]
    exact List.nodup_range
  have perm := (rows.map fun row => (index row, value row))
  have order : ((db.rowsOf K table contract).map fun row => (index row, value row)).insertionSort
      (fun a b => a.1 ≤ b.1) = (emitted C K log contract).map fun row => (index row, value row) := by
    have whole := (List.perm_insertionSort (fun a b : Nat × Fr => a.1 ≤ b.1) _).trans perm
    refine List.Perm.eq_of_pairwise ?_ (List.pairwise_insertionSort _ _)
      (sorted.imp fun less => Nat.le_of_lt less) whole
    intro a b memberA memberB below above
    exact distinct a b (whole.mem_iff.mp memberA) memberB (Nat.le_antisymm below above)
  rw [orderedRows_eq, order, collectLeaves_ok]
  · rw [List.map_map]
    rfl
  · rw [onChain, List.length_map, List.range_eq_range']
  · rw [List.length_map, Nat.zero_add]
    exact fits

theorem Filed.all_of_collected (filed : Filed C K db.rawContractEvents table) (named : K.Named)
    (rawIds : (db.rawContractEvents.map (·.id)).Nodup) (saved : db.rawContractEvents.Perm log)
    (read : ∀ contract, collectLeaves tableName 0 (orderedRows db contract
      (table.map fun row => (K.id row, index row, value row))) =
        .ok ((emitted C K log contract).map value)) :
    (∀ event ∈ db.rawContractEvents, ∀ row, K.read C event = some row → row ∈ table) ∧
      ∀ contract, (emitted C K log contract).length < 2 ^ 32 := by
  have same (contract : String) :
      (emitted C K db.rawContractEvents contract).length = (emitted C K log contract).length :=
    ((saved.filter _).filterMap _).length_eq
  have counted (contract : String) :
      (db.rowsOf K table contract).length = (emitted C K log contract).length ∧
        (emitted C K log contract).length < 2 ^ 32 := by
    obtain ⟨length, bounded⟩ := collectLeaves_returned (read contract)
    rw [orderedRows_eq, List.length_insertionSort, List.length_map] at length bounded
    rw [List.length_map] at length
    have low := bounded (by decide)
    omega
  refine ⟨fun event member row isRow => ?_, fun contract => (counted contract).2⟩
  have part : db.rowsOf K table event.contract ⊆ emitted C K db.rawContractEvents event.contract :=
    filed.rowsOf_subset named rawIds event.contract
  have perm := ((filed.rowsOf_nodup event.contract).subperm part).perm_of_length_le (by
    rw [same, (counted event.contract).1])
  have here := perm.mem_iff.mpr (mem_emitted.mpr ⟨event, member, rfl, isRow⟩)
  exact (List.mem_filter.mp here).1

end Rows

section Settled

variable {C : Codec} {db : Database}

theorem mem_batchOf_of_fresh {event : RawEvent} (member : event ∈ db.rawContractEvents)
    (fresh : event.id ∉ db.processedIds) : event ∈ batchOf db.rawContractEvents.length db := by
  unfold batchOf getUnprocessedEvents
  rw [List.mem_reverse, List.take_of_length_le, List.mem_insertionSort]
  · exact List.mem_filter.mpr ⟨member, by simpa using fresh⟩
  · rw [List.length_insertionSort]
    exact List.length_filter_le _ _

theorem settled_of_processed (all : ∀ event ∈ db.rawContractEvents, event.id ∈ db.processedIds) :
    Settled C db := by
  intro limit
  have idle : (db.rawContractEvents.filter fun r => r.id ∉ db.processedIds) = [] :=
    List.filter_eq_nil_iff.mpr fun event member => by simpa using all event member
  have window : getUnprocessedEvents limit db = [] := by
    unfold getUnprocessedEvents
    rw [idle]
    exact List.take_nil
  refine ⟨false, ?_⟩
  unfold processEvents
  rw [window]
  rfl

theorem Good.settled (good : Good C db) (settled : Settled C db) :
    Processed C (batchOf db.rawContractEvents.length db) db db := by
  obtain ⟨next, returned, -, step⟩ := good.run_processEvents db.rawContractEvents.length
  obtain ⟨more, again⟩ := settled db.rawContractEvents.length
  rw [returned, Option.some.injEq, Prod.mk.injEq] at again
  rw [← again.2]
  exact again.2 ▸ step

theorem Filed.mem_of_settled {α κ : Type} {K : Kind α κ} {table : List α}
    (filed : Filed C K db.rawContractEvents table) (distinct : Distinct C K db.rawContractEvents)
    (step : ∃ added, table = table ++ added ∧
      Added K.key table ((batchOf db.rawContractEvents.length db).filterMap (K.read C)) added)
    (known : ∀ event ∈ db.rawContractEvents, event.id ∈ db.processedIds →
      WrittenOnce C K table event) {event : RawEvent}
    (member : event ∈ db.rawContractEvents) {row : α} (read : K.read C event = some row) :
    row ∈ table := by
  by_cases processed : event.id ∈ db.processedIds
  · exact (known event member processed).mem read
  · obtain ⟨added, same, more⟩ := step
    have nothing : added = [] := List.self_eq_append_right.mp same
    have here := mem_batchOf_of_fresh member processed
    rw [nothing] at more
    have whole : Filed C K db.rawContractEvents (table ++ []) := by
      rw [List.append_nil]
      exact filed
    have found := whole.mem_of_added distinct more here member read
    rwa [List.append_nil] at found

theorem distinct_perm {α κ : Type} {K : Kind α κ} {raw log : List RawEvent} (saved : raw.Perm log) :
    Distinct C K raw ↔ Distinct C K log :=
  ((saved.filterMap _).map _).nodup_iff

theorem emitted_perm {α κ : Type} {K : Kind α κ} {raw log : List RawEvent} (saved : raw.Perm log)
    (contract : String) : (emitted C K raw contract).Perm (emitted C K log contract) :=
  (saved.filter _).filterMap _

/-- What a log must be for the tables to hold it: the keys are distinct over all contracts, and no
index runs past a `u32`. -/
structure Holdable (C : Codec) (log : List RawEvent) : Prop where
  commitments : Distinct C commitments log
  leaves : Distinct C leaves log
  pools : ∀ pool, (emitted C LocalState.commitments log pool).length < 2 ^ 32
  asps : ∀ asp, (emitted C LocalState.leaves log asp).length < 2 ^ 32

variable {log : List RawEvent}

theorem Good.holdable_of_mirrors (good : Good C db) (saved : db.rawContractEvents.Perm log)
    (mirrors : Mirrors C log db) : Holdable C log := by
  obtain ⟨poolRows, pools⟩ := good.filedCommitments.all_of_collected commitments_named good.rawIds saved
    mirrors.1
  obtain ⟨aspRows, asps⟩ := good.filedLeaves.all_of_collected leaves_named good.rawIds saved mirrors.2
  refine ⟨?_, ?_, pools, asps⟩
  · rw [← distinct_perm saved]
    exact good.filedCommitments.distinct commitments_named good.rawIds fun event member row read =>
      good.filedCommitments.only commitments_named read (poolRows event member row read)
  · rw [← distinct_perm saved]
    exact good.filedLeaves.distinct leaves_named good.rawIds fun event member row read =>
      good.filedLeaves.only leaves_named read (aspRows event member row read)

theorem Good.mirrors_of_holdable (good : Good C db) (saved : db.rawContractEvents.Perm log)
    (produced : Produced C log) (settled : Settled C db) (holdable : Holdable C log) :
    Mirrors C log db := by
  have step := good.settled settled
  have poolRows (event : RawEvent) (member : event ∈ db.rawContractEvents) (row : NewCommitmentEvent) :
      commitments.read C event = some row → row ∈ db.poolCommitments :=
    good.filedCommitments.mem_of_settled ((distinct_perm saved).mpr holdable.commitments)
      step.addedCommitments (fun _ inside known => (good.written inside known).2.1) member
  have aspRows (event : RawEvent) (member : event ∈ db.rawContractEvents) (row : LeafAddedEvent) :
      leaves.read C event = some row → row ∈ db.aspMembershipLeaves :=
    good.filedLeaves.mem_of_settled ((distinct_perm saved).mpr holdable.leaves)
      step.addedLeaves (fun _ inside known => (good.written inside known).2.2.2) member
  constructor
  · intro pool
    exact collectLeaves_of_perm ((good.filedCommitments.rowsOf_perm commitments_named good.rawIds
      poolRows pool).trans (emitted_perm saved pool)) (produced.pools pool) (holdable.pools pool)
  · intro asp
    exact collectLeaves_of_perm ((good.filedLeaves.rowsOf_perm leaves_named good.rawIds
      aspRows asp).trans (emitted_perm saved asp)) (produced.asps asp) (holdable.asps asp)

end Settled

/-- Once the log of any number of contracts is saved and processed, the readers return the leaves of
every contract in on-chain order iff no two commitment events of the log carry one commitment, no two
membership leaves one index, and every contract has fewer than 2^32 leaves. -/
theorem leaf_stores_mirror_iff (C : Codec) (steps : List Step) (log : List RawEvent)
    (saved : (run C steps).rawContractEvents.Perm log) (produced : Produced C log)
    (settled : Settled C (run C steps)) : Mirrors C log (run C steps) ↔ Holdable C log := by
  have good := good_run C steps
  constructor
  · intro mirrors
    exact good.holdable_of_mirrors saved mirrors
  · intro holdable
    exact good.mirrors_of_holdable saved produced settled holdable

/-- The database once one commitment is processed and, perhaps, the other is left over. -/
def sampleDatabase (raw : List RawEvent) (row : NewCommitmentEvent) : Database where
  contracts := ["CPOOL"]
  indexingMetadata := []
  rawContractEvents := raw
  poolNullifiers := []
  poolCommitments := [row]
  publicKeys := []
  aspMembershipLeaves := []

theorem run_firstCommitment : run sampleCodec [.saveEvents [firstCommitment], .process 50] =
    sampleDatabase [firstCommitment.row] firstRow := by decide +kernel

theorem run_repeatedCommitment :
    run sampleCodec [.saveEvents [firstCommitment, repeatedCommitment], .process 50] =
      sampleDatabase [firstCommitment.row, repeatedCommitment.row] repeatedRow := by decide +kernel

theorem leaf_stores_mirror_iff_sample :
    Mirrors sampleCodec [firstCommitment.row]
      (run sampleCodec [.saveEvents [firstCommitment], .process 50]) := by
  have pools (pool : String) : emitted sampleCodec commitments [firstCommitment.row] pool =
      if "CPOOL" = pool then [firstRow] else [] := by
    have contract : firstCommitment.row.contract = "CPOOL" := rfl
    unfold emitted
    by_cases here : "CPOOL" = pool
    · simp [contract, here, read_sample, commitments]
    · simp [contract, here]
  have asps (asp : String) : emitted sampleCodec leaves [firstCommitment.row] asp = [] := by
    unfold emitted
    rw [List.filterMap_eq_nil_iff]
    intro event member
    rw [List.mem_singleton.mp (List.mem_filter.mp member).1]
    exact (read_sample leaves).1
  have settled : Settled sampleCodec (run sampleCodec [.saveEvents [firstCommitment], .process 50]) := by
    rw [run_firstCommitment]
    exact settled_of_processed (by decide +kernel)
  refine (leaf_stores_mirror_iff sampleCodec [.saveEvents [firstCommitment], .process 50]
    [firstCommitment.row] (by rw [run_firstCommitment]; rfl) ⟨?_, ?_⟩ settled).mpr ⟨?_, ?_, ?_, ?_⟩
  · intro pool
    rw [pools]
    split <;> rfl
  · intro asp
    rw [asps]
    rfl
  · simp [Distinct, read_sample, commitments]
  · simp [Distinct, read_sample, leaves]
  · intro pool
    rw [pools]
    split <;> decide
  · intro asp
    rw [asps]
    decide

/-- One pool has taken the same commitment twice: its reader finds the second position without the
first and fails from then on. -/
theorem repeated_commitment_not_mirrored :
    (run sampleCodec [.saveEvents [firstCommitment, repeatedCommitment], .process 50]).rawContractEvents =
        [firstCommitment.row, repeatedCommitment.row] ∧
      (emitted sampleCodec commitments [firstCommitment.row, repeatedCommitment.row] "CPOOL").map
        (fun ev => (ev.index, ev.commitment)) = [(0, 5), (1, 5)] ∧
      Settled sampleCodec
        (run sampleCodec [.saveEvents [firstCommitment, repeatedCommitment], .process 50]) ∧
      getPoolCommitmentLeavesOrdered "CPOOL"
        (run sampleCodec [.saveEvents [firstCommitment, repeatedCommitment], .process 50]) =
          .error (.gap "pool_commitments" 0 1) := by
  rw [run_repeatedCommitment]
  refine ⟨rfl, ?_, fun limit => ?_, by decide +kernel⟩
  · unfold emitted
    rw [List.filter_eq_self.mpr (by decide +kernel)]
    simp [read_sample, commitments, firstRow, repeatedRow]
  · have left : ((sampleDatabase [firstCommitment.row, repeatedCommitment.row]
        repeatedRow).rawContractEvents.filter fun r => r.id ∉ (sampleDatabase [firstCommitment.row,
          repeatedCommitment.row] repeatedRow).processedIds).insertionSort RawEvent.Before =
            [firstCommitment.row] := by decide +kernel
    unfold processEvents getUnprocessedEvents
    rw [left]
    cases limit with
    | zero => exact ⟨false, rfl⟩
    | succ limit =>
      refine ⟨true, ?_⟩
      rw [List.take_succ_cons, List.take_nil]
      have parsed : parseAll sampleCodec [firstCommitment.row] = [.commitment firstRow] := by
        simp [parseAll, parse_firstCommitment, Except.toOption]
      simp only [List.isEmpty_cons, Bool.false_eq_true, if_false, List.reverse_singleton, parsed]
      decide +kernel

end PrivatePayments.LocalState
