import PrivatePayments.Indexer.Rounds

/-!
What the pages of a round write to the database and what the next round reads back: events
are added under their ids, and the rows of the watched contracts move together.
-/

namespace PrivatePayments.Indexer
open LocalState Library UniqueTable

structure EventsSaved (events : List ContractEvent) (db next : Database) : Prop where
  mono : db.rawContractEvents ⊆ next.rawContractEvents
  source : ∀ r ∈ next.rawContractEvents, r ∈ db.rawContractEvents ∨ ∃ event ∈ events, event.row = r
  ids : ∀ event ∈ events, event.id ∈ next.rawContractEvents.map (·.id)
  contracts : db.contracts ⊆ next.contracts
  metadata : next.indexingMetadata = db.indexingMetadata

theorem getOrCreateContractId_spec (contracts : List String) (address : String) :
    contracts ⊆ getOrCreateContractId contracts address ∧ address ∈ getOrCreateContractId contracts address := by
  unfold getOrCreateContractId
  split
  · rename_i known
    exact ⟨List.Subset.refl _, known⟩
  · exact ⟨List.subset_append_left _ _, by simp⟩

theorem saveEvent_saved (db : Database) (event : ContractEvent) : EventsSaved [event] db (saveEvent db event) := by
  have contracts := (getOrCreateContractId_spec db.contracts event.contractId).1
  unfold saveEvent
  by_cases known : event.id ∈ db.rawContractEvents.map (·.id)
  · rw [if_pos known]
    refine ⟨List.Subset.refl _, fun r member => Or.inl member, fun other inside => ?_, contracts, rfl⟩
    rw [List.mem_singleton.mp inside]
    exact known
  · rw [if_neg known]
    refine ⟨List.subset_append_left _ _, fun r member => ?_, fun other inside => ?_, contracts, rfl⟩
    · rcases List.mem_append.mp member with older | new
      · exact Or.inl older
      · exact Or.inr ⟨event, List.mem_singleton_self event, (List.mem_singleton.mp new).symm⟩
    · rw [List.mem_singleton.mp inside]
      simp [ContractEvent.row]

theorem saveEventsBatch_saved (events : List ContractEvent) (db : Database) :
    EventsSaved events db (saveEventsBatch events db) := by
  induction events generalizing db with
  | nil => exact ⟨List.Subset.refl _, fun r member => Or.inl member, by simp, List.Subset.refl _, rfl⟩
  | cons event events ih =>
    have first := saveEvent_saved db event
    have rest := ih (saveEvent db event)
    change EventsSaved (event :: events) db (saveEventsBatch events (saveEvent db event))
    refine ⟨List.Subset.trans first.mono rest.mono, fun r member => ?_, fun other inside => ?_,
      List.Subset.trans first.contracts rest.contracts, rest.metadata.trans first.metadata⟩
    · rcases rest.source r member with older | ⟨other, inside, isRow⟩
      · rcases first.source r older with oldest | ⟨other, inside, isRow⟩
        · exact Or.inl oldest
        · rw [List.mem_singleton.mp inside] at isRow
          exact Or.inr ⟨event, List.mem_cons_self, isRow⟩
      · exact Or.inr ⟨other, List.mem_cons_of_mem event inside, isRow⟩
    · rcases List.mem_cons.mp inside with rfl | later
      · exact List.map_subset _ rest.mono (first.ids other (List.mem_singleton_self other))
      · exact rest.ids other later

structure RowSaved (page : EventsPage) (db : Database) (row : MetadataRow) : Prop where
  cursor : row.lastCursor = some page.cursor
  indexed : row.lastIndexedLedger = page.progressLedger
  fully : row.lastFullyIndexedLedger = page.progressLedger ∧ page.events = [] ∨
    row.lastFullyIndexedLedger = 0 ∨
    ∃ before ∈ db.indexingMetadata, before.contract = row.contract ∧
      before.lastFullyIndexedLedger = row.lastFullyIndexedLedger

structure ProgressSaved (contractIds : List String) (page : EventsPage) (db next : Database) : Prop where
  raw : next.rawContractEvents = db.rawContractEvents
  contracts : db.contracts ⊆ next.contracts
  rows : ∀ row ∈ next.indexingMetadata,
    row.contract ∈ contractIds ∧ row.contract ∈ next.contracts ∧ RowSaved page db row ∨
      row.contract ∉ contractIds ∧ row ∈ db.indexingMetadata
  filled : contractIds ⊆ next.indexingMetadata.map (·.contract)

theorem saveProgress_saved (contractIds : List String) (page : EventsPage) (db : Database) :
    ProgressSaved contractIds page db (saveProgress contractIds page db) := by
  unfold saveProgress saveSyncProgress
  induction contractIds using List.reverseRecOn with
  | nil => exact ⟨rfl, List.Subset.refl _, fun row member => Or.inr ⟨List.not_mem_nil, member⟩, by simp⟩
  | append_singleton ids id ih =>
    rw [List.map_append, List.foldl_append]
    generalize List.foldl (saveSyncEntry page.events.isEmpty) db (ids.map fun contractId =>
      { contractId := contractId
        lastIndexedLedger := page.progressLedger
        lastFullyIndexedLedger := 0
        cursor := page.cursor }) = before at ih ⊢
    simp only [List.map_cons, List.map_nil, List.foldl_cons, List.foldl_nil]
    obtain ⟨more, here⟩ := getOrCreateContractId_spec before.contracts id
    unfold saveSyncEntry
    dsimp only
    set inserted := if id ∈ before.indexingMetadata.map (·.contract) then before.indexingMetadata
      else before.indexingMetadata ++ [(⟨id, page.progressLedger, 0, page.cursor⟩ : SyncMetadata).row]
      with isInserted
    have present : id ∈ inserted.map (·.contract) := by
      rw [isInserted]
      split
      · assumption
      · simp [SyncMetadata.row]
    have kept : before.indexingMetadata.map (·.contract) ⊆ inserted.map (·.contract) := by
      rw [isInserted]
      split
      · exact List.Subset.refl _
      · rw [List.map_append]
        exact List.subset_append_left _ _
    refine ⟨ih.raw, List.Subset.trans ih.contracts more, ?_, ?_⟩
    · intro row member
      obtain ⟨old, inside, rfl⟩ := List.mem_map.mp member
      by_cases this : old.contract = id
      · left
        rw [if_pos this]
        dsimp only
        rw [this]
        refine ⟨by simp, here, rfl, rfl, ?_⟩
        by_cases empty : page.events = []
        · left
          simp [empty]
        · right
          have busy : page.events.isEmpty = false := by simpa using empty
          rw [busy]
          simp only [Bool.false_eq_true, if_false]
          -- the row is the one from before or a new one
          rw [isInserted] at inside
          split at inside
          · rcases ih.rows old inside with ⟨-, -, saved⟩ | ⟨-, older⟩
            · rcases saved.fully with ⟨-, none⟩ | zero | ⟨first, there, same, equal⟩
              · exact absurd none empty
              · exact Or.inl zero
              · exact Or.inr ⟨first, there, same.trans this, equal⟩
            · exact Or.inr ⟨old, older, this, rfl⟩
          · rename_i missing
            rcases List.mem_append.mp inside with older | new
            · exact absurd (List.mem_map.mpr ⟨old, older, this⟩) missing
            · rw [List.mem_singleton.mp new]
              exact Or.inl rfl
      · rw [if_neg this]
        have older : old ∈ before.indexingMetadata := by
          rw [isInserted] at inside
          split at inside
          · exact inside
          · rcases List.mem_append.mp inside with older | new
            · exact older
            · rw [List.mem_singleton.mp new] at this
              exact absurd rfl this
        rcases ih.rows old older with ⟨member, known, saved⟩ | ⟨apart, oldest⟩
        · exact Or.inl ⟨List.mem_append_left _ member, more known, saved⟩
        · exact Or.inr ⟨by simp [apart, this], oldest⟩
    · have contracts : (inserted.map fun row =>
          if row.contract = id then
            { row with
              lastCursor := some page.cursor
              lastIndexedLedger := page.progressLedger
              lastFullyIndexedLedger :=
                if page.events.isEmpty = true then page.progressLedger else row.lastFullyIndexedLedger }
          else row).map (·.contract) = inserted.map (·.contract) := by
        rw [List.map_map]
        refine List.map_congr_left fun row _ => ?_
        simp only [Function.comp]
        split <;> rfl
      rw [contracts]
      intro c member
      rcases List.mem_append.mp member with earlier | last
      · exact kept (ih.filled earlier)
      · rw [List.mem_singleton.mp last]
        exact present

section Resume

variable {contractIds : List String} {db : Database}

theorem mem_activeSync {entry : SyncMetadata} (member : entry ∈ activeSync contractIds db) :
    ∃ row ∈ db.indexingMetadata, row.read = entry := by
  obtain ⟨row, found, rfl⟩ := List.mem_map.mp (List.mem_filter.mp member).1
  obtain ⟨c, -, here⟩ := List.mem_filterMap.mp found
  exact ⟨row, List.mem_of_find?_eq_some here, rfl⟩

theorem activeSync_ne_nil {row : MetadataRow} (member : row ∈ db.indexingMetadata)
    (known : row.contract ∈ db.contracts) (watched : row.contract ∈ contractIds) :
    activeSync contractIds db ≠ [] := by
  obtain ⟨found, here⟩ : ∃ found, db.indexingMetadata.find? (fun other => other.contract = row.contract) =
      some found := by
    rw [← Option.isSome_iff_exists, List.find?_isSome]
    exact ⟨row, member, by simp⟩
  have same : found.contract = row.contract := by simpa using List.find?_some here
  refine List.ne_nil_of_mem (List.mem_filter.mpr ⟨List.mem_map.mpr ⟨found, ?_, rfl⟩, ?_⟩)
  · exact List.mem_filterMap.mpr ⟨row.contract, known, here⟩
  · simpa [MetadataRow.read, same] using watched

theorem resume_of_no_metadata (contractIds : List String) (minPoolLedger : Nat) (fresh : db.indexingMetadata = []) :
    resumeLedger contractIds minPoolLedger db = minPoolLedger ∧ resumeCursor contractIds db = none := by
  have empty : activeSync contractIds db = [] := by
    rw [List.eq_nil_iff_forall_not_mem]
    intro entry member
    obtain ⟨row, inside, -⟩ := mem_activeSync member
    rw [fresh] at inside
    cases inside
  simp [resumeLedger, resumeCursor, empty]

theorem resume_of_shared (minPoolLedger : Nat) {cursor : Option String} {ledger : Nat} {row : MetadataRow}
    (member : row ∈ db.indexingMetadata)
    (known : row.contract ∈ db.contracts) (watched : row.contract ∈ contractIds)
    (shared : ∀ row ∈ db.indexingMetadata, row.lastCursor = cursor ∧ row.lastIndexedLedger = ledger) :
    resumeLedger contractIds minPoolLedger db = ledger ∧
      resumeCursor contractIds db = cursor.filter (· ≠ "") := by
  have entries : ∀ entry ∈ activeSync contractIds db,
      entry.cursor = cursor.getD "" ∧ entry.lastIndexedLedger = ledger := by
    intro entry inside
    obtain ⟨row, there, rfl⟩ := mem_activeSync inside
    obtain ⟨sameCursor, sameLedger⟩ := shared row there
    exact ⟨by rw [← sameCursor]; rfl, sameLedger⟩
  obtain ⟨first, rest, active⟩ := List.exists_cons_of_ne_nil (activeSync_ne_nil member known watched)
  rw [active] at entries
  obtain ⟨firstCursor, firstLedger⟩ := entries first List.mem_cons_self
  constructor
  · have least : ((first :: rest).map (·.lastIndexedLedger)).min? = some ledger := by
      rw [List.min?_eq_some_iff]
      refine ⟨List.mem_map.mpr ⟨first, List.mem_cons_self, firstLedger⟩, fun other inside => ?_⟩
      obtain ⟨entry, there, rfl⟩ := List.mem_map.mp inside
      exact (entries entry there).2.ge
    rw [resumeLedger, active, least]
    rfl
  · have single : (((first :: rest).map (·.cursor)).filter (· ≠ "")).dedup.length ≤ 1 := by
      have equal : ∀ c ∈ (((first :: rest).map (·.cursor)).filter (· ≠ "")).dedup, c = cursor.getD "" := by
        intro c inside
        obtain ⟨entry, there, rfl⟩ := List.mem_map.mp (List.mem_filter.mp (List.mem_dedup.mp inside)).1
        exact (entries entry there).1
      exact length_le_one (List.nodup_dedup _) fun a ha b hb => (equal a ha).trans (equal b hb).symm
    rw [resumeCursor, active, if_pos single, List.head?_cons, Option.bind_some, firstCursor]
    cases cursor with
    | none => rfl
    | some c =>
      by_cases empty : c = ""
      · simp [empty, Option.filter]
      · simp [empty, Option.filter]

end Resume

end PrivatePayments.Indexer
