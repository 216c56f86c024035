import PrivatePayments.AspMembership.Refinement
import PrivatePayments.LocalState.Leaves

/-!
Whether the local copy of the ASP membership tree is ready for a proof. Raw events, their
processing and the root on chain advance on their own; the answer is read off the last leaf that
was processed.
-/

namespace PrivatePayments.LocalState
open Bn254 Library UniqueTable Poseidon2

inductive AspMembershipSync where
  | syncRequired (gap : Option Nat)
  | registerAtASP
  | userIndex (index : Nat)
  deriving DecidableEq

inductive PreconditionError where
  | metadataAhead (indexed chain : Nat)
  | rootMismatch (ledger : Nat)
  deriving DecidableEq

/-- `LIMIT 1` of a query without an order: any of its rows. -/
structure LimitOne (α : Type) where
  pick : List α → Option α
  mem : ∀ {rows row}, pick rows = some row → row ∈ rows
  empty : ∀ {rows}, pick rows = none → rows = []

def LimitOne.first (α : Type) : LimitOne α where
  pick := List.head?
  mem := List.mem_of_mem_head?
  empty := List.head?_eq_none_iff.mp

/-- The join of the leaves with the raw events of a contract; of those only the ledger is selected. -/
def Database.joinedLeaves (db : Database) (asp : String) : List (LeafAddedEvent × Nat) :=
  db.aspMembershipLeaves.filterMap fun row =>
    (db.rawContractEvents.find? fun r => r.id = row.id ∧ r.contract = asp).map fun r => (row, r.ledger)

/-- `ORDER BY l.leaf_index DESC LIMIT 1`. -/
def Database.lastLeaf (db : Database) (asp : String) : Option (LeafAddedEvent × Nat) :=
  ((db.joinedLeaves asp).insertionSort fun a b => b.1.index ≤ a.1.index).head?

def checkAspMembershipPrecondition (limitOne : LimitOne Nat) (db : Database) (asp : String)
    (userLeaf currentRoot : Fr) (currentLedger : Nat) : Except PreconditionError AspMembershipSync :=
  match (getSyncMetadata db).find? fun entry => entry.contractId = asp with
  | none => .ok (.syncRequired (some currentLedger))
  | some syncMeta =>
      if syncMeta.lastFullyIndexedLedger < currentLedger then
        .ok (.syncRequired (some (currentLedger - syncMeta.lastFullyIndexedLedger)))
      else if currentLedger < syncMeta.lastFullyIndexedLedger then
        .error (.metadataAhead syncMeta.lastFullyIndexedLedger currentLedger)
      else
        match db.lastLeaf asp with
        -- nothing is asked of the raw events: they may hold leaves that are not processed
        | none => .ok .registerAtASP
        | some (last, lastLeafLedger) =>
            if currentRoot ≠ last.root then
              if lastLeafLedger < currentLedger then
                .ok (.syncRequired (some (currentLedger - lastLeafLedger)))
              else .error (.rootMismatch currentLedger)
            else
              match limitOne.pick (((db.joinedLeaves asp).filter fun l => l.1.leaf = userLeaf).map (·.1.index)) with
              | some userLeafIndex => .ok (.userIndex userLeafIndex)
              | none => .ok .registerAtASP

/-- The states of the database: raw events and sync progress are saved, and any part of the raw
events is processed, in any order. -/
inductive Reached (C : Codec) : Database → Prop
  | empty : Reached C .empty
  | saveEvents {db : Database} (reached : Reached C db) (events : List ContractEvent) :
      Reached C (saveEventsBatch events db)
  | saveSyncProgress {db : Database} (reached : Reached C db) (metadata : List SyncMetadata) (fullyIndexed : Bool) :
      Reached C (saveSyncProgress metadata fullyIndexed db)
  | processEvents {db next : Database} {more : Bool} (reached : Reached C db) (limit : Nat)
      (returned : processEvents C limit db = some (more, next)) : Reached C next
  | processPart {db next : Database} (reached : Reached C db) {part : List RawEvent}
      (known : part ⊆ db.rawContractEvents)
      (returned : saveLeafAddedEventsBatch (part.filterMap (leaves.read C)) db = some next) : Reached C next

/-- A raw event is how the client receives an event the contract has published. -/
def Tells (C : Codec) (asp : String) (r : RawEvent) (event : AspMembership.LeafAdded) : Prop :=
  r.contract = asp ∧ leaves.read C r =
    some { id := r.id, leaf := ofU256 event.leaf, index := event.index, root := ofU256 event.root }

/-- The events of a history as the RPC delivers them, of which a prefix is saved. -/
structure Observed (C : Codec) (asp : String) (published : List AspMembership.LeafAdded) (log : List RawEvent)
    (db : Database) : Prop where
  tells : List.Forall₂ (Tells C asp) log published
  saved : (db.rawContractEvents.filter fun r => r.contract = asp) <+: log

/-- Every event up to the ledger the metadata calls fully indexed is saved. -/
def Database.Consistent (db : Database) (asp : String) (log : List RawEvent) : Prop :=
  ∀ entry ∈ getSyncMetadata db, entry.contractId = asp →
    ∀ r ∈ log, r.ledger ≤ entry.lastFullyIndexedLedger → r ∈ db.rawContractEvents

/-- At a moment of the history the tree on chain has the root and holds the leaf at the index. -/
def OnChain (admin : Soroban.Address) (levels : Nat) (calls : List AspMembership.Call) (root leaf : Fr) (i : Nat) :
    Prop :=
  ∃ past, past <+: calls ∧
    (AspMembership.run poseidon2 admin levels past).env.storage.root = some (toU256 root) ∧
    ((AspMembership.run poseidon2 admin levels past).leaves.map ofU256)[i]? = some leaf

/-- An answer is right for the indices at which the tree with the root passed holds the user's leaf. -/
def Right (holds : Nat → Prop) : Except PreconditionError AspMembershipSync → Prop
  | .ok .registerAtASP => ∀ i, ¬holds i
  | .ok (.userIndex i) => holds i
  | _ => True

/-- The raw events are indexed up to the ledger passed, as far as the metadata tells. -/
def Database.CaughtUp (db : Database) (asp : String) (currentLedger : Nat) : Prop :=
  ((getSyncMetadata db).find? fun entry => entry.contractId = asp).map (·.lastFullyIndexedLedger) = some currentLedger

/-- The leaves that are processed show the user's leaf, or by their last root that leaves are missing. -/
def Database.Shows (db : Database) (asp : String) (userLeaf currentRoot : Fr) : Prop :=
  (∃ row ∈ db.rowsOf leaves db.aspMembershipLeaves asp, row.leaf = userLeaf) ∨
    ∃ last ∈ db.rowsOf leaves db.aspMembershipLeaves asp,
      (∀ row ∈ db.rowsOf leaves db.aspMembershipLeaves asp, row.index ≤ last.index) ∧ last.root ≠ currentRoot

section Invariant

variable {C : Codec} {db : Database}

theorem Good.run_saveSyncProgress (good : Good C db) (metadata : List SyncMetadata) (fullyIndexed : Bool) :
    Good C (saveSyncProgress metadata fullyIndexed db) := by
  unfold saveSyncProgress
  induction metadata generalizing db with
  | nil => exact good
  | cons entry metadata ih =>
    have saved : Good C (saveSyncEntry fullyIndexed db entry) :=
      ⟨good.rawIds, good.filedNullifiers, good.filedCommitments, good.filedPubkeys, good.filedLeaves⟩
    exact ih saved

theorem Good.run_processPart (good : Good C db) {part : List RawEvent} (known : part ⊆ db.rawContractEvents)
    {next : Database} (returned : saveLeafAddedEventsBatch (part.filterMap (leaves.read C)) db = some next) :
    Good C next := by
  obtain ⟨table, batch, isNext⟩ := Option.bind_eq_some_iff.mp returned
  cases isNext
  obtain ⟨added, -, keys⟩ := insertAll_some batch good.filedLeaves.keys
  obtain ⟨source, ids⟩ := insertAll_own batch good.filedLeaves.ids
  refine ⟨good.rawIds, good.filedNullifiers, good.filedCommitments, good.filedPubkeys, ?_, keys, ids⟩
  intro row member
  rcases List.mem_append.mp (source member) with older | newer
  · exact good.filedLeaves.source row older
  · obtain ⟨event, inside, read⟩ := List.mem_filterMap.mp newer
    exact ⟨event, known inside, read⟩

theorem Reached.good (reached : Reached C db) : Good C db := by
  induction reached with
  | empty => exact good_run C []
  | saveEvents _ events ih => exact ih.step (.saveEvents events)
  | saveSyncProgress _ metadata fullyIndexed ih => exact ih.run_saveSyncProgress metadata fullyIndexed
  | processEvents _ limit returned ih =>
    obtain ⟨next, same, after, -⟩ := ih.run_processEvents limit
    rw [returned, Option.some.injEq, Prod.mk.injEq] at same
    exact same.2 ▸ after
  | processPart _ known returned ih => exact ih.run_processPart known returned

end Invariant

section Rows

variable {db : Database} {asp : String}

theorem joinedLeaves_fst :
    (db.joinedLeaves asp).map Prod.fst = db.rowsOf leaves db.aspMembershipLeaves asp := by
  unfold Database.joinedLeaves Database.rowsOf
  rw [List.map_filterMap, ← List.filterMap_eq_filter]
  refine List.filterMap_congr fun row _ => ?_
  have joins : db.emittedBy row.id asp =
      (db.rawContractEvents.find? fun r => r.id = row.id ∧ r.contract = asp).isSome :=
    List.isSome_find?.symm
  rw [Option.map_map, Option.guard, show leaves.id row = row.id from rfl, joins]
  cases db.rawContractEvents.find? fun r => r.id = row.id ∧ r.contract = asp <;> rfl

theorem mem_joinedLeaves {row : LeafAddedEvent} :
    row ∈ db.rowsOf leaves db.aspMembershipLeaves asp ↔ ∃ ledger, (row, ledger) ∈ db.joinedLeaves asp := by
  rw [← joinedLeaves_fst, List.mem_map]
  constructor
  · rintro ⟨⟨row, ledger⟩, member, rfl⟩
    exact ⟨ledger, member⟩
  · intro ⟨ledger, member⟩
    exact ⟨(row, ledger), member, rfl⟩

theorem lastLeaf_none (empty : db.lastLeaf asp = none) : db.rowsOf leaves db.aspMembershipLeaves asp = [] := by
  have sorted := List.head?_eq_none_iff.mp empty
  have perm := List.perm_insertionSort (fun a b : LeafAddedEvent × Nat => b.1.index ≤ a.1.index) (db.joinedLeaves asp)
  rw [sorted] at perm
  rw [← joinedLeaves_fst, List.nil_perm.mp perm]
  rfl

theorem lastLeaf_some {last : LeafAddedEvent} {ledger : Nat} (found : db.lastLeaf asp = some (last, ledger)) :
    last ∈ db.rowsOf leaves db.aspMembershipLeaves asp ∧
      ∀ row ∈ db.rowsOf leaves db.aspMembershipLeaves asp, row.index ≤ last.index := by
  have perm := List.perm_insertionSort (fun a b : LeafAddedEvent × Nat => b.1.index ≤ a.1.index) (db.joinedLeaves asp)
  have sorted := List.pairwise_insertionSort (fun a b : LeafAddedEvent × Nat => b.1.index ≤ a.1.index)
      (db.joinedLeaves asp)
  obtain ⟨rest, whole⟩ := List.head?_eq_some_iff.mp found
  rw [whole] at perm sorted
  refine ⟨mem_joinedLeaves.mpr ⟨ledger, perm.mem_iff.mp List.mem_cons_self⟩, fun row member => ?_⟩
  obtain ⟨other, inside⟩ := mem_joinedLeaves.mp member
  rcases List.mem_cons.mp (perm.mem_iff.mpr inside) with same | later
  · rw [Prod.mk.injEq] at same
    rw [same.1]
  · exact (List.pairwise_cons.mp sorted).1 (row, other) later

end Rows

section History

open AspMembership in
/-- The list of members of a past moment is a prefix of the members at the end, and every prefix is the
list of a past moment. -/
theorem leaves_extend (H : Hasher) (admin : Soroban.Address) (levels : Nat) (calls : List Call) :
    (∀ past, past <+: calls → (AspMembership.run H admin levels past).leaves <+:
      (AspMembership.run H admin levels calls).leaves) ∧
      ∀ k ≤ (AspMembership.run H admin levels calls).leaves.length, ∃ past, past <+: calls ∧
        (AspMembership.run H admin levels past).leaves = (AspMembership.run H admin levels calls).leaves.take k := by
  induction calls using List.reverseRecOn with
  | nil =>
    refine ⟨fun past part => ?_, fun k _ => ⟨[], List.prefix_refl _, ?_⟩⟩
    · rw [List.prefix_nil.mp part]
    · exact (List.take_nil).symm
  | append_singleton calls call ih =>
    obtain ⟨older, moments⟩ := ih
    have grown : (AspMembership.run H admin levels calls).leaves <+:
          (AspMembership.run H admin levels (calls ++ [call])).leaves ∧
        (AspMembership.run H admin levels (calls ++ [call])).leaves.length ≤
          (AspMembership.run H admin levels calls).leaves.length + 1 := by
      rw [AspMembership.run_concat]
      unfold advance
      split
      · refine ⟨List.prefix_append _ _, ?_⟩
        rw [List.length_append]
        cases call <;> simp [Call.leaf]
      · exact ⟨List.prefix_refl _, Nat.le_succ _⟩
    refine ⟨fun past part => ?_, fun k low => ?_⟩
    · rcases List.prefix_concat_iff.mp part with rfl | before
      · exact List.prefix_refl _
      · exact (older past before).trans grown.1
    · by_cases within : k ≤ (AspMembership.run H admin levels calls).leaves.length
      · obtain ⟨past, part, same⟩ := moments k within
        refine ⟨past, part.trans (List.prefix_append _ _), ?_⟩
        rw [same, List.prefix_iff_eq_take.mp grown.1, List.take_take, Nat.min_eq_left within]
      · refine ⟨calls ++ [call], List.prefix_refl _, ?_⟩
        rw [List.take_of_length_le]
        omega

variable {admin : Soroban.Address} {levels : Nat} {C : Codec} {asp : String} {log : List RawEvent} {db : Database}

theorem exists_told {published : List AspMembership.LeafAdded} {r : RawEvent}
    (tells : List.Forall₂ (Tells C asp) log published)
    (member : r ∈ log) : ∃ event ∈ published, Tells C asp r event := by
  induction tells with
  | nil => cases member
  | cons first _ ih =>
    rcases List.mem_cons.mp member with rfl | later
    · exact ⟨_, List.mem_cons_self, first⟩
    · obtain ⟨event, inside, told⟩ := ih later
      exact ⟨event, List.mem_cons_of_mem _ inside, told⟩

theorem told_at {published : List AspMembership.LeafAdded} {i : Nat} {event : AspMembership.LeafAdded}
    (tells : List.Forall₂ (Tells C asp) log published) (found : published[i]? = some event) :
    ∃ r, log[i]? = some r ∧ Tells C asp r event := by
  induction tells generalizing i with
  | nil => cases found
  | cons first _ ih =>
    cases i with
    | zero =>
      cases found
      exact ⟨_, rfl, first⟩
    | succ i => exact ih found

theorem run_tree (admitted : AspMembership.Admitted admin levels) (calls : List AspMembership.Call) :
    (AspMembership.run poseidon2 admin levels calls).env.storage.root = some (toU256
        (AspMembership.rootOf poseidon2 levels (AspMembership.run poseidon2 admin levels calls).leaves)) ∧
      (AspMembership.run poseidon2 admin levels calls).env.storage.events =
        (List.range (AspMembership.run poseidon2 admin levels calls).leaves.length).map
          (AspMembership.eventAt poseidon2 levels (AspMembership.run poseidon2 admin levels calls).leaves) := by
  obtain ⟨positive, bounded⟩ := AspMembership.admitted_iff.mp admitted
  have follows : AspMembership.Follows poseidon2 levels (AspMembership.Members.run levels admin calls)
      (AspMembership.run poseidon2 admin levels calls) :=
    AspMembership.follows_run Merkle.zeroAt_chain positive bounded calls
  rw [follows.leaves]
  exact ⟨follows.represents.root, follows.represents.events⟩

variable {calls : List AspMembership.Call}

/-- A leaf of the local copy is one the contract has inserted, with the root after it. -/
theorem Observed.row_told (admitted : AspMembership.Admitted admin levels) (good : Good C db)
    (observed : Observed C asp (AspMembership.run poseidon2 admin levels calls).env.storage.events log db)
    {row : LeafAddedEvent} (member : row ∈ db.rowsOf leaves db.aspMembershipLeaves asp) :
    row.index < (AspMembership.run poseidon2 admin levels calls).leaves.length ∧
      ((AspMembership.run poseidon2 admin levels calls).leaves.map ofU256)[row.index]? = some row.leaf ∧
      row.root = AspMembership.rootOf poseidon2 levels
        ((AspMembership.run poseidon2 admin levels calls).leaves.take (row.index + 1)) := by
  have emitted := good.filedLeaves.rowsOf_subset leaves_named good.rawIds asp member
  obtain ⟨r, there, from_, read⟩ := mem_emitted.mp emitted
  have logged : r ∈ log := observed.saved.subset (List.mem_filter.mpr ⟨there, decide_eq_true from_⟩)
  obtain ⟨event, published, -, told⟩ := exists_told observed.tells logged
  rw [read, Option.some.injEq] at told
  rw [(run_tree admitted calls).2] at published
  obtain ⟨i, low, rfl⟩ := List.mem_map.mp published
  rw [List.mem_range] at low
  rw [told]
  refine ⟨low, ?_, ofU256_toU256 _⟩
  change ((AspMembership.run poseidon2 admin levels calls).leaves.map ofU256)[i]? =
    some (ofU256 ((AspMembership.run poseidon2 admin levels calls).leaves.getD i 0))
  rw [List.getElem?_map, List.getElem?_eq_getElem low, Option.map_some, List.getD_eq_getElem _ _ low]

theorem Observed.onChain (admitted : AspMembership.Admitted admin levels) (good : Good C db)
    (observed : Observed C asp (AspMembership.run poseidon2 admin levels calls).env.storage.events log db)
    {row last : LeafAddedEvent} (member : row ∈ db.rowsOf leaves db.aspMembershipLeaves asp)
    (newest : last ∈ db.rowsOf leaves db.aspMembershipLeaves asp) (below : row.index ≤ last.index) :
    OnChain admin levels calls last.root row.leaf row.index := by
  obtain ⟨-, leaf, -⟩ := observed.row_told admitted good member
  obtain ⟨low, -, root⟩ := observed.row_told admitted good newest
  obtain ⟨past, part, same⟩ := (leaves_extend poseidon2 admin levels calls).2 (last.index + 1) low
  refine ⟨past, part, ?_, ?_⟩
  · rw [(run_tree admitted past).1, same, root]
  · rw [same, List.map_take, List.getElem?_take_of_lt (Nat.lt_succ_of_le below)]
    exact leaf

end History

/-- Once metadata and ledger agree, the answer depends on the last leaf that is processed. -/
theorem check_of_caughtUp {db : Database} {asp : String} {currentLedger : Nat}
    (caughtUp : db.CaughtUp asp currentLedger)
    (limitOne : LimitOne Nat) (userLeaf currentRoot : Fr) :
    checkAspMembershipPrecondition limitOne db asp userLeaf currentRoot currentLedger =
      match db.lastLeaf asp with
      | none => .ok .registerAtASP
      | some (last, lastLeafLedger) =>
          if currentRoot ≠ last.root then
            if lastLeafLedger < currentLedger then .ok (.syncRequired (some (currentLedger - lastLeafLedger)))
            else .error (.rootMismatch currentLedger)
          else
            match limitOne.pick (((db.joinedLeaves asp).filter fun l => l.1.leaf = userLeaf).map (·.1.index)) with
            | some userLeafIndex => .ok (.userIndex userLeafIndex)
            | none => .ok .registerAtASP := by
  obtain ⟨syncMeta, found, rfl⟩ := Option.map_eq_some_iff.mp caughtUp
  unfold checkAspMembershipPrecondition
  rw [found]
  simp only [lt_irrefl, if_false]

theorem check_of_not_caughtUp {db : Database} {asp : String} {currentLedger : Nat}
    (behind : ¬db.CaughtUp asp currentLedger) (limitOne : LimitOne Nat) (userLeaf currentRoot : Fr) :
    (∃ gap, checkAspMembershipPrecondition limitOne db asp userLeaf currentRoot currentLedger =
        .ok (.syncRequired (some gap))) ∨
      ∃ e, checkAspMembershipPrecondition limitOne db asp userLeaf currentRoot currentLedger = .error e := by
  unfold Database.CaughtUp at behind
  unfold checkAspMembershipPrecondition
  split
  next => exact Or.inl ⟨_, rfl⟩
  next syncMeta found =>
    have apart : syncMeta.lastFullyIndexedLedger ≠ currentLedger := by
      intro same
      exact behind (by rw [found, Option.map_some, same])
    by_cases below : syncMeta.lastFullyIndexedLedger < currentLedger
    · exact Or.inl ⟨_, if_pos below⟩
    · refine Or.inr ⟨_, (if_neg below).trans (if_pos ?_)⟩
      omega

section Answer

variable {db : Database} {asp : String} {userLeaf : Fr}

theorem mem_userLeafRows {i : Nat} :
    i ∈ ((db.joinedLeaves asp).filter fun l => l.1.leaf = userLeaf).map (·.1.index) ↔
      ∃ row ∈ db.rowsOf leaves db.aspMembershipLeaves asp, row.leaf = userLeaf ∧ row.index = i := by
  rw [← joinedLeaves_fst]
  simp [and_assoc]

/-- A user who is told to register has no leaf among those processed, and the last of them, if there
is one, has the root passed. -/
theorem check_registers {currentLedger : Nat} (caughtUp : db.CaughtUp asp currentLedger) (limitOne : LimitOne Nat)
    {currentRoot : Fr} (hidden : ¬db.Shows asp userLeaf currentRoot) :
    checkAspMembershipPrecondition limitOne db asp userLeaf currentRoot currentLedger = .ok .registerAtASP := by
  rw [check_of_caughtUp caughtUp]
  cases found : db.lastLeaf asp with
  | none => rfl
  | some entry =>
    obtain ⟨last, ledger⟩ := entry
    obtain ⟨member, newest⟩ := lastLeaf_some found
    have same : currentRoot = last.root := by
      by_contra apart
      exact hidden (Or.inr ⟨last, member, newest, fun equal => apart equal.symm⟩)
    have none_ : limitOne.pick (((db.joinedLeaves asp).filter fun l => l.1.leaf = userLeaf).map (·.1.index)) =
        none := by
      cases picked : limitOne.pick (((db.joinedLeaves asp).filter fun l => l.1.leaf = userLeaf).map (·.1.index)) with
      | none => rfl
      | some i =>
        obtain ⟨row, inside, isLeaf, -⟩ := mem_userLeafRows.mp (limitOne.mem picked)
        exact absurd (Or.inl ⟨row, inside, isLeaf⟩) hidden
    simp only [same, ne_eq, not_true, if_false, none_]

/-- A user who is told an index has the leaf there, under a last leaf with the root passed. -/
theorem check_indexes {limitOne : LimitOne Nat} {currentRoot : Fr} {currentLedger i : Nat}
    (caughtUp : db.CaughtUp asp currentLedger)
    (answer : checkAspMembershipPrecondition limitOne db asp userLeaf currentRoot currentLedger = .ok (.userIndex i)) :
    ∃ row ∈ db.rowsOf leaves db.aspMembershipLeaves asp, row.leaf = userLeaf ∧ row.index = i ∧
      ∃ last ∈ db.rowsOf leaves db.aspMembershipLeaves asp, row.index ≤ last.index ∧ last.root = currentRoot := by
  rw [check_of_caughtUp caughtUp] at answer
  split at answer
  · cases answer
  next last ledger found =>
    obtain ⟨member, newest⟩ := lastLeaf_some found
    split at answer
    · split at answer <;> cases answer
    next same =>
      split at answer
      next index picked =>
        cases answer
        obtain ⟨row, inside, isLeaf, isIndex⟩ := mem_userLeafRows.mp (limitOne.mem picked)
        exact ⟨row, inside, isLeaf, isIndex, last, member, newest row inside, (not_not.mp same).symm⟩
      next => cases answer

/-- Where the leaves that are processed show the user's leaf, or that leaves are missing, nobody is
told to register. -/
theorem check_not_registers {C : Codec} (good : Good C db) {limitOne : LimitOne Nat} {currentRoot : Fr}
    {currentLedger : Nat} (caughtUp : db.CaughtUp asp currentLedger) (shows : db.Shows asp userLeaf currentRoot) :
    checkAspMembershipPrecondition limitOne db asp userLeaf currentRoot currentLedger ≠ .ok .registerAtASP := by
  intro answer
  rw [check_of_caughtUp caughtUp] at answer
  split at answer
  next found =>
    have empty := lastLeaf_none found
    unfold Database.Shows at shows
    rw [empty] at shows
    simp at shows
  next last ledger found =>
    obtain ⟨member, newest⟩ := lastLeaf_some found
    split at answer
    · split at answer <;> cases answer
    next same =>
      split at answer
      · cases answer
      next picked =>
        rcases shows with ⟨row, inside, isLeaf⟩ | ⟨other, inside, above, apart⟩
        · have listed := mem_userLeafRows.mpr ⟨row, inside, isLeaf, rfl⟩
          rw [limitOne.empty picked] at listed
          cases listed
        · have level : other.index = last.index := Nat.le_antisymm (newest other inside) (above last member)
          have equal : other = last := List.inj_on_of_nodup_map good.filedLeaves.keys
            (List.mem_filter.mp inside).1 (List.mem_filter.mp member).1 level
          rw [equal] at apart
          exact apart (not_not.mp same).symm

end Answer

section Precondition

variable {admin : Soroban.Address} {levels : Nat} {calls : List AspMembership.Call} {C : Codec} {asp : String}
  {log : List RawEvent} {db : Database}

/-- An index is always right, and so is the advice to register where leaves that are processed would
have shown otherwise. -/
theorem Observed.right_of_shown (admitted : AspMembership.Admitted admin levels) (good : Good C db)
    (observed : Observed C asp (AspMembership.run poseidon2 admin levels calls).env.storage.events log db)
    (limitOne : LimitOne Nat) {userLeaf currentRoot : Fr} {currentLedger : Nat}
    (shown : db.CaughtUp asp currentLedger → (∃ i, OnChain admin levels calls currentRoot userLeaf i) →
      db.Shows asp userLeaf currentRoot) :
    Right (OnChain admin levels calls currentRoot userLeaf)
      (checkAspMembershipPrecondition limitOne db asp userLeaf currentRoot currentLedger) := by
  by_cases caughtUp : db.CaughtUp asp currentLedger
  · cases answer : checkAspMembershipPrecondition limitOne db asp userLeaf currentRoot currentLedger with
    | error e => trivial
    | ok status =>
      cases status with
      | syncRequired gap => trivial
      | registerAtASP =>
        intro i holds
        exact check_not_registers good caughtUp (shown caughtUp ⟨i, holds⟩) answer
      | userIndex i =>
        obtain ⟨row, inside, rfl, rfl, last, member, below, rfl⟩ := check_indexes caughtUp answer
        exact observed.onChain admitted good inside member below
  · rcases check_of_not_caughtUp caughtUp limitOne userLeaf currentRoot with ⟨gap, answer⟩ | ⟨e, answer⟩
    · rw [answer]
      trivial
    · rw [answer]
      trivial

theorem Observed.leaf_told (admitted : AspMembership.Admitted admin levels)
    (observed : Observed C asp (AspMembership.run poseidon2 admin levels calls).env.storage.events log db)
    {root leaf : Fr} {i : Nat} (holds : OnChain admin levels calls root leaf i) :
    ∃ r row, log[i]? = some r ∧ r.contract = asp ∧ leaves.read C r = some row ∧ row.leaf = leaf := by
  obtain ⟨past, part, -, found⟩ := holds
  obtain ⟨more, whole⟩ := ((leaves_extend poseidon2 admin levels calls).1 past part).map ofU256
  obtain ⟨short, -⟩ := List.getElem?_eq_some_iff.mp found
  have here : ((AspMembership.run poseidon2 admin levels calls).leaves.map ofU256)[i]? = some leaf := by
    rw [← whole, List.getElem?_append_left short, found]
  rw [List.getElem?_map, Option.map_eq_some_iff] at here
  obtain ⟨x, inserted, rfl⟩ := here
  obtain ⟨low, isLeaf⟩ := List.getElem?_eq_some_iff.mp inserted
  obtain ⟨r, logged, from_, read⟩ := told_at observed.tells (i := i) (by
    rw [(run_tree admitted calls).2, List.getElem?_map, List.getElem?_range low, Option.map_some])
  refine ⟨r, _, logged, from_, read, ?_⟩
  unfold AspMembership.eventAt
  rw [List.getD_eq_getElem _ _ low, isLeaf]

/-- Once every raw event of the contract is processed, the answers are right for a root the tree has
had by the ledger passed: consistent metadata leave none of its leaves out. -/
theorem Observed.right_of_processed (admitted : AspMembership.Admitted admin levels) (good : Good C db)
    (observed : Observed C asp (AspMembership.run poseidon2 admin levels calls).env.storage.events log db)
    (consistent : db.Consistent asp log)
    (processed : ∀ r ∈ db.rawContractEvents, r.contract = asp → r.id ∈ db.processedIds)
    {userLeaf currentRoot : Fr} {currentLedger : Nat}
    (past : ∀ i, OnChain admin levels calls currentRoot userLeaf i → ∀ r, log[i]? = some r → r.ledger ≤ currentLedger)
    (limitOne : LimitOne Nat) :
    Right (OnChain admin levels calls currentRoot userLeaf)
      (checkAspMembershipPrecondition limitOne db asp userLeaf currentRoot currentLedger) := by
  refine observed.right_of_shown admitted good limitOne fun caughtUp ⟨i, holds⟩ => Or.inl ?_
  obtain ⟨r, row, logged, from_, read, isLeaf⟩ := observed.leaf_told admitted holds
  obtain ⟨entry, found, rfl⟩ := Option.map_eq_some_iff.mp caughtUp
  have known : r ∈ db.rawContractEvents :=
    consistent entry (List.mem_of_find?_eq_some found) (by simpa using List.find?_some found) r
      (List.mem_of_getElem? logged) (past i holds r logged)
  have written := (good.written known (processed r known from_)).2.2.2
  exact ⟨row, from_ ▸ mem_rowsOf leaves_named known read (written.mem read), isLeaf⟩

end Precondition

/-- The answer is right iff the metadata is not at the ledger passed, or no tree on chain with the
root passed holds the user's leaf, or a leaf equal to it has been processed, or some leaf has been
processed and the last one's root is not the root passed. -/
theorem asp_precondition_iff {admin : Soroban.Address} {levels : Nat} (admitted : AspMembership.Admitted admin levels)
    (calls : List AspMembership.Call) {C : Codec} {asp : String} {log : List RawEvent} {db : Database}
    (reached : Reached C db)
    (observed : Observed C asp (AspMembership.run poseidon2 admin levels calls).env.storage.events log db)
    (limitOne : LimitOne Nat) (userLeaf currentRoot : Fr) (currentLedger : Nat) :
    Right (OnChain admin levels calls currentRoot userLeaf)
        (checkAspMembershipPrecondition limitOne db asp userLeaf currentRoot currentLedger) ↔
      (db.CaughtUp asp currentLedger → (∃ i, OnChain admin levels calls currentRoot userLeaf i) →
        db.Shows asp userLeaf currentRoot) := by
  constructor
  · intro right caughtUp ⟨i, holds⟩
    by_contra hidden
    rw [check_registers caughtUp limitOne hidden] at right
    exact right i holds
  · intro shown
    exact observed.right_of_shown admitted reached.good limitOne shown

def leafAddedText : String := "AAAADwAAAApsZWFmX2FkZGVkAAA="

def leafData : String :=
  "AAAAEQAAAAEAAAADAAAADwAAAAVpbmRleAAAAAAAAAUAAAAAAAAAAAAAAA8AAAAEbGVhZgAAAAsAAAAAAAAAAAAAAAAAAAAAAAAAAAAA" ++
    "AAAAAAAAAAAABQAAAA8AAAAEcm9vdAAAAAsmPsRVKDeQcYGeHgVOPdeuiXr6Z7WIsKdrZB4rCSCwRg=="

def leafCodec : Codec where
  fromXdrBase64 text :=
    [(leafAddedText, .symbol (some "leaf_added")),
      (leafData, .map (some [(.symbol (some "index"), .u64 0), (.symbol (some "leaf"), .u256 0 0 0 5),
        (.symbol (some "root"), .u256 0x263ec45528379071 0x819e1e054e3dd7ae 0x897afa67b588b0a7
          0x6b641e2b0920b046)]))].lookup text
  accountText _ := ""
  contractText _ := ""

def sampleLeaf : ContractEvent where
  id := "0000000042949677056-0000000000"
  ledger := 10
  contractId := "CASP"
  topics := [leafAddedText]
  value := leafData

def sampleLeafRow : LeafAddedEvent where
  id := "0000000042949677056-0000000000"
  leaf := 5
  index := 0
  root := 17298787802295169710901741157309425811432400973314301423915772684582902607942

def sampleIndexed : Database :=
  saveSyncProgress [⟨"CASP", 12, 0, "cur-tip"⟩] true (saveEventsBatch [sampleLeaf] .empty)

def sampleInsertion : List AspMembership.Call := [.insertLeaf [⟨7⟩] 5]

/-- The leaf is in the tree and told by one event. -/
theorem sampleInsertion_runs :
    (AspMembership.run poseidon2 ⟨7⟩ 1 sampleInsertion).env.storage.root = some (toU256 sampleLeafRow.root) ∧
      ((AspMembership.run poseidon2 ⟨7⟩ 1 sampleInsertion).leaves.map ofU256)[0]? = some 5 ∧
      (AspMembership.run poseidon2 ⟨7⟩ 1 sampleInsertion).env.storage.events =
        [⟨toU256 5, 0, toU256 sampleLeafRow.root⟩] := by
  decide +kernel

theorem sampleLeaf_onChain : OnChain ⟨7⟩ 1 sampleInsertion sampleLeafRow.root 5 0 :=
  ⟨sampleInsertion, List.prefix_refl _, sampleInsertion_runs.1, sampleInsertion_runs.2.1⟩

theorem read_sampleLeaf : leaves.read leafCodec sampleLeaf.row = some sampleLeafRow := by decide +kernel

theorem sampleIndexed_raw : sampleIndexed.rawContractEvents = [sampleLeaf.row] := rfl

theorem sampleLeaf_observed {db : Database} (raw : db.rawContractEvents = [sampleLeaf.row]) :
    Observed leafCodec "CASP" (AspMembership.run poseidon2 ⟨7⟩ 1 sampleInsertion).env.storage.events
      [sampleLeaf.row] db := by
  rw [sampleInsertion_runs.2.2]
  refine ⟨.cons ⟨rfl, ?_⟩ .nil, ?_⟩
  · rw [read_sampleLeaf, ofU256_toU256, ofU256_toU256]
    rfl
  · rw [raw, List.filter_singleton]
    exact List.prefix_refl _

theorem sampleIndexed_reached : Reached leafCodec sampleIndexed :=
  .saveSyncProgress (.saveEvents .empty [sampleLeaf]) _ _

def sampleProcessed : Database := { sampleIndexed with aspMembershipLeaves := [sampleLeafRow] }

theorem sampleProcessed_reached : Reached leafCodec sampleProcessed := by
  have known : [sampleLeaf.row] ⊆ sampleIndexed.rawContractEvents := by
    rw [sampleIndexed_raw]
    exact List.Subset.refl _
  refine sampleIndexed_reached.processPart known ?_
  rw [List.filterMap_cons_some read_sampleLeaf, List.filterMap_nil]
  decide +kernel

theorem asp_precondition_iff_sample :
    checkAspMembershipPrecondition (LimitOne.first Nat) sampleProcessed "CASP" 5 sampleLeafRow.root 12 =
        .ok (.userIndex 0) ∧
      Right (OnChain ⟨7⟩ 1 sampleInsertion sampleLeafRow.root 5)
        (checkAspMembershipPrecondition (LimitOne.first Nat) sampleProcessed "CASP" 5 sampleLeafRow.root 12) :=
  ⟨by decide, (asp_precondition_iff (AspMembership.admitted_iff.mpr (by decide)) sampleInsertion
    sampleProcessed_reached (sampleLeaf_observed sampleIndexed_raw) (LimitOne.first Nat) 5 sampleLeafRow.root 12).mpr
      fun _ _ => Or.inl ⟨sampleLeafRow, by decide, rfl⟩⟩

/-- A member whose leaf is saved, under metadata at the tip, but not processed is told to register
although the tree with the root passed holds the leaf. -/
theorem unprocessed_member_registers :
    AspMembership.Admitted ⟨7⟩ 1 ∧ Reached leafCodec sampleIndexed ∧
      Observed leafCodec "CASP" (AspMembership.run poseidon2 ⟨7⟩ 1 sampleInsertion).env.storage.events
        [sampleLeaf.row] sampleIndexed ∧
      sampleIndexed.Consistent "CASP" [sampleLeaf.row] ∧
      checkAspMembershipPrecondition (LimitOne.first Nat) sampleIndexed "CASP" 5 sampleLeafRow.root 12 =
        .ok .registerAtASP ∧
      OnChain ⟨7⟩ 1 sampleInsertion sampleLeafRow.root 5 0 ∧
      ¬Right (OnChain ⟨7⟩ 1 sampleInsertion sampleLeafRow.root 5)
        (checkAspMembershipPrecondition (LimitOne.first Nat) sampleIndexed "CASP" 5 sampleLeafRow.root 12) := by
  have answer : checkAspMembershipPrecondition (LimitOne.first Nat) sampleIndexed "CASP" 5 sampleLeafRow.root 12 =
      .ok .registerAtASP := by decide
  refine ⟨AspMembership.admitted_iff.mpr (by decide), sampleIndexed_reached, sampleLeaf_observed sampleIndexed_raw, ?_,
    answer, sampleLeaf_onChain, ?_⟩
  · intro entry _ _ r member _
    rw [sampleIndexed_raw]
    exact member
  · rw [answer]
    intro right
    exact right 0 sampleLeaf_onChain

end PrivatePayments.LocalState
