import PrivatePayments.Library.Outcome
import PrivatePayments.LocalState.NoteScan

/-!
What the note scan keeps: every note comes from a commitment that an account's keys opened,
and every commitment behind an account's cursor was tried with its keys.
-/

namespace PrivatePayments.LocalState
open Bn254 Poseidon2 Library UniqueTable

section Rows

variable {db : Database} {pool : String}

theorem zipIdx_sorted {α : Type} (rows : List α) (first : Nat) :
    (rows.zipIdx first).Pairwise fun a b => a.2 < b.2 := by
  have ids : ((rows.zipIdx first).map Prod.snd).Pairwise (· < ·) := by
    rw [List.zipIdx_map_snd]
    exact List.pairwise_lt_range'
  exact List.pairwise_map.mp ids

theorem mem_poolRows {row : PoolCommitmentRow} (member : row ∈ db.poolRows pool) :
    1 ≤ row.commitmentId ∧ ∃ ev, db.poolCommitments[row.commitmentId - 1]? = some ev ∧
      db.emittedBy ev.id pool ∧
      row = ⟨row.commitmentId, ev.commitment, ev.index, ev.encryptedOutput⟩ := by
  obtain ⟨⟨ev, id⟩, kept, rfl⟩ := List.mem_map.mp member
  obtain ⟨inside, emitted⟩ := List.mem_filter.mp kept
  obtain ⟨first, there⟩ := List.mem_zipIdx_iff_le_and_getElem?_sub.mp inside
  exact ⟨first, ev, there, emitted, rfl⟩

theorem poolRows_of_mem {ev : NewCommitmentEvent} (member : ev ∈ db.poolCommitments)
    (emitted : db.emittedBy ev.id pool) :
    ∃ id, (⟨id, ev.commitment, ev.index, ev.encryptedOutput⟩ : PoolCommitmentRow) ∈ db.poolRows pool := by
  obtain ⟨position, here⟩ := List.mem_iff_getElem?.mp member
  refine ⟨position + 1, List.mem_map.mpr ⟨(ev, position + 1), ?_, rfl⟩⟩
  refine List.mem_filter.mpr ⟨?_, emitted⟩
  exact List.mem_zipIdx_iff_le_and_getElem?_sub.mpr ⟨by simp, by simpa using here⟩

theorem poolRows_inj {other : String} {row row' : PoolCommitmentRow} (member : row ∈ db.poolRows pool)
    (member' : row' ∈ db.poolRows other) (same : row.commitmentId = row'.commitmentId) : row = row' := by
  obtain ⟨-, ev, here, -, rowIs⟩ := mem_poolRows member
  obtain ⟨-, ev', here', -, rowIs'⟩ := mem_poolRows member'
  rw [same, here', Option.some.injEq] at here
  rw [rowIs, rowIs', same, here]

theorem poolRows_le {row : PoolCommitmentRow} (member : row ∈ db.poolRows pool) :
    row.commitmentId ≤ db.poolCommitments.length := by
  obtain ⟨first, ev, here, -, -⟩ := mem_poolRows member
  obtain ⟨inside, -⟩ := List.getElem?_eq_some_iff.mp here
  omega

theorem poolRows_sorted : (db.poolRows pool).Pairwise fun a b => a.commitmentId < b.commitmentId :=
  List.pairwise_map.mpr ((zipIdx_sorted db.poolCommitments 1).sublist List.filter_sublist)

theorem mem_nullifierRows {row : NullifierRow} (member : row ∈ db.nullifierRows pool) :
    1 ≤ row.nullifierId ∧ ∃ ev, db.poolNullifiers[row.nullifierId - 1]? = some ev ∧
      row.nullifier = ev.nullifier := by
  obtain ⟨⟨ev, id⟩, kept, rfl⟩ := List.mem_map.mp member
  obtain ⟨first, there⟩ := List.mem_zipIdx_iff_le_and_getElem?_sub.mp (List.mem_filter.mp kept).1
  exact ⟨first, ev, there, rfl⟩

theorem nullifierRows_inj {other : String} {row row' : NullifierRow} (member : row ∈ db.nullifierRows pool)
    (member' : row' ∈ db.nullifierRows other) (same : row.nullifierId = row'.nullifierId) :
    row.nullifier = row'.nullifier := by
  obtain ⟨-, ev, here, rowIs⟩ := mem_nullifierRows member
  obtain ⟨-, ev', here', rowIs'⟩ := mem_nullifierRows member'
  rw [same, here', Option.some.injEq] at here
  rw [rowIs, rowIs', here]

theorem nullifierRows_le {row : NullifierRow} (member : row ∈ db.nullifierRows pool) :
    row.nullifierId ≤ db.poolNullifiers.length := by
  obtain ⟨first, ev, here, -⟩ := mem_nullifierRows member
  obtain ⟨inside, -⟩ := List.getElem?_eq_some_iff.mp here
  omega

theorem nullifierId_spec {nullifier : Fr} {id : Nat} (found : db.nullifierId pool nullifier = some id) :
    ∃ row ∈ db.nullifierRows pool, row.nullifierId = id ∧ row.nullifier = nullifier := by
  obtain ⟨row, here, rfl⟩ := Option.map_eq_some_iff.mp found
  exact ⟨row, List.mem_of_find?_eq_some here, rfl, by simpa using List.find?_some here⟩

end Rows

/-- One stored commitment makes the callback fail under the keys of an account. -/
def Blocked (db : Database) (derive : DeriveNoteFn) (accounts : List AccountKeys) : Prop :=
  ∃ pool, ∃ account ∈ accounts, ∃ row ∈ db.poolRows pool, ∃ e, derive account row = .error e

/-- A commitment was tried with the keys of an account: if they open it, it has its note. -/
def Tried (derive : DeriveNoteFn) (notes : List UserNote) (account : AccountKeys) (row : PoolCommitmentRow) : Prop :=
  ∃ result, derive account row = .ok result ∧ (result ≠ none → row.commitment ∈ notes.map (·.id))

theorem Tried.mono {derive : DeriveNoteFn} {notes more : List UserNote} {account : AccountKeys}
    {row : PoolCommitmentRow} (tried : Tried derive notes account row)
    (kept : notes.map (·.id) ⊆ more.map (·.id)) : Tried derive more account row := by
  obtain ⟨result, returned, noted⟩ := tried
  exact ⟨result, returned, fun found => kept (noted found)⟩

structure Found (db : Database) (derive : DeriveNoteFn) (accounts : List AccountKeys) (note : UserNote) : Prop where
  source : ∃ pool, ∃ row ∈ db.poolRows pool, ∃ account ∈ accounts, ∃ derived,
    derive account row = .ok (some derived) ∧ row.commitmentId = note.commitmentId ∧
      row.commitment = note.id ∧ derived.expectedNullifier = note.expectedNullifier
  spent : ∀ id, note.nullifierId = some id → ∃ pool, ∃ row ∈ db.nullifierRows pool,
    row.nullifierId = id ∧ row.nullifier = note.expectedNullifier

structure Noted (db : Database) (derive : DeriveNoteFn) (accounts : List AccountKeys) (notes : List UserNote) :
    Prop where
  found : ∀ note ∈ notes, Found db derive accounts note
  commitmentIds : (notes.map (·.commitmentId)).Nodup

/-- Different notes expect different nullifiers. -/
def NullifiersApart (db : Database) (derive : DeriveNoteFn) (accounts : List AccountKeys) : Prop :=
  ∀ pool pool', ∀ row ∈ db.poolRows pool, ∀ row' ∈ db.poolRows pool', ∀ account ∈ accounts,
    ∀ account' ∈ accounts, ∀ derived derived', derive account row = .ok (some derived) →
      derive account' row' = .ok (some derived') →
        derived.expectedNullifier = derived'.expectedNullifier → row.commitmentId = row'.commitmentId

section Notes

variable {db : Database} {derive : DeriveNoteFn} {accounts : List AccountKeys} {notes : List UserNote}
  {pool : String} {account : AccountKeys}

theorem Noted.eq_of_nullifier (noted : Noted db derive accounts notes)
    (apart : NullifiersApart db derive accounts) {a b : UserNote} (ha : a ∈ notes) (hb : b ∈ notes)
    (same : a.expectedNullifier = b.expectedNullifier) : a = b := by
  obtain ⟨pool, row, member, account, known, derived, returned, ids, -, expected⟩ := (noted.found a ha).source
  obtain ⟨pool', row', member', account', known', derived', returned', ids', -, expected'⟩ :=
    (noted.found b hb).source
  have equal := apart pool pool' row member row' member' account known account' known' derived derived'
    returned returned' (by rw [expected, expected', same])
  exact List.inj_on_of_nodup_map noted.commitmentIds ha hb (by rw [← ids, ← ids', equal])

theorem Noted.insert (noted : Noted db derive accounts notes) (apart : NullifiersApart db derive accounts)
    (known : account ∈ accounts) {row : PoolCommitmentRow} (member : row ∈ db.poolRows pool)
    {derived : DerivedUserNote} (returned : derive account row = .ok (some derived)) :
    Noted db derive accounts (insertUserNote notes (userNote db pool account row derived)) ∧
      notes.map (·.id) ⊆ (insertUserNote notes (userNote db pool account row derived)).map (·.id) ∧
      row.commitment ∈ (insertUserNote notes (userNote db pool account row derived)).map (·.id) := by
  have numbered (note : UserNote) (inside : note ∈ notes) (same : note.commitmentId = row.commitmentId) :
      row.commitment ∈ notes.map (·.id) := by
    obtain ⟨pool', row', member', -, -, -, -, ids, commitment, -⟩ := (noted.found note inside).source
    have equal := poolRows_inj member' member (ids.trans same)
    rw [← equal, commitment]
    exact List.mem_map_of_mem inside
  unfold insertUserNote
  split
  · rename_i taken
    refine ⟨noted, List.Subset.refl _, ?_⟩
    rcases taken with id | commitmentId | ⟨spent, nullifierId⟩
    · exact id
    · obtain ⟨note, inside, same⟩ := List.mem_map.mp commitmentId
      exact numbered note inside same
    · -- the note with the nullifier is the one of this commitment
      obtain ⟨note, inside, same⟩ := List.mem_map.mp nullifierId
      obtain ⟨id, isId⟩ := Option.ne_none_iff_exists'.mp spent
      obtain ⟨pool₁, spent₁, there₁, id₁, nullifier₁⟩ := (noted.found note inside).spent id (same.trans isId)
      obtain ⟨spent₂, there₂, id₂, nullifier₂⟩ := nullifierId_spec isId
      have value := nullifierRows_inj there₁ there₂ (id₁.trans id₂.symm)
      obtain ⟨pool', row', member', account', known', derived', returned', ids, -, expected⟩ :=
        (noted.found note inside).source
      have equal := apart pool' pool row' member' row member account' known' account known derived' derived
        returned' returned (by rw [expected, ← nullifier₁, value, nullifier₂])
      exact numbered note inside (ids.symm.trans equal)
  · rename_i free
    rw [not_or, not_or] at free
    refine ⟨⟨?_, ?_⟩, ?_, ?_⟩
    · intro note inside
      rcases List.mem_append.mp inside with older | new
      · exact noted.found note older
      · rw [List.mem_singleton.mp new]
        exact ⟨⟨pool, row, member, account, known, derived, returned, rfl, rfl, rfl⟩,
          fun id isId => ⟨pool, nullifierId_spec isId⟩⟩
    · rw [List.map_append, List.map_singleton]
      exact List.nodup_append'.mpr ⟨noted.commitmentIds, List.nodup_singleton _,
        List.disjoint_singleton.mpr free.2.1⟩
    · rw [List.map_append]
      exact List.subset_append_left _ _
    · simp [userNote]

theorem scanRow_ends (noted : Noted db derive accounts notes) (apart : NullifiersApart db derive accounts)
    (known : account ∈ accounts) {row : PoolCommitmentRow} (member : row ∈ db.poolRows pool) :
    Ends (Blocked db derive accounts) (scanRow db derive pool account notes row) fun next =>
      Noted db derive accounts next ∧ notes.map (·.id) ⊆ next.map (·.id) ∧ Tried derive next account row := by
  unfold scanRow
  cases returned : derive account row with
  | error e => exact ⟨pool, account, known, row, member, e, returned⟩
  | ok result =>
    cases result with
    | none => exact ⟨noted, List.Subset.refl _, none, returned, fun found => absurd rfl found⟩
    | some derived =>
      obtain ⟨after, kept, here⟩ := noted.insert apart known member returned
      exact ⟨after, kept, some derived, returned, fun _ => here⟩

theorem scanRows_ends (noted : Noted db derive accounts notes) (apart : NullifiersApart db derive accounts)
    (known : account ∈ accounts) {rows : List PoolCommitmentRow} (members : rows ⊆ db.poolRows pool) :
    Ends (Blocked db derive accounts) (rows.foldlM (scanRow db derive pool account) notes) fun next =>
      Noted db derive accounts next ∧ notes.map (·.id) ⊆ next.map (·.id) ∧
        ∀ row ∈ rows, Tried derive next account row := by
  refine Ends.foldlM (fun done next => Noted db derive accounts next ∧ notes.map (·.id) ⊆ next.map (·.id) ∧
    ∀ row ∈ done, Tried derive next account row) ⟨noted, List.Subset.refl _, by simp⟩ ?_
  intro done row rest before split ⟨notedBefore, kept, tried⟩
  have member : row ∈ db.poolRows pool := members (by simp [split])
  refine (scanRow_ends notedBefore apart known member).mono fun next ⟨after, more, here⟩ => ?_
  refine ⟨after, List.Subset.trans kept more, fun other inside => ?_⟩
  rcases List.mem_append.mp inside with older | new
  · exact (tried other older).mono more
  · rw [List.mem_singleton.mp new]
    exact here

theorem spendNote_keeps (db : Database) (pool : String) (row : NullifierRow) (note : UserNote) :
    (spendNote db pool row note).id = note.id ∧
      (spendNote db pool row note).commitmentId = note.commitmentId ∧
      (spendNote db pool row note).expectedNullifier = note.expectedNullifier := by
  unfold spendNote
  split <;> exact ⟨rfl, rfl, rfl⟩

theorem Found.spendNote {note : UserNote} (found : Found db derive accounts note) {row : NullifierRow}
    (member : row ∈ db.nullifierRows pool) : Found db derive accounts (LocalState.spendNote db pool row note) := by
  obtain ⟨sameId, sameCommitment, sameExpected⟩ := spendNote_keeps db pool row note
  constructor
  · rw [sameId, sameCommitment, sameExpected]
    exact found.source
  · intro id isId
    rw [sameExpected]
    unfold LocalState.spendNote at isId
    split at isId
    · rename_i hit
      exact ⟨pool, row, member, Option.some.inj isId, hit.2.1.symm⟩
    · exact found.spent id isId

theorem Noted.reconcile (noted : Noted db derive accounts notes) (apart : NullifiersApart db derive accounts)
    {row : NullifierRow} (member : row ∈ db.nullifierRows pool) :
    ∃ next, reconcileNullifier db pool notes row = .ok next ∧ Noted db derive accounts next ∧
      next.map (·.id) = notes.map (·.id) := by
  have after : Noted db derive accounts (notes.map (spendNote db pool row)) := by
    constructor
    · intro note inside
      obtain ⟨before, there, rfl⟩ := List.mem_map.mp inside
      exact (noted.found before there).spendNote member
    · have ids : (notes.map (spendNote db pool row)).map (·.commitmentId) = notes.map (·.commitmentId) := by
        rw [List.map_map]
        exact List.map_congr_left fun note _ => (spendNote_keeps db pool row note).2.1
      rw [ids]
      exact noted.commitmentIds
  have distinct : (notes.map (spendNote db pool row)).Nodup := List.Nodup.of_map _ after.commitmentIds
  have single : ((notes.map (spendNote db pool row)).filter fun note =>
      note.nullifierId = some row.nullifierId).length ≤ 1 := by
    refine length_le_one (distinct.filter _) fun a ha b hb => ?_
    obtain ⟨insideA, spentA⟩ := List.mem_filter.mp ha
    obtain ⟨insideB, spentB⟩ := List.mem_filter.mp hb
    obtain ⟨poolA, rowA, memberA, idA, valueA⟩ := (after.found a insideA).spent _ (of_decide_eq_true spentA)
    obtain ⟨poolB, rowB, memberB, idB, valueB⟩ := (after.found b insideB).spent _ (of_decide_eq_true spentB)
    have value := nullifierRows_inj memberA memberB (idA.trans idB.symm)
    exact after.eq_of_nullifier apart insideA insideB (by rw [← valueA, ← valueB, value])
  refine ⟨_, if_pos single, after, ?_⟩
  rw [List.map_map]
  exact List.map_congr_left fun note _ => (spendNote_keeps db pool row note).1

end Notes

end PrivatePayments.LocalState
