import PrivatePayments.LocalState.Ingestion

/-!
Two scans with a cursor each follow two tables that grow. A note that is derived after its nullifier was
passed is marked when it is inserted, a nullifier that arrives after its note marks it when it is reconciled.
-/

namespace PrivatePayments.LocalState
open Bn254 Library UniqueTable

/-- The commitment a note was made from, the account whose keys opened it, and its status: it is marked
only with the stored nullifier of its pool, and it is marked where that nullifier was passed. -/
structure Marked (db : Database) (derive : DeriveNoteFn) (accounts : List AccountKeys) (passed : String → Nat)
    (pool : String) (note : UserNote) : Prop where
  source : ∃ row ∈ db.poolRows pool, ∃ account ∈ accounts, ∃ derived, derive account row = .ok (some derived) ∧
    note.id = row.commitment ∧ note.commitmentId = row.commitmentId ∧ note.accountId = account.accountId ∧
      note.expectedNullifier = derived.expectedNullifier
  stored : ∀ id, note.nullifierId = some id →
    ∃ row ∈ db.nullifierRows pool, row.nullifierId = id ∧ row.nullifier = note.expectedNullifier
  passed : ∀ row ∈ db.nullifierRows pool, row.nullifier = note.expectedNullifier → row.nullifierId ≤ passed pool →
    note.nullifierId ≠ none

/-- The status of every note, and one note for a commitment. -/
structure Statuses (db : Database) (derive : DeriveNoteFn) (accounts : List AccountKeys) (passed : String → Nat)
    (notes : List UserNote) : Prop where
  marked : ∀ note ∈ notes, ∃ pool, Marked db derive accounts passed pool note
  commitmentIds : (notes.map (·.commitmentId)).Nodup

def ExpectedApart (db : Database) (derive : DeriveNoteFn) (accounts : List AccountKeys) : Prop :=
  ∀ pool, ∀ row ∈ db.poolRows pool, ∀ row' ∈ db.poolRows pool, ∀ account ∈ accounts, ∀ account' ∈ accounts,
    ∀ derived derived', derive account row = .ok (some derived) → derive account' row' = .ok (some derived') →
      derived.expectedNullifier = derived'.expectedNullifier → row.commitmentId = row'.commitmentId

/-- A commitment was tried with the keys of an account: if they open it, it has a note. -/
def Followed (derive : DeriveNoteFn) (notes : List UserNote) (account : AccountKeys) (row : PoolCommitmentRow) : Prop :=
  ∃ result, derive account row = .ok result ∧ (result ≠ none → row.commitmentId ∈ notes.map (·.commitmentId))

structure InStep (db : Database) (derive : DeriveNoteFn) (accounts : List AccountKeys) (st : UserState) : Prop where
  statuses : Statuses db derive accounts st.nullifierScanState st.userNotes
  followed : ExpectedApart db derive accounts → ∀ pool, ∀ account ∈ accounts, ∀ row ∈ db.poolRows pool,
    row.commitmentId ≤ st.accountCommitmentScan pool account.accountId → Followed derive st.userNotes account row
  commitmentBound : ∀ pool id, st.accountCommitmentScan pool id ≤ db.poolCommitments.length
  nullifierBound : ∀ pool, st.nullifierScanState pool ≤ db.poolNullifiers.length
  newcomers : ∀ pool id, (∀ account ∈ accounts, account.accountId ≠ id) → st.accountCommitmentScan pool id = 0

section Ingest

variable {db next : Database} {derive : DeriveNoteFn} {accounts more : List AccountKeys} {st : UserState}

theorem Marked.grown {passed : String → Nat} {pool : String} {note : UserNote} (grown : Grown db next)
    (larger : accounts ⊆ more) (bound : passed pool ≤ db.poolNullifiers.length)
    (marked : Marked db derive accounts passed pool note) : Marked next derive more passed pool note := by
  refine ⟨?_, ?_, ?_⟩
  · obtain ⟨row, member, account, known, derived, opened⟩ := marked.source
    exact ⟨row, mem_extended (grown.commitments _) member, account, larger known, derived, opened⟩
  · intro id isId
    obtain ⟨row, member, same⟩ := marked.stored id isId
    exact ⟨row, mem_extended (grown.nullifiers _) member, same⟩
  · intro row member expected behind
    exact marked.passed row (mem_of_number_le (grown.nullifiers _) member (behind.trans bound)) expected behind

theorem InStep.grown (inStep : InStep db derive accounts st) (grown : Grown db next) (larger : accounts ⊆ more)
    (fresh : ∀ account ∈ more, account ∈ accounts ∨ ∀ other ∈ accounts, other.accountId ≠ account.accountId) :
    InStep next derive more st := by
  refine ⟨⟨?_, inStep.statuses.commitmentIds⟩, ?_,
    fun pool id => (inStep.commitmentBound pool id).trans grown.commitmentCount,
    fun pool => (inStep.nullifierBound pool).trans grown.nullifierCount, ?_⟩
  · intro note member
    obtain ⟨pool, marked⟩ := inStep.statuses.marked note member
    exact ⟨pool, marked.grown grown larger (inStep.nullifierBound pool)⟩
  · intro apart pool account known row member behind
    have old := mem_of_number_le (grown.commitments _) member
        (behind.trans (inStep.commitmentBound pool account.accountId))
    rcases fresh account known with before | new
    · refine inStep.followed ?_ pool account before row old behind
      intro pool row here row' here' a mine a' mine'
      exact apart pool row (mem_extended (grown.commitments pool) here) row'
        (mem_extended (grown.commitments pool) here') a (larger mine) a' (larger mine')
    · rw [inStep.newcomers pool account.accountId new] at behind
      have first := (mem_poolRows old).1
      omega
  · intro pool id absent
    exact inStep.newcomers pool id fun account known => absent account (larger known)

end Ingest

section Insert

variable {db : Database} {derive : DeriveNoteFn} {accounts : List AccountKeys} {passed : String → Nat}
  {notes : List UserNote} {pool : String} {account : AccountKeys} {row : PoolCommitmentRow} {derived : DerivedUserNote}

theorem nullifierId_ne_none {nullifier : Fr} {stored : NullifierRow} (member : stored ∈ db.nullifierRows pool)
    (same : stored.nullifier = nullifier) : db.nullifierId pool nullifier ≠ none := by
  unfold Database.nullifierId
  rw [Ne, Option.map_eq_none_iff, List.find?_eq_none]
  exact fun no => no stored member (decide_eq_true same)

theorem marked_userNote (known : account ∈ accounts) (member : row ∈ db.poolRows pool)
    (opened : derive account row = .ok (some derived)) :
    Marked db derive accounts passed pool (userNote db pool account row derived) :=
  ⟨⟨row, member, account, known, derived, opened, rfl, rfl, rfl, rfl⟩, fun _ isId => nullifierId_spec isId,
    fun _ stored expected _ => nullifierId_ne_none stored expected⟩

theorem insertUserNote_cases (notes : List UserNote) (note : UserNote) :
    insertUserNote notes note = notes ∧ (note.id ∈ notes.map (·.id) ∨ note.commitmentId ∈ notes.map (·.commitmentId) ∨
        note.nullifierId ≠ none ∧ note.nullifierId ∈ notes.map (·.nullifierId)) ∨
      insertUserNote notes note = notes ++ [note] ∧ note.commitmentId ∉ notes.map (·.commitmentId) := by
  unfold insertUserNote
  split
  · rename_i taken
    exact Or.inl ⟨rfl, taken⟩
  · rename_i free
    exact Or.inr ⟨rfl, fun inside => free (Or.inr (Or.inl inside))⟩

theorem Statuses.insert (statuses : Statuses db derive accounts passed notes) (known : account ∈ accounts)
    (member : row ∈ db.poolRows pool) (opened : derive account row = .ok (some derived)) :
    Statuses db derive accounts passed (insertUserNote notes (userNote db pool account row derived)) := by
  rcases insertUserNote_cases notes (userNote db pool account row derived) with ⟨same, -⟩ | ⟨same, free⟩
  · rwa [same]
  · rw [same]
    refine ⟨fun note inside => ?_, ?_⟩
    · rcases List.mem_append.mp inside with older | new
      · exact statuses.marked note older
      · rw [List.mem_singleton.mp new]
        exact ⟨pool, marked_userNote known member opened⟩
    · rw [List.map_append, List.map_singleton]
      exact List.nodup_append'.mpr ⟨statuses.commitmentIds, List.nodup_singleton _, List.disjoint_singleton.mpr free⟩

theorem insertUserNote_kept (notes : List UserNote) (note : UserNote) :
    notes.map (·.commitmentId) ⊆ (insertUserNote notes note).map (·.commitmentId) := by
  rcases insertUserNote_cases notes note with ⟨same, -⟩ | ⟨same, -⟩
  · rw [same]
    exact List.Subset.refl _
  · rw [same, List.map_append]
    exact List.subset_append_left _ _

theorem nullifierRows_pool (sound : db.Sound) {other : String} {stored stored' : NullifierRow}
    (member : stored ∈ db.nullifierRows pool) (member' : stored' ∈ db.nullifierRows other)
    (same : stored.nullifierId = stored'.nullifierId) : pool = other := by
  obtain ⟨⟨ev, id⟩, kept, rfl⟩ := List.mem_map.mp member
  obtain ⟨⟨ev', id'⟩, kept', rfl⟩ := List.mem_map.mp member'
  obtain ⟨inside, emitted⟩ := List.mem_filter.mp kept
  obtain ⟨inside', emitted'⟩ := List.mem_filter.mp kept'
  have here := (List.mem_zipIdx_iff_le_and_getElem?_sub.mp inside).2
  have here' := (List.mem_zipIdx_iff_le_and_getElem?_sub.mp inside').2
  rw [show id = id' from same, here', Option.some.injEq] at here
  exact sound.emittedBy_inj emitted (here ▸ emitted')

theorem poolRows_of_commitment (sound : db.Sound) {other : String} {row' : PoolCommitmentRow}
    (member : row ∈ db.poolRows pool) (member' : row' ∈ db.poolRows other) (same : row.commitment = row'.commitment) :
    row.commitmentId = row'.commitmentId := by
  obtain ⟨first, ev, here, -, isRow⟩ := mem_poolRows member
  obtain ⟨first', ev', here', -, isRow'⟩ := mem_poolRows member'
  have keys : (db.poolCommitments.map (·.commitment))[row.commitmentId - 1]? =
      (db.poolCommitments.map (·.commitment))[row'.commitmentId - 1]? := by
    rw [List.getElem?_map, List.getElem?_map, here, here', Option.map_some, Option.map_some]
    rw [isRow, isRow'] at same
    exact congrArg some same
  obtain ⟨inside, -⟩ := List.getElem?_eq_some_iff.mp here
  have positions := (List.getElem?_inj (by simpa using inside) sound.commitments).mp keys
  omega

/-- Where a note is refused, its commitment has a note already: a note with the same nullifier is of the same pool. -/
theorem Statuses.covered (statuses : Statuses db derive accounts passed notes) (sound : db.Sound)
    (apart : ExpectedApart db derive accounts) (known : account ∈ accounts) (member : row ∈ db.poolRows pool)
    (opened : derive account row = .ok (some derived)) :
    row.commitmentId ∈ (insertUserNote notes (userNote db pool account row derived)).map (·.commitmentId) := by
  rcases insertUserNote_cases notes (userNote db pool account row derived) with ⟨same, taken⟩ | ⟨same, -⟩
  · rw [same]
    rcases taken with id | commitmentId | ⟨spent, nullifierId⟩
    · obtain ⟨note, inside, isId⟩ := List.mem_map.mp id
      obtain ⟨other, marked⟩ := statuses.marked note inside
      obtain ⟨row', member', -, -, -, -, commitment, number, -⟩ := marked.source
      rw [poolRows_of_commitment sound member member' (isId.symm.trans commitment), ← number]
      exact List.mem_map_of_mem inside
    · exact commitmentId
    · obtain ⟨note, inside, isId⟩ := List.mem_map.mp nullifierId
      obtain ⟨id, marks⟩ := Option.ne_none_iff_exists'.mp spent
      obtain ⟨other, marked⟩ := statuses.marked note inside
      obtain ⟨stored, there, sameId, expects⟩ := marked.stored id (isId.trans marks)
      obtain ⟨stored', there', sameId', expects'⟩ := nullifierId_spec marks
      obtain rfl := nullifierRows_pool sound there there' (sameId.trans sameId'.symm)
      have value := nullifierRows_inj there there' (sameId.trans sameId'.symm)
      obtain ⟨row', member', account', known', derived', opened', -, number, -, expected⟩ := marked.source
      have equal := apart other row' member' row member account' known' account known derived' derived opened' opened
        (by rw [← expected, ← expects, value, expects'])
      rw [← equal, ← number]
      exact List.mem_map_of_mem inside
  · rw [same]
    simp [userNote]

theorem Followed.mono {more : List UserNote} (followed : Followed derive notes account row)
    (kept : notes.map (·.commitmentId) ⊆ more.map (·.commitmentId)) : Followed derive more account row := by
  obtain ⟨result, returned, noted⟩ := followed
  exact ⟨result, returned, fun found => kept (noted found)⟩

theorem scanRows_statuses (sound : db.Sound) (statuses : Statuses db derive accounts passed notes)
    (known : account ∈ accounts) {rows : List PoolCommitmentRow} (members : rows ⊆ db.poolRows pool) :
    Ends True (rows.foldlM (scanRow db derive pool account) notes) fun next =>
      Statuses db derive accounts passed next ∧ notes.map (·.commitmentId) ⊆ next.map (·.commitmentId) ∧
        (ExpectedApart db derive accounts → ∀ row ∈ rows, Followed derive next account row) := by
  refine Ends.foldlM (fun done next => Statuses db derive accounts passed next ∧
    notes.map (·.commitmentId) ⊆ next.map (·.commitmentId) ∧
    (ExpectedApart db derive accounts → ∀ row ∈ done, Followed derive next account row))
    ⟨statuses, List.Subset.refl _, by simp⟩ ?_
  intro done row rest before split ⟨statusesBefore, kept, followed⟩
  have member : row ∈ db.poolRows pool := members (by simp [split])
  unfold scanRow
  cases returned : derive account row with
  | error e => exact trivial
  | ok result =>
    cases result with
    | none =>
      refine ⟨statusesBefore, kept, fun apart other inside => ?_⟩
      rcases List.mem_append.mp inside with older | new
      · exact followed apart other older
      · rw [List.mem_singleton.mp new]
        exact ⟨none, returned, fun found => absurd rfl found⟩
    | some derived =>
      have more := insertUserNote_kept before (userNote db pool account row derived)
      refine ⟨statusesBefore.insert known member returned, List.Subset.trans kept more, fun apart other inside => ?_⟩
      rcases List.mem_append.mp inside with older | new
      · exact (followed apart other older).mono more
      · rw [List.mem_singleton.mp new]
        exact ⟨some derived, returned, fun _ => statusesBefore.covered sound apart known member returned⟩

end Insert

section Scan

variable {db : Database} {derive : DeriveNoteFn} {accounts : List AccountKeys} {st : UserState} {pool : String}

theorem scanAccount_inStep (sound : db.Sound) (ids : IdsApart accounts) {turn : Turn}
    (inStep : InStep db derive accounts turn.state) {account : AccountKeys} (mine : account ∈ accounts) :
    Ends True (scanAccount db derive pool turn account) fun next => InStep db derive accounts next.state ∧
      (next = turn ∧ (turn.poolQuota ≠ 0 → AtEnd db pool account turn.state) ∨ next.progressedThisCycle = true) := by
  unfold scanAccount
  split
  · rename_i spent
    exact ⟨inStep, Or.inl ⟨rfl, fun left => absurd spent left⟩⟩
  · set last := turn.state.accountCommitmentScan pool account.accountId with isLast
    set rows := Cursor.fetch (·.commitmentId) (db.poolRows pool) last (min turn.poolQuota accountChunk)
      with isRows
    change Ends _ (if rows.isEmpty then _ else _) _
    by_cases idle : rows = []
    · rw [if_pos (List.isEmpty_iff.mpr idle)]
      refine ⟨inStep, Or.inl ⟨rfl, fun left row member => ?_⟩⟩
      have positive : 1 ≤ min turn.poolQuota accountChunk := by
        unfold accountChunk
        omega
      exact Cursor.le_of_fetch_nil positive idle row member
    · rw [if_neg (mt List.isEmpty_iff.mp idle)]
      have members : rows ⊆ db.poolRows pool := fun _ member => (Cursor.mem_fetch member).1
      refine (scanRows_statuses sound inStep.statuses mine members).bind
        fun notes ⟨statuses, kept, followed⟩ => Ends.ret ⟨?_, Or.inr rfl⟩
      refine ⟨statuses, ?_, ?_, inStep.nullifierBound, ?_⟩
      · intro apart p other known row member behind
        unfold UserState.setCommitmentScan at behind
        dsimp only at behind
        split at behind
        · rename_i here
          obtain ⟨rfl, sameId⟩ := here
          obtain rfl := ids other known account mine sameId
          rcases Cursor.behind_advance poolRows_sorted member behind with before | inside
          · exact (inStep.followed apart p other mine row member before).mono kept
          · exact followed apart row inside
        · exact (inStep.followed apart p other known row member behind).mono kept
      · intro p id
        unfold UserState.setCommitmentScan
        dsimp only
        split
        · exact Cursor.advance_le (inStep.commitmentBound pool account.accountId) fun row member =>
            poolRows_le (members member)
        · exact inStep.commitmentBound p id
      · intro p id absent
        unfold UserState.setCommitmentScan
        dsimp only
        rw [if_neg fun here => absent account mine here.2.symm]
        exact inStep.newcomers p id absent

/-- One cycle over the accounts: it leaves everything as it was only where all of them are at the end. -/
theorem cycle_inStep (sound : db.Sound) (ids : IdsApart accounts) (inStep : InStep db derive accounts st)
    {poolQuota : Nat} (positive : poolQuota ≠ 0) :
    Ends True (accounts.foldlM (scanAccount db derive pool) ⟨st, poolQuota, false⟩) fun (turn : Turn) =>
      InStep db derive accounts turn.state ∧
        (turn = ⟨st, poolQuota, false⟩ ∧ (∀ account ∈ accounts, AtEnd db pool account st) ∨
          turn.progressedThisCycle = true) := by
  refine Ends.foldlM (fun (done : List AccountKeys) (turn : Turn) => InStep db derive accounts turn.state ∧
    (turn = ⟨st, poolQuota, false⟩ ∧ (∀ account ∈ done, AtEnd db pool account st) ∨ turn.progressedThisCycle = true))
    ⟨inStep, Or.inl ⟨rfl, by simp⟩⟩ ?_
  intro done account rest turn split ⟨before, progress⟩
  have mine : account ∈ accounts := by simp [split]
  refine (scanAccount_inStep sound ids before mine).mono fun next ⟨after, outcome⟩ => ⟨after, ?_⟩
  rcases outcome with ⟨rfl, atEnd⟩ | moved
  · rcases progress with ⟨rfl, idle⟩ | progressed
    · refine Or.inl ⟨rfl, fun other inside => ?_⟩
      rcases List.mem_append.mp inside with older | new
      · exact idle other older
      · rw [List.mem_singleton.mp new]
        exact atEnd positive
    · exact Or.inr progressed
  · exact Or.inr moved

/-- What a transaction of a scan leaves: where it reports no work it has changed nothing, and the scan is done. -/
def Reports (db : Database) (derive : DeriveNoteFn) (accounts : List AccountKeys) (done : UserState → Prop)
    (st : UserState) (did : Bool) (last : UserState) : Prop :=
  InStep db derive accounts last ∧ (did = false → last = st ∧ done st)

theorem scanCycles_inStep (sound : db.Sound) (ids : IdsApart accounts) (inStep : InStep db derive accounts st)
    (cycles poolQuota : Nat) :
    Ends True (scanCycles db derive pool accounts cycles poolQuota st) fun result =>
      Reports db derive accounts (fun st => cycles ≠ 0 → poolQuota ≠ 0 → ∀ account ∈ accounts, AtEnd db pool account st)
        st result.1 result.2 := by
  induction cycles generalizing poolQuota st with
  | zero => exact ⟨inStep, fun _ => ⟨rfl, fun some => absurd rfl some⟩⟩
  | succ cycles ih =>
    unfold scanCycles
    split
    · rename_i spent
      exact ⟨inStep, fun _ => ⟨rfl, fun _ left => absurd spent left⟩⟩
    · rename_i left
      refine (cycle_inStep sound ids inStep left).bind fun turn turned => ?_
      obtain ⟨after, ⟨rfl, idle⟩ | progressed⟩ := turned
      · exact Ends.ret ⟨after, fun _ => ⟨rfl, fun _ _ => idle⟩⟩
      · rw [if_pos progressed]
        refine (ih after turn.poolQuota).bind fun result rest => Ends.ret ⟨rest.1, ?_⟩
        exact fun no => absurd no (by simp)

theorem transactions_inStep {α : Type} {f : α → UserState → Except ScanError (Bool × UserState)} {items : List α}
    {done : α → UserState → Prop}
    (step : ∀ item ∈ items, ∀ st, InStep db derive accounts st →
      Ends True (f item st) fun result => Reports db derive accounts (done item) st result.1 result.2)
    (inStep : InStep db derive accounts st) :
    InStep db derive accounts (transactions f items st).2 ∧
      ((transactions f items st).1 = .ok false → (transactions f items st).2 = st ∧ ∀ item ∈ items, done item st) := by
  induction items generalizing st with
  | nil => exact ⟨inStep, fun _ => ⟨rfl, by simp⟩⟩
  | cons item rest ih =>
    have first := step item List.mem_cons_self st inStep
    unfold transactions
    cases returned : f item st with
    | error e => exact ⟨inStep, fun no => by cases no⟩
    | ok result =>
      obtain ⟨did, next⟩ := result
      rw [returned] at first
      obtain ⟨after, report⟩ : Reports db derive accounts (done item) st did next := first
      obtain ⟨last, reports⟩ := ih (fun other inside => step other (List.mem_cons_of_mem item inside)) after
      dsimp only
      generalize transactions f rest next = result at last reports ⊢
      obtain ⟨outcome, final⟩ := result
      cases outcome with
      | error e => exact ⟨last, fun no => by cases no⟩
      | ok more =>
        refine ⟨last, fun no => ?_⟩
        obtain ⟨here, there⟩ := Bool.or_eq_false_iff.mp (Except.ok.inj no)
        obtain ⟨same, doneHere⟩ := report here
        obtain ⟨same', doneRest⟩ := reports (by rw [there])
        exact ⟨same'.trans same, List.forall_mem_cons.mpr ⟨doneHere, fun item inside => same ▸ doneRest item inside⟩⟩

theorem scanCommitments_inStep (sound : db.Sound) (ids : IdsApart accounts) (inStep : InStep db derive accounts st)
    (limit : Nat) :
    InStep db derive accounts (scanCommitmentsForUserNotes db derive accounts limit st).2 ∧
      ((scanCommitmentsForUserNotes db derive accounts limit st).1 = .ok false →
        (scanCommitmentsForUserNotes db derive accounts limit st).2 = st ∧
          (1 ≤ limit → ∀ pool ∈ db.commitmentPools, ∀ account ∈ accounts, AtEnd db pool account st)) := by
  unfold scanCommitmentsForUserNotes
  split
  · rename_i idle
    refine ⟨inStep, fun _ => ⟨rfl, fun positive pool _ account mine => ?_⟩⟩
    have nobody : accounts = [] := List.isEmpty_iff.mp (idle.resolve_right (by omega))
    rw [nobody] at mine
    cases mine
  · split
    · rename_i idle
      refine ⟨inStep, fun _ => ⟨rfl, fun _ pool member => ?_⟩⟩
      rw [List.isEmpty_iff.mp idle] at member
      cases member
    · obtain ⟨length, shares⟩ := quotas_spec limit db.commitmentPools.length
      have step : ∀ entry ∈ db.commitmentPools.zip (quotas limit db.commitmentPools.length), ∀ st,
          InStep db derive accounts st →
          Ends True (if entry.2 = 0 then .ok (false, st) else scanPool db derive entry.1 accounts entry.2 st)
            fun result => Reports db derive accounts (fun st => ∀ account ∈ accounts, AtEnd db entry.1 account st) st
              result.1 result.2 := by
        intro entry member st before
        have busy := shares entry.2 (List.of_mem_zip member).2
        rw [if_neg busy]
        refine (scanCycles_inStep sound ids before entry.2 entry.2).mono fun result ⟨last, report⟩ => ?_
        exact ⟨last, fun no => ⟨(report no).1, (report no).2 busy busy⟩⟩
      obtain ⟨after, reports⟩ := transactions_inStep step inStep
      refine ⟨after, fun no => ⟨(reports no).1, fun _ pool member => ?_⟩⟩
      have paired : pool ∈ (db.commitmentPools.zip (quotas limit db.commitmentPools.length)).map Prod.fst := by
        rw [List.map_fst_zip length.ge]
        exact member
      obtain ⟨entry, inside, rfl⟩ := List.mem_map.mp paired
      exact (reports no).2 entry inside

end Scan

section Reconcile

variable {db : Database} {derive : DeriveNoteFn} {accounts : List AccountKeys} {st : UserState} {pool : String}
  {passed : String → Nat} {notes : List UserNote}

theorem poolRows_pool (sound : db.Sound) {other : String} {row row' : PoolCommitmentRow}
    (member : row ∈ db.poolRows pool)
    (member' : row' ∈ db.poolRows other) (same : row.commitmentId = row'.commitmentId) : pool = other := by
  obtain ⟨-, ev, here, emitted, -⟩ := mem_poolRows member
  obtain ⟨-, ev', here', emitted', -⟩ := mem_poolRows member'
  rw [same, here', Option.some.injEq] at here
  exact sound.emittedBy_inj emitted (here ▸ emitted')

theorem Marked.spendNote (sound : db.Sound) {note : UserNote} {other : String} {row : NullifierRow}
    (marked : Marked db derive accounts passed other note) (member : row ∈ db.nullifierRows pool) :
    Marked db derive accounts passed other (LocalState.spendNote db pool row note) ∧
      (other = pool → note.expectedNullifier = row.nullifier →
        (LocalState.spendNote db pool row note).nullifierId ≠ none) ∧
      (note.nullifierId ≠ none → (LocalState.spendNote db pool row note).nullifierId ≠ none) := by
  obtain ⟨source, member', account, known, derived, opened, commitment, number, owner, expected⟩ := marked.source
  unfold LocalState.spendNote
  split
  · rename_i hit
    obtain ⟨-, expects, there⟩ := hit
    obtain ⟨row', inside, same⟩ := List.any_eq_true.mp there
    obtain rfl : pool = other := poolRows_pool sound inside member' ((of_decide_eq_true same).trans number)
    refine ⟨⟨⟨source, member', account, known, derived, opened, commitment, number, owner, expected⟩, ?_, ?_⟩, ?_, ?_⟩
    · intro id isId
      exact ⟨row, member, Option.some.inj isId, expects.symm⟩
    · exact fun _ _ _ _ => Option.some_ne_none _
    · exact fun _ _ => Option.some_ne_none _
    · exact fun _ => Option.some_ne_none _
  · rename_i miss
    refine ⟨marked, fun here expects unmarked => miss ⟨unmarked, expects, ?_⟩, id⟩
    subst here
    exact List.any_eq_true.mpr ⟨source, member', decide_eq_true number.symm⟩

theorem reconcileRows_statuses (sound : db.Sound) (statuses : Statuses db derive accounts passed notes)
    {rows : List NullifierRow} (members : rows ⊆ db.nullifierRows pool) :
    Ends True (rows.foldlM (reconcileNullifier db pool) notes) fun next =>
      (∀ note ∈ next, ∃ other, Marked db derive accounts passed other note ∧
        (other = pool → ∀ row ∈ rows, note.expectedNullifier = row.nullifier → note.nullifierId ≠ none)) ∧
      next.map (·.commitmentId) = notes.map (·.commitmentId) := by
  refine Ends.foldlM (fun (done : List NullifierRow) (next : List UserNote) =>
    (∀ note ∈ next, ∃ other, Marked db derive accounts passed other note ∧
      (other = pool → ∀ row ∈ done, note.expectedNullifier = row.nullifier → note.nullifierId ≠ none)) ∧
    next.map (·.commitmentId) = notes.map (·.commitmentId)) ⟨fun note inside => ?_, rfl⟩ ?_
  · obtain ⟨other, marked⟩ := statuses.marked note inside
    exact ⟨other, marked, by simp⟩
  · intro done row rest before split ⟨marks, same⟩
    have member : row ∈ db.nullifierRows pool := members (by simp [split])
    unfold reconcileNullifier
    dsimp only
    split
    · refine ⟨fun note inside => ?_, ?_⟩
      · obtain ⟨old, there, rfl⟩ := List.mem_map.mp inside
        obtain ⟨other, marked, earlier⟩ := marks old there
        obtain ⟨after, hits, stays⟩ := marked.spendNote sound member
        refine ⟨other, after, fun here row' inside' expects => ?_⟩
        rw [(spendNote_keeps db pool row old).2.2] at expects
        rcases List.mem_append.mp inside' with older | new
        · exact stays (earlier here row' older expects)
        · exact hits here (by rw [expects, List.mem_singleton.mp new])
      · rw [← same, List.map_map]
        exact List.map_congr_left fun note _ => (spendNote_keeps db pool row note).2.1
    · exact trivial

theorem setNullifierScan_self (st : UserState) (pool : String) :
    st.setNullifierScan pool (st.nullifierScanState pool) = st := by
  obtain ⟨notes, scan, passed⟩ := st
  unfold UserState.setNullifierScan
  congr 1
  funext other
  dsimp only
  split
  · rename_i here
    rw [here]
  · rfl

theorem reconcilePool_inStep (sound : db.Sound) (inStep : InStep db derive accounts st) (limit : Nat) :
    Ends True (reconcilePool db limit pool st) fun result =>
      Reports db derive accounts
        (fun st => 1 ≤ limit → ∀ row ∈ db.nullifierRows pool, row.nullifierId ≤ st.nullifierScanState pool)
        st result.1 result.2 := by
  unfold reconcilePool
  set last := st.nullifierScanState pool with isLast
  set rows := Cursor.fetch (·.nullifierId) (db.nullifierRows pool) last limit with isRows
  have members : rows ⊆ db.nullifierRows pool := fun _ member => (Cursor.mem_fetch member).1
  by_cases idle : rows = []
  · have behind : 1 ≤ limit → ∀ row ∈ db.nullifierRows pool, row.nullifierId ≤ st.nullifierScanState pool :=
      fun positive => Cursor.le_of_fetch_nil positive idle
    have unchanged : st.setNullifierScan pool last = st := setNullifierScan_self st pool
    change Ends True (rows.foldlM (reconcileNullifier db pool) st.userNotes >>= fun notes => pure (!rows.isEmpty,
      ({ st with userNotes := notes } : UserState).setNullifierScan pool (Cursor.advance (·.nullifierId) last rows))) _
    rw [idle]
    exact Ends.ret ⟨by rw [Cursor.advance, List.foldl_nil, unchanged]; exact inStep,
      fun _ => ⟨by rw [Cursor.advance, List.foldl_nil, unchanged], behind⟩⟩
  refine (reconcileRows_statuses sound inStep.statuses members).bind fun notes ⟨marks, same⟩ => Ends.ret ?_
  set reached := Cursor.advance (·.nullifierId) last rows with isReached
  refine ⟨⟨⟨?_, ?_⟩, ?_, inStep.commitmentBound, ?_, inStep.newcomers⟩, ?_⟩
  · intro note inside
    obtain ⟨other, marked, chunk⟩ := marks note inside
    refine ⟨other, marked.source, marked.stored, fun row member expects behind => ?_⟩
    unfold UserState.setNullifierScan at behind
    dsimp only at behind
    split at behind
    · rename_i here
      subst here
      have nullifierRows_sorted : (db.nullifierRows other).Pairwise fun a b => a.nullifierId < b.nullifierId :=
        List.pairwise_map.mpr ((zipIdx_sorted db.poolNullifiers 1).sublist List.filter_sublist)
      rcases Cursor.behind_advance nullifierRows_sorted member behind with before | inside'
      · exact marked.passed row member expects before
      · exact chunk rfl row inside' expects.symm
    · exact marked.passed row member expects behind
  · change (notes.map (·.commitmentId)).Nodup
    rw [same]
    exact inStep.statuses.commitmentIds
  · intro apart p account mine row member behind
    obtain ⟨result, returned, noted⟩ := inStep.followed apart p account mine row member behind
    refine ⟨result, returned, fun found => ?_⟩
    change _ ∈ notes.map (·.commitmentId)
    rw [same]
    exact noted found
  · intro p
    unfold UserState.setNullifierScan
    dsimp only
    split
    · exact Cursor.advance_le (inStep.nullifierBound pool) fun row member => nullifierRows_le (members member)
    · exact inStep.nullifierBound p
  · intro no
    exact absurd no (by simpa using idle)

theorem reconcileNullifiers_inStep (sound : db.Sound) (inStep : InStep db derive accounts st) (limit : Nat) :
    InStep db derive accounts (reconcileNullifiers db limit st).2 ∧
      ((reconcileNullifiers db limit st).1 = .ok false → (reconcileNullifiers db limit st).2 = st ∧
        (1 ≤ limit → ∀ pool ∈ db.nullifierPools, ∀ row ∈ db.nullifierRows pool,
          row.nullifierId ≤ st.nullifierScanState pool)) := by
  unfold reconcileNullifiers
  split
  · exact ⟨inStep, fun _ => ⟨rfl, fun positive => by omega⟩⟩
  · have step : ∀ pool ∈ db.nullifierPools, ∀ st, InStep db derive accounts st →
        Ends True (reconcilePool db limit pool st) fun result => Reports db derive accounts
          (fun st => 1 ≤ limit → ∀ row ∈ db.nullifierRows pool, row.nullifierId ≤ st.nullifierScanState pool) st
          result.1 result.2 :=
      fun pool _ st before => reconcilePool_inStep sound before limit
    obtain ⟨after, reports⟩ := transactions_inStep step inStep
    exact ⟨after, fun no => ⟨(reports no).1, fun positive pool member => (reports no).2 pool member positive⟩⟩

end Reconcile

namespace Store

structure Consistent (derive : DeriveNoteFn) (s : Store) : Prop where
  sound : s.db.Sound
  inStep : InStep s.db derive s.accounts s.user

theorem consistent_empty (derive : DeriveNoteFn) : Consistent derive empty := by
  refine ⟨⟨List.nodup_nil, by simp [empty, Database.empty], List.nodup_nil, List.nodup_nil, rfl⟩, ?_⟩
  refine ⟨⟨by simp [empty, UserState.fresh], List.nodup_nil⟩, ?_, fun _ _ => Nat.zero_le _, fun _ => Nat.zero_le _,
    fun _ _ _ => rfl⟩
  intro _ pool account mine
  cases mine

theorem Consistent.act {derive : DeriveNoteFn} {s : Store} (consistent : Consistent derive s) (action : Ingestion) :
    Consistent derive (s.act derive action) := by
  have same_accounts : ∀ account ∈ s.accounts, account ∈ s.accounts ∨
      ∀ other ∈ s.accounts, other.accountId ≠ account.accountId := fun _ => Or.inl
  cases action with
  | saveEvents events =>
    obtain ⟨sound, grown⟩ := consistent.sound.ingest_events events
    exact ⟨sound, consistent.inStep.grown grown (List.Subset.refl _) same_accounts⟩
  | saveCommitments events =>
    obtain ⟨sound, grown⟩ := consistent.sound.ingest_commitments events
    exact ⟨sound, consistent.inStep.grown grown (List.Subset.refl _) same_accounts⟩
  | saveNullifiers events =>
    obtain ⟨sound, grown⟩ := consistent.sound.ingest_nullifiers events
    exact ⟨sound, consistent.inStep.grown grown (List.Subset.refl _) same_accounts⟩
  | addAccount noteKeypair encryptionPrivate =>
    obtain ⟨account, isNew, accounts⟩ := getAccounts_addAccount s.wallet noteKeypair encryptionPrivate
    have larger : (s.act derive (.addAccount noteKeypair encryptionPrivate)).accounts =
        s.accounts ++ [account] := accounts
    refine ⟨consistent.sound, consistent.inStep.grown (Grown.refl _) ?_ ?_⟩
    · rw [larger]
      exact List.subset_append_left _ _
    · rw [larger]
      intro other member
      rcases List.mem_append.mp member with older | new
      · exact Or.inl older
      · refine Or.inr fun old inside => ?_
        have bound := accountId_le inside
        rw [List.mem_singleton.mp new, isNew]
        omega
  | scan totalLimit =>
    exact ⟨consistent.sound, (scanCommitments_inStep consistent.sound
      (accounts_idsApart _) consistent.inStep totalLimit).1⟩
  | reconcile limit =>
    exact ⟨consistent.sound, (reconcileNullifiers_inStep consistent.sound consistent.inStep limit).1⟩

theorem consistent_run (derive : DeriveNoteFn) (actions : List Ingestion) : Consistent derive (run derive actions) := by
  unfold run
  induction actions using List.reverseRecOn with
  | nil => exact consistent_empty derive
  | append_singleton actions action ih =>
    rw [List.foldl_append]
    exact ih.act action

/-- Both scans report that there is nothing left to do. Neither call changes anything then, so that the order of the
two does not matter. -/
structure Quiet (derive : DeriveNoteFn) (s : Store) : Prop where
  scan : ∃ totalLimit, 1 ≤ totalLimit ∧
    (scanCommitmentsForUserNotes s.db derive s.accounts totalLimit s.user).1 = .ok false
  reconcile : ∃ limit, 1 ≤ limit ∧ (reconcileNullifiers s.db limit s.user).1 = .ok false

def StoredFor (s : Store) (pool : String) (nullifier : Fr) : Prop :=
  ∃ stored ∈ s.db.nullifierRows pool, stored.nullifier = nullifier

/-- The stored commitment of a pool that a note was made from. -/
def NoteOf (s : Store) (pool : String) (note : UserNote) : Prop :=
  ∃ row ∈ s.db.poolRows pool, note.commitmentId = row.commitmentId

theorem spent_stored {derive : DeriveNoteFn} {s : Store} (consistent : Consistent derive s) {note : UserNote}
    (member : note ∈ s.user.userNotes) (spent : note.nullifierId ≠ none) :
    ∃ pool, s.NoteOf pool note ∧ s.StoredFor pool note.expectedNullifier := by
  obtain ⟨pool, marked⟩ := consistent.inStep.statuses.marked note member
  obtain ⟨row, inside, -, -, -, -, -, number, -⟩ := marked.source
  obtain ⟨id, isId⟩ := Option.ne_none_iff_exists'.mp spent
  obtain ⟨stored, there, -, expects⟩ := marked.stored id isId
  exact ⟨pool, ⟨row, inside, number⟩, stored, there, expects⟩

end Store

/-- The order of ingestion does not matter: when both scans are done, every stored commitment that an account
opens has one note, of that account, and the note is marked iff its nullifier is stored for its pool. Before that no
note is marked whose nullifier is not stored. -/
theorem spent_status_settles (derive : DeriveNoteFn) (actions : List Ingestion)
    (single : ∀ pool, ∀ row ∈ (Store.run derive actions).db.poolRows pool, ∀ a ∈ (Store.run derive actions).accounts,
      ∀ b ∈ (Store.run derive actions).accounts, ∀ derived derived', derive a row = .ok (some derived) →
        derive b row = .ok (some derived') → a = b)
    (apart : ExpectedApart (Store.run derive actions).db derive (Store.run derive actions).accounts) :
    (∀ before, before <+: actions → ∀ note ∈ (Store.run derive before).user.userNotes, note.nullifierId ≠ none →
      ∃ pool, (Store.run derive before).NoteOf pool note ∧
        (Store.run derive before).StoredFor pool note.expectedNullifier) ∧
    ((Store.run derive actions).Quiet derive → ∀ pool, ∀ row ∈ (Store.run derive actions).db.poolRows pool,
      ∀ account ∈ (Store.run derive actions).accounts, ∀ derived, derive account row = .ok (some derived) →
        ∃ note ∈ (Store.run derive actions).user.userNotes, note.commitmentId = row.commitmentId ∧
          (∀ other ∈ (Store.run derive actions).user.userNotes, other.commitmentId = row.commitmentId → other = note) ∧
          note.accountId = account.accountId ∧ note.expectedNullifier = derived.expectedNullifier ∧
          (note.nullifierId ≠ none ↔ (Store.run derive actions).StoredFor pool derived.expectedNullifier)) := by
  refine ⟨fun before _ note member spent => Store.spent_stored (Store.consistent_run derive before) member spent, ?_⟩
  have consistent := Store.consistent_run derive actions
  generalize Store.run derive actions = s at single apart consistent ⊢
  intro quiet pool row member account mine derived opened
  obtain ⟨totalLimit, positive, scanned⟩ := quiet.scan
  obtain ⟨limit, positive', reconciled⟩ := quiet.reconcile
  obtain ⟨-, scans⟩ := scanCommitments_inStep consistent.sound (accounts_idsApart s.wallet) consistent.inStep totalLimit
  obtain ⟨-, reconciles⟩ := reconcileNullifiers_inStep consistent.sound consistent.inStep limit
  have behind := (scans scanned).2 positive pool (mem_commitmentPools consistent.sound member) account mine row member
  obtain ⟨result, returned, noted⟩ := consistent.inStep.followed apart pool account mine row member behind
  obtain rfl : result = some derived := Except.ok.inj (returned.symm.trans opened)
  obtain ⟨note, inside, number⟩ := List.mem_map.mp (noted (Option.some_ne_none _))
  obtain ⟨pool', marked⟩ := consistent.inStep.statuses.marked note inside
  obtain ⟨row', member', account', mine', derived', opened', -, number', owner, expected⟩ := marked.source
  have same_row := number'.symm.trans number
  obtain rfl := poolRows_pool consistent.sound member' member same_row
  obtain rfl := poolRows_inj member' member same_row
  obtain rfl := single pool' row' member account mine account' mine' derived derived' opened opened'
  obtain rfl : derived = derived' := Option.some.inj (Except.ok.inj (opened.symm.trans opened'))
  refine ⟨note, inside, number, fun other there same => ?_, owner, expected, fun spent => ?_, ?_⟩
  · exact List.inj_on_of_nodup_map consistent.inStep.statuses.commitmentIds there inside (same.trans number.symm)
  · obtain ⟨id, isId⟩ := Option.ne_none_iff_exists'.mp spent
    obtain ⟨stored, there, -, expects⟩ := marked.stored id isId
    exact ⟨stored, there, expects.trans expected⟩
  · rintro ⟨stored, there, expects⟩
    exact marked.passed stored there (expects.trans expected.symm)
      ((reconciles reconciled).2 positive' pool' (mem_nullifierPools consistent.sound there) stored there)

section Sample

def sampleDerive : DeriveNoteFn := fun account _ =>
  .ok (if account.accountId = 1 then some ⟨5, 3, 9⟩ else none)

def sampleIngestion : List Ingestion :=
  [.saveEvents [⟨"n", 1, "pool", [], ""⟩, ⟨"c", 2, "pool", [], ""⟩], .saveNullifiers [⟨"n", 9⟩], .reconcile 8,
    .addAccount ⟨0, 0⟩ [], .saveCommitments [⟨"c", 7, 0, []⟩], .scan 8]

theorem spent_status_settles_sample :
    ∃ note ∈ (Store.run sampleDerive sampleIngestion).user.userNotes,
      note.commitmentId = 1 ∧ note.nullifierId ≠ none := by
  have accounts : (Store.run sampleDerive sampleIngestion).accounts = [⟨1, ⟨0, 0⟩, []⟩] := rfl
  have rows : (Store.run sampleDerive sampleIngestion).db.poolRows "pool" = [⟨1, 7, 0, []⟩] := rfl
  have stored : (Store.run sampleDerive sampleIngestion).db.nullifierRows "pool" = [⟨1, 9⟩] := rfl
  have single : (Store.run sampleDerive sampleIngestion).db.poolCommitments.length = 1 := rfl
  have quiet : (Store.run sampleDerive sampleIngestion).Quiet sampleDerive :=
    ⟨⟨8, by decide, rfl⟩, ⟨8, by decide, rfl⟩⟩
  obtain ⟨note, member, number, -, -, -, status⟩ := (spent_status_settles sampleDerive sampleIngestion
    (by
      intro pool row _ a mine b mine' _ _ _ _
      rw [accounts, List.mem_singleton] at mine mine'
      rw [mine, mine'])
    (by
      intro pool row member row' member' _ _ _ _ _ _ _ _ _
      have first := (mem_poolRows member).1
      have first' := (mem_poolRows member').1
      have last := poolRows_le member
      have last' := poolRows_le member'
      omega)).2 quiet "pool" ⟨1, 7, 0, []⟩ (by rw [rows]; exact List.mem_singleton_self _) ⟨1, ⟨0, 0⟩, []⟩
    (by rw [accounts]; exact List.mem_singleton_self _) ⟨5, 3, 9⟩ rfl
  exact ⟨note, member, number, status.mpr ⟨⟨1, 9⟩, by rw [stored]; exact List.mem_singleton_self _, rfl⟩⟩

end Sample

end PrivatePayments.LocalState
