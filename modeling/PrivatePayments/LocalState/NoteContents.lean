import PrivatePayments.LocalState.SpentStatus

/-!
What the note scan writes into a note: what holds of every note when it is made, and is not about
its status, holds of every note after every call.
-/

namespace PrivatePayments.LocalState
open Bn254 Library

/-- It holds of the notes that the scan makes, and a nullifier that is found does not change it. -/
structure Lasting (db : Database) (derive : DeriveNoteFn) (accounts : List AccountKeys) (P : UserNote → Prop) :
    Prop where
  made : ∀ pool, ∀ row ∈ db.poolRows pool, ∀ account ∈ accounts, ∀ derived, derive account row = .ok (some derived) →
    P (userNote db pool account row derived)
  marked : ∀ note id, P note → P { note with nullifierId := some id }

section Calls

variable {db : Database} {derive : DeriveNoteFn} {accounts : List AccountKeys} {P : UserNote → Prop}
  {notes : List UserNote} {pool : String} {account : AccountKeys} {st : UserState}

theorem forall_insertUserNote (all : ∀ note ∈ notes, P note) {note : UserNote} (holds : P note) :
    ∀ other ∈ insertUserNote notes note, P other := by
  rcases insertUserNote_cases notes note with ⟨same, -⟩ | ⟨same, -⟩
  · rw [same]
    exact all
  · rw [same]
    intro other member
    rcases List.mem_append.mp member with older | new
    · exact all other older
    · rw [List.mem_singleton.mp new]
      exact holds

theorem Lasting.scanRow (lasting : Lasting db derive accounts P) (known : account ∈ accounts) {row : PoolCommitmentRow}
    (member : row ∈ db.poolRows pool) (all : ∀ note ∈ notes, P note) :
    Ends True (scanRow db derive pool account notes row) fun next => ∀ note ∈ next, P note := by
  unfold LocalState.scanRow
  cases opened : derive account row with
  | error e => trivial
  | ok result =>
    cases result with
    | none => exact all
    | some derived => exact forall_insertUserNote all (lasting.made pool row member account known derived opened)

theorem Lasting.scanRows (lasting : Lasting db derive accounts P) (known : account ∈ accounts)
    {rows : List PoolCommitmentRow} (members : rows ⊆ db.poolRows pool) (all : ∀ note ∈ notes, P note) :
    Ends True (rows.foldlM (LocalState.scanRow db derive pool account) notes) fun next => ∀ note ∈ next, P note := by
  refine Ends.foldlM (fun _ next => ∀ note ∈ next, P note) all ?_
  intro done row rest before split holds
  have member : row ∈ db.poolRows pool := members (split ▸ List.mem_append_right _ List.mem_cons_self)
  exact lasting.scanRow known member holds

theorem Lasting.scanAccount (lasting : Lasting db derive accounts P) (known : account ∈ accounts) {turn : Turn}
    (all : ∀ note ∈ turn.state.userNotes, P note) :
    Ends True (scanAccount db derive pool turn account) fun next => ∀ note ∈ next.state.userNotes, P note := by
  unfold LocalState.scanAccount
  split
  · exact all
  · simp only
    split
    · exact all
    · have fetched : Cursor.fetch (·.commitmentId) (db.poolRows pool)
          (turn.state.accountCommitmentScan pool account.accountId) (min turn.poolQuota accountChunk) ⊆
          db.poolRows pool :=
        fun row member => (Cursor.mem_fetch member).1
      exact (lasting.scanRows known fetched all).bind fun next holds => Ends.ret holds

theorem Lasting.scanCycles (lasting : Lasting db derive accounts P) (cycles poolQuota : Nat)
    (all : ∀ note ∈ st.userNotes, P note) :
    Ends True (scanCycles db derive pool accounts cycles poolQuota st) fun result =>
      ∀ note ∈ result.2.userNotes, P note := by
  induction cycles generalizing poolQuota st with
  | zero => exact all
  | succ cycles ih =>
    unfold LocalState.scanCycles
    split
    · exact all
    · have cycle : Ends True (accounts.foldlM (LocalState.scanAccount db derive pool) ⟨st, poolQuota, false⟩)
          fun turn => ∀ note ∈ turn.state.userNotes, P note := by
        refine Ends.foldlM (fun _ (turn : Turn) => ∀ note ∈ turn.state.userNotes, P note) all ?_
        intro done account rest turn split holds
        exact lasting.scanAccount (split ▸ List.mem_append_right _ List.mem_cons_self) holds
      refine cycle.bind fun turn holds => ?_
      split
      · exact (ih turn.poolQuota holds).bind fun result after => Ends.ret after
      · exact Ends.ret holds

theorem forall_transactions {α : Type} {f : α → UserState → Except ScanError (Bool × UserState)} {items : List α}
    (step : ∀ item ∈ items, ∀ before : UserState, (∀ note ∈ before.userNotes, P note) →
      Ends True (f item before) fun result => ∀ note ∈ result.2.userNotes, P note)
    (all : ∀ note ∈ st.userNotes, P note) : ∀ note ∈ (transactions f items st).2.userNotes, P note := by
  induction items generalizing st with
  | nil => exact all
  | cons item rest ih =>
    rw [List.forall_mem_cons] at step
    have first := step.1 st all
    unfold transactions
    cases returned : f item st with
    | error e => exact all
    | ok result =>
      rw [returned] at first
      have later := ih step.2 first
      cases rested : transactions f rest result.2 with
      | mk outcome last =>
        rw [rested] at later
        cases outcome with
        | error e =>
          simp only [rested]
          exact later
        | ok more =>
          simp only [rested]
          exact later

theorem Lasting.scanCommitments (lasting : Lasting db derive accounts P) (totalLimit : Nat)
    (all : ∀ note ∈ st.userNotes, P note) :
    ∀ note ∈ (scanCommitmentsForUserNotes db derive accounts totalLimit st).2.userNotes, P note := by
  unfold scanCommitmentsForUserNotes
  split
  · exact all
  · split
    · exact all
    · refine forall_transactions (fun entry _ before holds => ?_) all
      split
      · exact holds
      · exact lasting.scanCycles _ _ holds

theorem Lasting.reconcile (lasting : Lasting db derive accounts P) {row : NullifierRow} (all : ∀ note ∈ notes, P note) :
    Ends True (reconcileNullifier db pool notes row) fun next => ∀ note ∈ next, P note := by
  unfold reconcileNullifier
  simp only
  split
  · refine List.forall_mem_map.mpr fun note member => ?_
    unfold spendNote
    split
    · exact lasting.marked note row.nullifierId (all note member)
    · exact all note member
  · trivial

theorem Lasting.reconcileNullifiers (lasting : Lasting db derive accounts P) (limit : Nat)
    (all : ∀ note ∈ st.userNotes, P note) :
    ∀ note ∈ (reconcileNullifiers db limit st).2.userNotes, P note := by
  unfold LocalState.reconcileNullifiers
  split
  · exact all
  · refine forall_transactions (fun pool _ before holds => ?_) all
    have marked : Ends True ((Cursor.fetch (·.nullifierId) (db.nullifierRows pool)
        (before.nullifierScanState pool) limit).foldlM
        (reconcileNullifier db pool) before.userNotes) fun next => ∀ note ∈ next, P note :=
      Ends.foldlM (fun _ next => ∀ note ∈ next, P note) holds fun _ _ _ _ _ after => lasting.reconcile after
    exact marked.bind fun next after => Ends.ret after

theorem Lasting.processNotes (lasting : Lasting db derive accounts P) (limit : Nat)
    (all : ∀ note ∈ st.userNotes, P note) :
    ∀ note ∈ (processNotes db derive accounts limit st).2.userNotes, P note := by
  have scanned := lasting.scanCommitments limit all
  unfold LocalState.processNotes
  cases result : scanCommitmentsForUserNotes db derive accounts limit st with
  | mk outcome next =>
    rw [result] at scanned
    cases outcome with
    | error e => exact scanned
    | ok did =>
      have reconciled := lasting.reconcileNullifiers limit scanned
      simp only
      cases rested : LocalState.reconcileNullifiers db limit next with
      | mk outcome last =>
        rw [rested] at reconciled
        cases outcome with
        | error e => exact reconciled
        | ok more => exact reconciled

end Calls

end PrivatePayments.LocalState
