import Mathlib.Algebra.Order.BigOperators.Group.List
import PrivatePayments.LocalState.NoteTables
import PrivatePayments.LocalState.Processing

/-!
The calls of `process_notes` come to an end with a note for every output of the local
accounts iff no stored output makes the callback fail.
-/

namespace PrivatePayments.LocalState
open Bn254 Poseidon2 Library

structure Scanned (db : Database) (derive : DeriveNoteFn) (accounts : List AccountKeys) (st : UserState) : Prop where
  noted : Noted db derive accounts st.userNotes
  tried : ∀ pool, ∀ account ∈ accounts, ∀ row ∈ db.poolRows pool,
    row.commitmentId ≤ st.accountCommitmentScan pool account.accountId → Tried derive st.userNotes account row
  commitmentBound : ∀ pool id, st.accountCommitmentScan pool id ≤ db.poolCommitments.length
  nullifierBound : ∀ pool, st.nullifierScanState pool ≤ db.poolNullifiers.length

/-- No cursor went back. -/
structure Later (st next : UserState) : Prop where
  commitments : ∀ pool id, st.accountCommitmentScan pool id ≤ next.accountCommitmentScan pool id
  nullifiers : ∀ pool, st.nullifierScanState pool ≤ next.nullifierScanState pool

theorem Later.refl (st : UserState) : Later st st := ⟨fun _ _ => le_refl _, fun _ => le_refl _⟩

theorem Later.trans {st next last : UserState} (first : Later st next) (second : Later next last) : Later st last :=
  ⟨fun pool id => (first.commitments pool id).trans (second.commitments pool id),
    fun pool => (first.nullifiers pool).trans (second.nullifiers pool)⟩

def cursorSum (db : Database) (accounts : List AccountKeys) (st : UserState) : Nat :=
  (db.contracts.map fun pool =>
    (accounts.map fun account => st.accountCommitmentScan pool account.accountId).sum +
      st.nullifierScanState pool).sum

section Sums

variable {db : Database} {accounts : List AccountKeys} {st next : UserState}

theorem Later.account_sum_le (later : Later st next) (pool : String) :
    (accounts.map fun account => st.accountCommitmentScan pool account.accountId).sum ≤
      (accounts.map fun account => next.accountCommitmentScan pool account.accountId).sum :=
  List.sum_le_sum fun account _ => later.commitments pool account.accountId

theorem Later.cursorSum_le (later : Later st next) : cursorSum db accounts st ≤ cursorSum db accounts next :=
  List.sum_le_sum fun pool _ => Nat.add_le_add (later.account_sum_le pool) (later.nullifiers pool)

theorem Later.cursorSum_lt_of_commitment (later : Later st next) {pool : String} (known : pool ∈ db.contracts)
    {account : AccountKeys} (mine : account ∈ accounts)
    (moved : st.accountCommitmentScan pool account.accountId < next.accountCommitmentScan pool account.accountId) :
    cursorSum db accounts st < cursorSum db accounts next := by
  have strict : (accounts.map fun account => st.accountCommitmentScan pool account.accountId).sum <
      (accounts.map fun account => next.accountCommitmentScan pool account.accountId).sum :=
    List.sum_lt_sum _ _ (fun other _ => later.commitments pool other.accountId) ⟨account, mine, moved⟩
  exact List.sum_lt_sum _ _
    (fun other _ => Nat.add_le_add (later.account_sum_le other) (later.nullifiers other))
    ⟨pool, known, Nat.add_lt_add_of_lt_of_le strict (later.nullifiers pool)⟩

theorem Later.cursorSum_lt_of_nullifier (later : Later st next) {pool : String} (known : pool ∈ db.contracts)
    (moved : st.nullifierScanState pool < next.nullifierScanState pool) :
    cursorSum db accounts st < cursorSum db accounts next :=
  List.sum_lt_sum _ _
    (fun other _ => Nat.add_le_add (later.account_sum_le other) (later.nullifiers other))
    ⟨pool, known, Nat.add_lt_add_of_le_of_lt (later.account_sum_le pool) moved⟩

theorem Scanned.cursorSum_le {derive : DeriveNoteFn} (scanned : Scanned db derive accounts st) :
    cursorSum db accounts st ≤
      db.contracts.length * (accounts.length * db.poolCommitments.length + db.poolNullifiers.length) := by
  have each (pool : String) :
      (accounts.map fun account => st.accountCommitmentScan pool account.accountId).sum ≤
        accounts.length * db.poolCommitments.length := by
    have bound := List.sum_le_card_nsmul
      (accounts.map fun account => st.accountCommitmentScan pool account.accountId)
      db.poolCommitments.length (by
        intro cursor member
        obtain ⟨account, -, rfl⟩ := List.mem_map.mp member
        exact scanned.commitmentBound pool account.accountId)
    simpa using bound
  have bound := List.sum_le_card_nsmul
    (db.contracts.map fun pool =>
      (accounts.map fun account => st.accountCommitmentScan pool account.accountId).sum +
        st.nullifierScanState pool)
    (accounts.length * db.poolCommitments.length + db.poolNullifiers.length) (by
      intro sum member
      obtain ⟨pool, -, rfl⟩ := List.mem_map.mp member
      exact Nat.add_le_add (each pool) (scanned.nullifierBound pool))
  simpa [cursorSum] using bound

end Sums

/-- What a part of a call leaves behind: where it reports work a cursor has moved, and where it
reports none it is done. -/
structure Round (db : Database) (derive : DeriveNoteFn) (accounts : List AccountKeys) (done : UserState → Prop)
    (st : UserState) (did : Bool) (last : UserState) : Prop where
  scanned : Scanned db derive accounts last
  later : Later st last
  moved : did = true → cursorSum db accounts st < cursorSum db accounts last
  rest : did = false → done last

/-- The cursor of an account is behind every commitment of the pool. -/
def AtEnd (db : Database) (pool : String) (account : AccountKeys) (st : UserState) : Prop :=
  ∀ row ∈ db.poolRows pool, row.commitmentId ≤ st.accountCommitmentScan pool account.accountId

theorem AtEnd.later {db : Database} {pool : String} {account : AccountKeys} {st next : UserState}
    (atEnd : AtEnd db pool account st) (later : Later st next) : AtEnd db pool account next :=
  fun row member => (atEnd row member).trans (later.commitments pool account.accountId)

/-- What the scan rests on: the notes of different commitments expect different nullifiers, and an
account id stands for one account. -/
structure Scannable (db : Database) (derive : DeriveNoteFn) (accounts : List AccountKeys) : Prop where
  apart : NullifiersApart db derive accounts
  accountIds : ∀ a ∈ accounts, ∀ b ∈ accounts, a.accountId = b.accountId → a = b

section Scan

variable {db : Database} {derive : DeriveNoteFn} {accounts : List AccountKeys} {st : UserState} {pool : String}

theorem scanned_fresh : Scanned db derive accounts UserState.fresh := by
  refine ⟨⟨by simp [UserState.fresh], by simp [UserState.fresh]⟩, ?_, fun _ _ => Nat.zero_le _,
    fun _ => Nat.zero_le _⟩
  intro pool account known row member behind
  have first := (mem_poolRows member).1
  have zero : row.commitmentId ≤ 0 := behind
  omega

theorem scanAccount_ends (sound : Scannable db derive accounts) {turn : Turn}
    (scanned : Scanned db derive accounts turn.state) (known : pool ∈ db.contracts)
    {account : AccountKeys} (mine : account ∈ accounts) :
    Ends (Blocked db derive accounts) (scanAccount db derive pool turn account) fun next =>
      Scanned db derive accounts next.state ∧ Later turn.state next.state ∧
        (next = turn ∧ (turn.poolQuota ≠ 0 → AtEnd db pool account turn.state) ∨
          next.progressedThisCycle = true ∧
            cursorSum db accounts turn.state < cursorSum db accounts next.state) := by
  unfold scanAccount
  split
  · rename_i spent
    exact ⟨scanned, Later.refl _, Or.inl ⟨rfl, fun left => absurd spent left⟩⟩
  · rename_i left
    set last := turn.state.accountCommitmentScan pool account.accountId with isLast
    set rows := Cursor.fetch (·.commitmentId) (db.poolRows pool) last (min turn.poolQuota accountChunk)
      with isRows
    change Ends _ (if rows.isEmpty then _ else _) _
    by_cases idle : rows = []
    · rw [if_pos (List.isEmpty_iff.mpr idle)]
      refine ⟨scanned, Later.refl _, Or.inl ⟨rfl, fun _ row member => ?_⟩⟩
      have positive : 1 ≤ min turn.poolQuota accountChunk := by
        unfold accountChunk
        omega
      exact Cursor.le_of_fetch_nil positive idle row member
    · rw [if_neg (mt List.isEmpty_iff.mp idle)]
      have members : rows ⊆ db.poolRows pool := fun _ member => (Cursor.mem_fetch member).1
      refine (scanRows_ends scanned.noted sound.apart mine members).bind
        fun notes ⟨noted, kept, tried⟩ => Ends.ret ?_
      set reached := Cursor.advance (·.commitmentId) last rows with isReached
      have forward : last < reached := Cursor.lt_advance idle
      have later : Later turn.state
          ({ turn.state with userNotes := notes }.setCommitmentScan pool account.accountId reached) := by
        refine ⟨fun p id => ?_, fun _ => le_refl _⟩
        unfold UserState.setCommitmentScan
        dsimp only
        split
        · rename_i here
          rw [here.1, here.2]
          exact forward.le
        · exact le_refl _
      refine ⟨⟨noted, ?_, ?_, scanned.nullifierBound⟩, later, Or.inr ⟨rfl, ?_⟩⟩
      · intro p other known' row member behind
        unfold UserState.setCommitmentScan at behind
        dsimp only at behind
        split at behind
        · rename_i here
          obtain ⟨samePool, sameId⟩ := here
          have same := sound.accountIds other known' account mine sameId
          rw [samePool] at member
          rw [same]
          rcases Cursor.behind_advance poolRows_sorted member behind with before | inside
          · exact (scanned.tried pool account mine row member before).mono kept
          · exact tried row inside
        · exact (scanned.tried p other known' row member behind).mono kept
      · intro p id
        unfold UserState.setCommitmentScan
        dsimp only
        split
        · exact Cursor.advance_le (scanned.commitmentBound pool account.accountId) fun row member =>
            poolRows_le (members member)
        · exact scanned.commitmentBound p id
      · refine later.cursorSum_lt_of_commitment known mine ?_
        unfold UserState.setCommitmentScan
        dsimp only
        rw [if_pos ⟨rfl, rfl⟩]
        exact forward

theorem cycle_ends (sound : Scannable db derive accounts) (scanned : Scanned db derive accounts st)
    (known : pool ∈ db.contracts) {poolQuota : Nat} (positive : poolQuota ≠ 0) :
    Ends (Blocked db derive accounts) (accounts.foldlM (scanAccount db derive pool) ⟨st, poolQuota, false⟩)
      fun (turn : Turn) => Scanned db derive accounts turn.state ∧ Later st turn.state ∧
        (turn = ⟨st, poolQuota, false⟩ ∧ (∀ account ∈ accounts, AtEnd db pool account st) ∨
          turn.progressedThisCycle = true ∧
            cursorSum db accounts st < cursorSum db accounts turn.state) := by
  refine Ends.foldlM (fun (done : List AccountKeys) (turn : Turn) => Scanned db derive accounts turn.state ∧
    Later st turn.state ∧
    (turn = ⟨st, poolQuota, false⟩ ∧ (∀ account ∈ done, AtEnd db pool account st) ∨
      turn.progressedThisCycle = true ∧ cursorSum db accounts st < cursorSum db accounts turn.state))
    ⟨scanned, Later.refl _, Or.inl ⟨rfl, by simp⟩⟩ ?_
  intro done account rest turn split ⟨before, later, progress⟩
  have mine : account ∈ accounts := by simp [split]
  refine (scanAccount_ends sound before known mine).mono fun next ⟨after, step, outcome⟩ => ?_
  refine ⟨after, later.trans step, ?_⟩
  rcases outcome with ⟨rfl, atEnd⟩ | ⟨moved, more⟩
  · rcases progress with ⟨rfl, idle⟩ | progressed
    · refine Or.inl ⟨rfl, fun other inside => ?_⟩
      rcases List.mem_append.mp inside with older | new
      · exact idle other older
      · rw [List.mem_singleton.mp new]
        exact atEnd positive
    · exact Or.inr progressed
  · exact Or.inr ⟨moved, later.cursorSum_le.trans_lt more⟩

theorem scanCycles_ends (sound : Scannable db derive accounts) (scanned : Scanned db derive accounts st)
    (known : pool ∈ db.contracts) (cycles poolQuota : Nat) :
    Ends (Blocked db derive accounts) (scanCycles db derive pool accounts cycles poolQuota st) fun result =>
      Round db derive accounts
        (fun last => cycles ≠ 0 → poolQuota ≠ 0 → ∀ account ∈ accounts, AtEnd db pool account last)
        st result.1 result.2 := by
  induction cycles generalizing poolQuota st with
  | zero => exact ⟨scanned, Later.refl _, by simp, by simp⟩
  | succ cycles ih =>
    unfold scanCycles
    split
    · rename_i spent
      exact ⟨scanned, Later.refl _, by simp, fun _ _ left => absurd spent left⟩
    · rename_i left
      refine (cycle_ends sound scanned known left).bind fun turn ⟨after, later, outcome⟩ => ?_
      rcases outcome with ⟨rfl, idle⟩ | ⟨progressed, moved⟩
      · exact Ends.ret ⟨after, later, by simp, fun _ _ _ => idle⟩
      · rw [if_pos progressed]
        refine (ih after turn.poolQuota).bind fun result round => Ends.ret ?_
        exact ⟨round.scanned, later.trans round.later,
          fun _ => moved.trans_le round.later.cursorSum_le, by simp⟩

theorem transactions_ends {α : Type} {f : α → UserState → Except ScanError (Bool × UserState)} {items : List α}
    {done : α → UserState → Prop} (stays : ∀ item a b, Later a b → done item a → done item b)
    (step : ∀ item ∈ items, ∀ st, Scanned db derive accounts st →
      Ends (Blocked db derive accounts) (f item st) fun result =>
        Round db derive accounts (done item) st result.1 result.2)
    (scanned : Scanned db derive accounts st) :
    Ends (Blocked db derive accounts) (transactions f items st).1 fun did =>
      Round db derive accounts (fun last => ∀ item ∈ items, done item last) st did
        (transactions f items st).2 := by
  induction items generalizing st with
  | nil => exact ⟨scanned, Later.refl _, by simp, by simp⟩
  | cons item rest ih =>
    have first := step item List.mem_cons_self st scanned
    unfold transactions
    cases returned : f item st with
    | error e =>
      rw [returned] at first
      exact first
    | ok result =>
      obtain ⟨did, next⟩ := result
      rw [returned] at first
      have round : Round db derive accounts (done item) st did next := first
      have others := ih (fun other inside => step other (List.mem_cons_of_mem item inside)) round.scanned
      dsimp only
      generalize transactions f rest next = result at others ⊢
      obtain ⟨outcome, last⟩ := result
      cases outcome with
      | error e => exact others
      | ok more =>
        have tail : Round db derive accounts (fun last => ∀ item ∈ rest, done item last) next more last := others
        refine ⟨tail.scanned, round.later.trans tail.later, ?_, ?_⟩
        · intro some
          rcases Bool.or_eq_true_iff.mp some with here | there
          · exact (round.moved here).trans_le tail.later.cursorSum_le
          · exact round.later.cursorSum_le.trans_lt (tail.moved there)
        · intro no other inside
          obtain ⟨here, there⟩ := Bool.or_eq_false_iff.mp no
          rcases List.mem_cons.mp inside with rfl | inside
          · exact stays other next last tail.later (round.rest here)
          · exact tail.rest there other inside

end Scan

section Quotas

theorem distribute_spec (remainder nextPool : Nat) {shares : List Nat} (positive : ∀ q ∈ shares, q ≠ 0) :
    (distribute remainder nextPool shares).length = shares.length ∧
      ∀ q ∈ distribute remainder nextPool shares, q ≠ 0 := by
  induction remainder generalizing nextPool shares with
  | zero => exact ⟨rfl, positive⟩
  | succ remainder ih =>
    have more : ∀ q ∈ shares.modify nextPool (· + 1), q ≠ 0 := by
      intro q member
      obtain ⟨position, inside, rfl⟩ := List.mem_iff_getElem.mp member
      rw [List.getElem_modify]
      split
      · omega
      · exact positive _ (List.getElem_mem _)
    obtain ⟨length, each⟩ := ih ((nextPool + 1) % shares.length) more
    exact ⟨by rw [distribute, length, List.length_modify], each⟩

theorem quotas_spec (totalLimit poolCount : Nat) :
    (quotas totalLimit poolCount).length = poolCount ∧ ∀ q ∈ quotas totalLimit poolCount, q ≠ 0 := by
  unfold quotas
  set baseQuota := if poolCount ≤ totalLimit then totalLimit / poolCount else 1 with isBase
  have positive : ∀ q ∈ List.replicate poolCount baseQuota, q ≠ 0 := by
    intro q member
    obtain ⟨busy, rfl⟩ := List.mem_replicate.mp member
    rw [isBase]
    split
    · rename_i enough
      exact (Nat.div_pos enough (Nat.pos_of_ne_zero busy)).ne'
    · exact one_ne_zero
  obtain ⟨length, each⟩ := distribute_spec (totalLimit - baseQuota * poolCount) 0 positive
  exact ⟨by rw [length, List.length_replicate], each⟩

end Quotas

section Calls

variable {db : Database} {derive : DeriveNoteFn} {accounts : List AccountKeys} {st : UserState} {limit : Nat}

theorem scanCommitments_ends (sound : Scannable db derive accounts) (scanned : Scanned db derive accounts st)
    (positive : 1 ≤ limit) :
    Ends (Blocked db derive accounts) (scanCommitmentsForUserNotes db derive accounts limit st).1 fun did =>
      Round db derive accounts
        (fun last => ∀ pool ∈ db.commitmentPools, ∀ account ∈ accounts, AtEnd db pool account last)
        st did (scanCommitmentsForUserNotes db derive accounts limit st).2 := by
  unfold scanCommitmentsForUserNotes
  split
  · rename_i none
    have nobody : accounts = [] := List.isEmpty_iff.mp (none.resolve_right (by omega))
    exact ⟨scanned, Later.refl _, by simp, by simp [nobody]⟩
  · split
    · rename_i none
      exact ⟨scanned, Later.refl _, by simp, by simp [List.isEmpty_iff.mp none]⟩
    · obtain ⟨length, shares⟩ := quotas_spec limit db.commitmentPools.length
      have stays (entry : String × Nat) (a b : UserState) (later : Later a b)
          (idle : ∀ account ∈ accounts, AtEnd db entry.1 account a) :
          ∀ account ∈ accounts, AtEnd db entry.1 account b :=
        fun account mine => (idle account mine).later later
      refine (transactions_ends stays ?_ scanned).mono ?_
      · intro entry member st before
        obtain ⟨known, share⟩ := List.of_mem_zip member
        have busy := shares entry.2 share
        rw [if_neg busy]
        refine (scanCycles_ends sound before (List.mem_filter.mp known).1 entry.2 entry.2).mono
          fun result round => ?_
        exact ⟨round.scanned, round.later, round.moved, fun no => round.rest no busy busy⟩
      · intro did round
        refine ⟨round.scanned, round.later, round.moved, fun no pool member => ?_⟩
        have paired : pool ∈ (db.commitmentPools.zip (quotas limit db.commitmentPools.length)).map Prod.fst := by
          rw [List.map_fst_zip length.ge]
          exact member
        obtain ⟨entry, inside, rfl⟩ := List.mem_map.mp paired
        exact round.rest no entry inside

theorem reconcilePool_ends (limit : Nat) (sound : Scannable db derive accounts)
    (scanned : Scanned db derive accounts st) {pool : String} (known : pool ∈ db.contracts) :
    Ends (Blocked db derive accounts) (reconcilePool db limit pool st) fun result =>
      Round db derive accounts (fun _ => True) st result.1 result.2 := by
  unfold reconcilePool
  set last := st.nullifierScanState pool with isLast
  set rows := Cursor.fetch (·.nullifierId) (db.nullifierRows pool) last limit with isRows
  have members : rows ⊆ db.nullifierRows pool := fun _ member => (Cursor.mem_fetch member).1
  have updates : Ends (Blocked db derive accounts) (rows.foldlM (reconcileNullifier db pool) st.userNotes)
      fun next => Noted db derive accounts next ∧ next.map (·.id) = st.userNotes.map (·.id) := by
    refine Ends.foldlM (fun (_ : List NullifierRow) (next : List UserNote) => Noted db derive accounts next ∧
      next.map (·.id) = st.userNotes.map (·.id)) ⟨scanned.noted, rfl⟩ ?_
    intro done row rest before split ⟨noted, same⟩
    have member : row ∈ db.nullifierRows pool := members (by simp [split])
    obtain ⟨next, returned, after, kept⟩ := noted.reconcile sound.apart member
    rw [returned]
    exact ⟨after, kept.trans same⟩
  refine updates.bind fun notes ⟨noted, same⟩ => Ends.ret ?_
  set reached := Cursor.advance (·.nullifierId) last rows with isReached
  have later : Later st ({ st with userNotes := notes }.setNullifierScan pool reached) := by
    refine ⟨fun _ _ => le_refl _, fun p => ?_⟩
    unfold UserState.setNullifierScan
    dsimp only
    split
    · rename_i here
      rw [here]
      exact Cursor.le_advance rows
    · exact le_refl _
  refine ⟨⟨noted, ?_, scanned.commitmentBound, ?_⟩, later, ?_, fun _ => trivial⟩
  · intro p account mine row member behind
    exact (scanned.tried p account mine row member behind).mono (same ▸ List.Subset.refl _)
  · intro p
    unfold UserState.setNullifierScan
    dsimp only
    split
    · exact Cursor.advance_le (scanned.nullifierBound pool) fun row member => nullifierRows_le (members member)
    · exact scanned.nullifierBound p
  · intro some
    have busy : rows ≠ [] := by simpa using some
    refine later.cursorSum_lt_of_nullifier known ?_
    unfold UserState.setNullifierScan
    dsimp only
    rw [if_pos rfl]
    exact Cursor.lt_advance busy

theorem reconcileNullifiers_ends (limit : Nat) (sound : Scannable db derive accounts)
    (scanned : Scanned db derive accounts st) :
    Ends (Blocked db derive accounts) (reconcileNullifiers db limit st).1 fun did =>
      Round db derive accounts (fun _ => True) st did (reconcileNullifiers db limit st).2 := by
  unfold reconcileNullifiers
  split
  · exact ⟨scanned, Later.refl _, by simp, fun _ => trivial⟩
  · have stays (_ : String) (a b : UserState) (_ : Later a b) (done : True) : True := done
    refine (transactions_ends stays ?_ scanned).mono ?_
    · intro pool member st before
      exact reconcilePool_ends limit sound before (List.mem_filter.mp member).1
    · intro did round
      exact ⟨round.scanned, round.later, round.moved, fun _ => trivial⟩

theorem processNotes_ends (sound : Scannable db derive accounts) (scanned : Scanned db derive accounts st)
    (positive : 1 ≤ limit) :
    Ends (Blocked db derive accounts) (processNotes db derive accounts limit st).1 fun did =>
      Round db derive accounts
        (fun last => ∀ pool ∈ db.commitmentPools, ∀ account ∈ accounts, AtEnd db pool account last)
        st did (processNotes db derive accounts limit st).2 := by
  have scan := scanCommitments_ends sound scanned positive
  unfold processNotes
  generalize scanCommitmentsForUserNotes db derive accounts limit st = first at scan ⊢
  obtain ⟨outcome, next⟩ := first
  cases outcome with
  | error e => exact scan
  | ok did =>
    have round : Round db derive accounts _ st did next := scan
    have reconcile := reconcileNullifiers_ends limit sound round.scanned
    dsimp only
    generalize reconcileNullifiers db limit next = second at reconcile ⊢
    obtain ⟨outcome, last⟩ := second
    cases outcome with
    | error e => exact reconcile
    | ok more =>
      have tail : Round db derive accounts _ next more last := reconcile
      refine ⟨tail.scanned, round.later.trans tail.later, ?_, ?_⟩
      · intro some
        rcases Bool.or_eq_true_iff.mp some with here | there
        · exact (round.moved here).trans_le tail.later.cursorSum_le
        · exact round.later.cursorSum_le.trans_lt (tail.moved there)
      · intro no pool member account mine
        exact (round.rest (Bool.or_eq_false_iff.mp no).1 pool member account mine).later tail.later

/-- The calls never fail, and one of them reports no more work and leaves tables with `complete`. -/
def RunsDry (db : Database) (derive : DeriveNoteFn) (accounts : List AccountKeys) (limit : Nat) (st : UserState)
    (complete : List UserNote → Prop) : Prop :=
  (∀ n, ∃ did, (processNotes db derive accounts limit (afterCalls db derive accounts limit n st)).1 = .ok did) ∧
    ∃ n, (processNotes db derive accounts limit (afterCalls db derive accounts limit n st)).1 = .ok false ∧
      complete (processNotes db derive accounts limit (afterCalls db derive accounts limit n st)).2.userNotes

/-- Every commitment of the pools was tried with the keys of every account. -/
def AllTried (db : Database) (derive : DeriveNoteFn) (accounts : List AccountKeys) (notes : List UserNote) : Prop :=
  ∀ pool ∈ db.commitmentPools, ∀ account ∈ accounts, ∀ row ∈ db.poolRows pool, Tried derive notes account row

theorem Round.allTried {did : Bool} {last : UserState}
    (round : Round db derive accounts
      (fun last => ∀ pool ∈ db.commitmentPools, ∀ account ∈ accounts, AtEnd db pool account last) st did last)
    (no : did = false) : AllTried db derive accounts last.userNotes :=
  fun pool member account mine row inside =>
    round.scanned.tried pool account mine row inside (round.rest no pool member account mine row inside)

theorem runsDry_of_free (sound : Scannable db derive accounts) (scanned : Scanned db derive accounts st)
    (positive : 1 ≤ limit) (free : ¬Blocked db derive accounts) :
    RunsDry db derive accounts limit st (AllTried db derive accounts) := by
  constructor
  · intro n
    induction n generalizing st with
    | zero =>
      obtain ⟨did, returned, -⟩ := (processNotes_ends sound scanned positive).returns free
      exact ⟨did, returned⟩
    | succ n ih =>
      obtain ⟨did, -, round⟩ := (processNotes_ends sound scanned positive).returns free
      exact ih round.scanned
  · -- the cursors move until a call reports no more work
    induction left : db.contracts.length *
        (accounts.length * db.poolCommitments.length + db.poolNullifiers.length) - cursorSum db accounts st
        using Nat.strong_induction_on generalizing st with
    | _ size ih =>
      obtain ⟨did, returned, round⟩ := (processNotes_ends sound scanned positive).returns free
      cases did with
      | false => exact ⟨0, returned, round.allTried rfl⟩
      | true =>
        have moved := round.moved rfl
        have bound := round.scanned.cursorSum_le
        obtain ⟨n, done, complete⟩ := ih _ (by omega) round.scanned rfl
        exact ⟨n + 1, done, complete⟩

theorem allTried_of_returns (sound : Scannable db derive accounts) (scanned : Scanned db derive accounts st)
    (positive : 1 ≤ limit)
    (returns : ∀ n, ∃ did,
      (processNotes db derive accounts limit (afterCalls db derive accounts limit n st)).1 = .ok did) {n : Nat}
    (dry : (processNotes db derive accounts limit (afterCalls db derive accounts limit n st)).1 = .ok false) :
    AllTried db derive accounts
      (processNotes db derive accounts limit (afterCalls db derive accounts limit n st)).2.userNotes := by
  induction n generalizing st with
  | zero =>
    have ends := processNotes_ends sound scanned positive
    have same : (processNotes db derive accounts limit st).1 = .ok false := dry
    rw [same] at ends
    exact Round.allTried ends rfl
  | succ n ih =>
    obtain ⟨did, returned⟩ := returns 0
    have ends := processNotes_ends sound scanned positive
    have same : (processNotes db derive accounts limit st).1 = .ok did := returned
    rw [same] at ends
    exact ih ends.scanned (fun k => returns (k + 1)) dry

end Calls

end PrivatePayments.LocalState
