import PrivatePayments.LocalState.NoteRecovery

/-!
Ingestion in any order: raw events, the rows of the derived tables and accounts arrive, and the
scans run in between. Tables only grow, and a row that arrives has an id beyond those there were.
-/

namespace PrivatePayments.LocalState
open Bn254 Library UniqueTable

/-- `save_encryption_and_note_keypairs` for an account that is new. -/
def Wallet.addAccount (wallet : Wallet) (noteKeypair : NoteKeyPair) (encryptionPrivate : Bytes) : Wallet where
  accounts := wallet.accounts + 1
  keypairs := wallet.keypairs ++ [⟨some (wallet.accounts + 1), noteKeypair, encryptionPrivate⟩]

structure Store where
  db : Database
  wallet : Wallet
  user : UserState

/-- The foreign keys of the derived tables, which the connection turns on. -/
def Database.referenced (db : Database) : Bool :=
  (db.poolCommitments.all fun row => decide (row.id ∈ db.rawContractEvents.map (·.id))) &&
    db.poolNullifiers.all fun row => decide (row.id ∈ db.rawContractEvents.map (·.id))

/-- A batch that breaks a constraint is rolled back. -/
def Database.commit (db : Database) (saved : Option Database) : Database :=
  (saved.filter Database.referenced).getD db

inductive Ingestion where
  | saveEvents (events : List ContractEvent)
  | saveCommitments (events : List NewCommitmentEvent)
  | saveNullifiers (events : List NewNullifierEvent)
  | addAccount (noteKeypair : NoteKeyPair) (encryptionPrivate : Bytes)
  | scan (totalLimit : Nat)
  | reconcile (limit : Nat)

namespace Store

def empty : Store := ⟨.empty, ⟨0, []⟩, .fresh⟩

def accounts (s : Store) : List AccountKeys := getAccountsWithLatestKeypairs s.wallet

/-- A call that fails keeps the transactions it has committed. -/
def act (derive : DeriveNoteFn) (s : Store) : Ingestion → Store
  | .saveEvents events => { s with db := saveEventsBatch events s.db }
  | .saveCommitments events => { s with db := s.db.commit (saveCommitmentEventsBatch events s.db) }
  | .saveNullifiers events => { s with db := s.db.commit (saveNullifierEventsBatch events s.db) }
  | .addAccount noteKeypair encryptionPrivate =>
      { s with wallet := s.wallet.addAccount noteKeypair encryptionPrivate }
  | .scan totalLimit =>
      { s with user := (scanCommitmentsForUserNotes s.db derive s.accounts totalLimit s.user).2 }
  | .reconcile limit => { s with user := (reconcileNullifiers s.db limit s.user).2 }

def run (derive : DeriveNoteFn) (actions : List Ingestion) : Store := actions.foldl (act derive) empty

end Store

structure Database.Sound (db : Database) : Prop where
  rawIds : (db.rawContractEvents.map (·.id)).Nodup
  known : ∀ r ∈ db.rawContractEvents, r.contract ∈ db.contracts
  commitments : (db.poolCommitments.map (·.commitment)).Nodup
  nullifiers : (db.poolNullifiers.map (·.nullifier)).Nodup
  referenced : db.referenced = true

/-- The tables have grown: rows were only added, with ids beyond those there were. -/
structure Grown (db next : Database) : Prop where
  commitmentCount : db.poolCommitments.length ≤ next.poolCommitments.length
  nullifierCount : db.poolNullifiers.length ≤ next.poolNullifiers.length
  commitments : ∀ pool, ∃ more, next.poolRows pool = db.poolRows pool ++ more ∧
    ∀ row ∈ more, db.poolCommitments.length < row.commitmentId
  nullifiers : ∀ pool, ∃ more, next.nullifierRows pool = db.nullifierRows pool ++ more ∧
    ∀ row ∈ more, db.poolNullifiers.length < row.nullifierId

section Growth

variable {db next : Database} {pool : String}

theorem Database.Sound.commitment_referenced (sound : db.Sound) {row : NewCommitmentEvent}
    (member : row ∈ db.poolCommitments) : row.id ∈ db.rawContractEvents.map (·.id) := by
  have both := Bool.and_eq_true_iff.mp sound.referenced
  exact of_decide_eq_true (List.all_eq_true.mp both.1 row member)

theorem Database.Sound.nullifier_referenced (sound : db.Sound) {row : NewNullifierEvent}
    (member : row ∈ db.poolNullifiers) : row.id ∈ db.rawContractEvents.map (·.id) := by
  have both := Bool.and_eq_true_iff.mp sound.referenced
  exact of_decide_eq_true (List.all_eq_true.mp both.2 row member)

theorem emittedBy_iff {id : String} :
    db.emittedBy id pool = true ↔ ∃ r ∈ db.rawContractEvents, r.id = id ∧ r.contract = pool := by
  simp [Database.emittedBy]

theorem Database.Sound.emittedBy_inj (sound : db.Sound) {id other : String} (first : db.emittedBy id pool = true)
    (second : db.emittedBy id other = true) : pool = other := by
  obtain ⟨r, member, isId, rfl⟩ := emittedBy_iff.mp first
  obtain ⟨r', member', isId', rfl⟩ := emittedBy_iff.mp second
  rw [List.inj_on_of_nodup_map sound.rawIds member member' (isId.trans isId'.symm)]

theorem emittedBy_grown (later : (next.rawContractEvents.map (·.id)).Nodup)
    (more : db.rawContractEvents ⊆ next.rawContractEvents) {id : String}
    (stored : id ∈ db.rawContractEvents.map (·.id)) : next.emittedBy id pool = db.emittedBy id pool := by
  rw [Bool.eq_iff_iff, emittedBy_iff, emittedBy_iff]
  constructor
  · rintro ⟨r, member, isId, isPool⟩
    obtain ⟨r', member', isId'⟩ := List.mem_map.mp stored
    have same := List.inj_on_of_nodup_map later member (more member') (isId.trans isId'.symm)
    exact ⟨r', member', isId', same ▸ isPool⟩
  · rintro ⟨r, member, isBoth⟩
    exact ⟨r, more member, isBoth⟩

theorem joined_append {α β : Type} (rows added : List α) (kept : α → Bool) (f : α × Nat → β) (id : β → Nat)
    (numbered : ∀ entry, id (f entry) = entry.2) :
    ∃ more, (((rows ++ added).zipIdx 1).filter fun entry => kept entry.1).map f =
        ((rows.zipIdx 1).filter fun entry => kept entry.1).map f ++ more ∧ ∀ row ∈ more, rows.length < id row := by
  refine ⟨((added.zipIdx (1 + rows.length)).filter fun entry => kept entry.1).map f, ?_, fun row member => ?_⟩
  · rw [List.zipIdx_append, List.filter_append, List.map_append]
  · obtain ⟨entry, inside, rfl⟩ := List.mem_map.mp member
    have position := (List.mem_zipIdx_iff_le_and_getElem?_sub.mp (List.mem_filter.mp inside).1).1
    rw [numbered]
    omega

theorem mem_of_mem_zipIdx {α : Type} {rows : List α} {first : Nat} {entry : α × Nat}
    (member : entry ∈ rows.zipIdx first) :
    entry.1 ∈ rows :=
  List.mem_of_getElem? (List.mem_zipIdx_iff_le_and_getElem?_sub.mp member).2

/-- Where the raw events grow and the tables do, both scans see their rows and rows beyond them. -/
theorem grown_of_added (sound : db.Sound) (later : (next.rawContractEvents.map (·.id)).Nodup)
    (raw : db.rawContractEvents ⊆ next.rawContractEvents) {addedC : List NewCommitmentEvent}
    {addedN : List NewNullifierEvent} (commitments : next.poolCommitments = db.poolCommitments ++ addedC)
    (nullifiers : next.poolNullifiers = db.poolNullifiers ++ addedN) : Grown db next := by
  refine ⟨by simp [commitments], by simp [nullifiers], fun pool => ?_, fun pool => ?_⟩
  · have kept : (db.poolCommitments.zipIdx 1).filter (fun entry => next.emittedBy entry.1.id pool) =
        (db.poolCommitments.zipIdx 1).filter fun entry => db.emittedBy entry.1.id pool :=
      List.filter_congr fun entry member =>
        emittedBy_grown later raw (sound.commitment_referenced (mem_of_mem_zipIdx member))
    rw [Database.poolRows, Database.poolRows, commitments, ← kept]
    exact joined_append db.poolCommitments addedC (fun ev => next.emittedBy ev.id pool) _ PoolCommitmentRow.commitmentId
      fun _ => rfl
  · have kept : (db.poolNullifiers.zipIdx 1).filter (fun entry => next.emittedBy entry.1.id pool) =
        (db.poolNullifiers.zipIdx 1).filter fun entry => db.emittedBy entry.1.id pool :=
      List.filter_congr fun entry member =>
        emittedBy_grown later raw (sound.nullifier_referenced (mem_of_mem_zipIdx member))
    rw [Database.nullifierRows, Database.nullifierRows, nullifiers, ← kept]
    exact joined_append db.poolNullifiers addedN
      (fun ev => next.emittedBy ev.id pool) _ NullifierRow.nullifierId fun _ => rfl

theorem Grown.refl (db : Database) : Grown db db :=
  ⟨le_rfl, le_rfl, fun _ => ⟨[], (List.append_nil _).symm, by simp⟩, fun _ => ⟨[], (List.append_nil _).symm, by simp⟩⟩

section Extended

variable {α : Type} {rows old : List α} {number : α → Nat} {bound : Nat} {row : α}

theorem mem_extended (extended : ∃ more, rows = old ++ more ∧ ∀ row ∈ more, bound < number row) (member : row ∈ old) :
    row ∈ rows := by
  obtain ⟨more, same, -⟩ := extended
  exact same ▸ List.mem_append_left _ member

theorem mem_of_number_le (extended : ∃ more, rows = old ++ more ∧ ∀ row ∈ more, bound < number row)
    (member : row ∈ rows) (within : number row ≤ bound) : row ∈ old := by
  obtain ⟨more, same, beyond⟩ := extended
  rw [same] at member
  refine (List.mem_append.mp member).resolve_right fun new => ?_
  have above := beyond row new
  omega

end Extended

theorem Database.Sound.saveEvent (sound : db.Sound) (event : ContractEvent) :
    (LocalState.saveEvent db event).Sound ∧
      db.rawContractEvents ⊆ (LocalState.saveEvent db event).rawContractEvents := by
  have contracts : db.contracts ⊆ getOrCreateContractId db.contracts event.contractId := by
    unfold getOrCreateContractId
    split
    · exact List.Subset.refl _
    · exact List.subset_append_left _ _
  have there : event.contractId ∈ getOrCreateContractId db.contracts event.contractId := by
    unfold getOrCreateContractId
    split
    · assumption
    · simp
  unfold LocalState.saveEvent
  by_cases taken : event.id ∈ db.rawContractEvents.map (·.id)
  · simp only [if_pos taken]
    exact ⟨⟨sound.rawIds, fun r member => contracts (sound.known r member), sound.commitments, sound.nullifiers,
      sound.referenced⟩,
      List.Subset.refl _⟩
  · simp only [if_neg taken]
    refine ⟨⟨?_, ?_, sound.commitments, sound.nullifiers, ?_⟩, List.subset_append_left _ _⟩
    · rw [List.map_append]
      exact List.nodup_append'.mpr ⟨sound.rawIds, List.nodup_singleton _, List.disjoint_singleton.mpr taken⟩
    · intro r member
      rcases List.mem_append.mp member with older | new
      · exact contracts (sound.known r older)
      · rw [List.mem_singleton.mp new]
        exact there
    · unfold Database.referenced
      simp only [Bool.and_eq_true, List.all_eq_true, decide_eq_true_eq, List.map_append, List.mem_append]
      exact ⟨fun row member => Or.inl (sound.commitment_referenced member),
        fun row member => Or.inl (sound.nullifier_referenced member)⟩

theorem Database.Sound.saveEventsBatch (sound : db.Sound) (events : List ContractEvent) :
    (LocalState.saveEventsBatch events db).Sound ∧
      db.rawContractEvents ⊆ (LocalState.saveEventsBatch events db).rawContractEvents ∧
      (LocalState.saveEventsBatch events db).poolCommitments = db.poolCommitments ∧
      (LocalState.saveEventsBatch events db).poolNullifiers = db.poolNullifiers := by
  unfold LocalState.saveEventsBatch
  induction events generalizing db with
  | nil => exact ⟨sound, List.Subset.refl _, rfl, rfl⟩
  | cons event events ih =>
    obtain ⟨saved, more⟩ := sound.saveEvent event
    obtain ⟨all, further, commitments, nullifiers⟩ := ih saved
    exact ⟨all, List.Subset.trans more further, commitments, nullifiers⟩

theorem Database.Sound.ingest_events (sound : db.Sound) (events : List ContractEvent) :
    (LocalState.saveEventsBatch events db).Sound ∧ Grown db (LocalState.saveEventsBatch events db) := by
  obtain ⟨saved, raw, commitments, nullifiers⟩ := sound.saveEventsBatch events
  rw [← List.append_nil db.poolCommitments] at commitments
  rw [← List.append_nil db.poolNullifiers] at nullifiers
  exact ⟨saved, grown_of_added sound saved.rawIds raw commitments nullifiers⟩

theorem commit_cases (db : Database) (saved : Option Database) :
    db.commit saved = db ∨ ∃ next, saved = some next ∧ next.referenced = true ∧ db.commit saved = next := by
  unfold Database.commit
  cases saved with
  | none => exact Or.inl rfl
  | some next =>
    by_cases referenced : next.referenced = true
    · exact Or.inr ⟨next, rfl, referenced, by rw [Option.filter_some, if_pos referenced, Option.getD_some]⟩
    · exact Or.inl (by rw [Option.filter_some, if_neg referenced, Option.getD_none])

theorem Database.Sound.commit (sound : db.Sound) {saved : Option Database}
    (step : ∀ next, saved = some next → next.referenced = true → next.Sound ∧ Grown db next) :
    (db.commit saved).Sound ∧ Grown db (db.commit saved) := by
  rcases commit_cases db saved with same | ⟨next, isNext, referenced, same⟩
  · rw [same]
    exact ⟨sound, Grown.refl db⟩
  · rw [same]
    exact step next isNext referenced

theorem Database.Sound.ingest_commitments (sound : db.Sound) (events : List NewCommitmentEvent) :
    (db.commit (saveCommitmentEventsBatch events db)).Sound ∧
      Grown db (db.commit (saveCommitmentEventsBatch events db)) := by
  refine sound.commit fun next saved referenced => ?_
  obtain ⟨table, batch, isNext⟩ := Option.bind_eq_some_iff.mp saved
  cases isNext
  obtain ⟨added, rfl, keys⟩ := insertAll_some batch sound.commitments
  exact ⟨⟨sound.rawIds, sound.known, keys, sound.nullifiers, referenced⟩,
    grown_of_added sound sound.rawIds (List.Subset.refl _) rfl (List.append_nil _).symm⟩

theorem Database.Sound.ingest_nullifiers (sound : db.Sound) (events : List NewNullifierEvent) :
    (db.commit (saveNullifierEventsBatch events db)).Sound ∧
      Grown db (db.commit (saveNullifierEventsBatch events db)) := by
  refine sound.commit fun next saved referenced => ?_
  obtain ⟨table, batch, isNext⟩ := Option.bind_eq_some_iff.mp saved
  cases isNext
  obtain ⟨added, rfl, keys⟩ := insertAll_some batch sound.nullifiers
  exact ⟨⟨sound.rawIds, sound.known, sound.commitments, keys, referenced⟩,
    grown_of_added sound sound.rawIds (List.Subset.refl _) (List.append_nil _).symm rfl⟩

end Growth

section Pools

variable {db : Database} {pool : String}

theorem Database.Sound.contract_known (sound : db.Sound) {id : String} (emitted : db.emittedBy id pool = true) :
    pool ∈ db.contracts := by
  obtain ⟨r, member, -, rfl⟩ := emittedBy_iff.mp emitted
  exact sound.known r member

theorem mem_commitmentPools (sound : db.Sound) {row : PoolCommitmentRow} (member : row ∈ db.poolRows pool) :
    pool ∈ db.commitmentPools := by
  obtain ⟨-, ev, here, emitted, -⟩ := mem_poolRows member
  exact List.mem_filter.mpr ⟨sound.contract_known emitted,
    List.any_eq_true.mpr ⟨ev, List.mem_of_getElem? here, emitted⟩⟩

theorem mem_nullifierPools (sound : db.Sound) {stored : NullifierRow} (member : stored ∈ db.nullifierRows pool) :
    pool ∈ db.nullifierPools := by
  obtain ⟨⟨ev, id⟩, kept, rfl⟩ := List.mem_map.mp member
  obtain ⟨inside, emitted⟩ := List.mem_filter.mp kept
  exact List.mem_filter.mpr ⟨sound.contract_known emitted, List.any_eq_true.mpr ⟨ev, mem_of_mem_zipIdx inside, emitted⟩⟩

end Pools

section Accounts

def IdsApart (accounts : List AccountKeys) : Prop :=
  ∀ a ∈ accounts, ∀ b ∈ accounts, a.accountId = b.accountId → a = b

theorem getAccounts_addAccount (wallet : Wallet) (noteKeypair : NoteKeyPair) (encryptionPrivate : Bytes) :
    ∃ account, account.accountId = wallet.accounts + 1 ∧
      getAccountsWithLatestKeypairs (wallet.addAccount noteKeypair encryptionPrivate) =
        getAccountsWithLatestKeypairs wallet ++ [account] := by
  refine ⟨KeypairRow.keys ⟨some (wallet.accounts + 1), noteKeypair, encryptionPrivate⟩ (wallet.accounts + 1), rfl, ?_⟩
  have before : (List.range' 1 wallet.accounts).filterMap (fun id =>
      ((wallet.addAccount noteKeypair encryptionPrivate).keypairs.reverse.find? fun row => row.accountId = some id).map
        (·.keys id)) = getAccountsWithLatestKeypairs wallet := by
    refine List.filterMap_congr fun id member => ?_
    have old : id ≤ wallet.accounts := by
      have bounds := List.mem_range'_1.mp member
      omega
    have other : wallet.accounts + 1 ≠ id := by omega
    simp [Wallet.addAccount, other]
  rw [getAccountsWithLatestKeypairs, Wallet.addAccount, List.range'_1_concat, List.filterMap_append]
  congr 1
  simp [Nat.add_comm]

theorem accountId_le {wallet : Wallet} {account : AccountKeys}
    (member : account ∈ getAccountsWithLatestKeypairs wallet) :
    account.accountId ≤ wallet.accounts := by
  obtain ⟨id, inside, found⟩ := List.mem_filterMap.mp member
  obtain ⟨row, -, rfl⟩ := Option.map_eq_some_iff.mp found
  have bounds := List.mem_range'_1.mp inside
  change id ≤ wallet.accounts
  omega

theorem accounts_idsApart (wallet : Wallet) : IdsApart (getAccountsWithLatestKeypairs wallet) := by
  intro a mine b mine' same
  obtain ⟨id, -, found⟩ := List.mem_filterMap.mp mine
  obtain ⟨id', -, found'⟩ := List.mem_filterMap.mp mine'
  obtain ⟨row, here, rfl⟩ := Option.map_eq_some_iff.mp found
  obtain ⟨row', here', rfl⟩ := Option.map_eq_some_iff.mp found'
  obtain rfl : id = id' := same
  rw [Option.some.inj (here.symm.trans here')]

end Accounts

end PrivatePayments.LocalState
