import PrivatePayments.Bootnode.Linked
import PrivatePayments.Bootnode.Session

/-!
The handoff of the bootnode: it is safe for a client that follows its pages exactly where the
ledger it asks for is at or past the cutoff.
-/

namespace PrivatePayments.Bootnode
open LocalState Indexer Library

/-- Where the client resumes from its rows. -/
def Session.ledger (s : Session) : Nat :=
  Indexer.resumeLedger s.config.allContractIds s.node.config.minDeploymentLedger s.db

structure Follows (position : String → Nat) (s : Session) : Prop where
  archived : Archived position s.node
  indexed : Indexed position s.client
  deployed : s.config.minDeploymentLedger = some s.node.config.minDeploymentLedger
  watched : ∀ event ∈ s.node.stream, event.contractId ∈ s.config.allContractIds
  filled : s.db.indexingMetadata = [] ∨ s.config.allContractIds ⊆ s.db.indexingMetadata.map (·.contract)
  rows : ∀ row ∈ s.db.indexingMetadata, 0 < row.lastIndexedLedger ∧
    ∀ cursor, row.lastCursor = some cursor → s.node.storage.ledgerByCursorOut cursor = some row.lastIndexedLedger
  round : ∀ r, s.round = some r →
    match r.cursor with
    | some cursor => s.node.storage.ledgerByCursorOut cursor = some s.ledger
    | none => r.startLedger = s.ledger

section Resume

theorem activeSync_clear (contractIds : List String) (db : Database) :
    (activeSync contractIds (clearIndexingCursors db)).map (·.lastIndexedLedger) =
      (activeSync contractIds db).map (·.lastIndexedLedger) := by
  have found (c : String) :
      (clearIndexingCursors db).indexingMetadata.find? (fun row => row.contract = c) =
        (db.indexingMetadata.find? fun row => row.contract = c).map
          fun row => { row with lastCursor := none } := List.find?_map ..
  unfold activeSync getSyncMetadata
  simp only [found]
  change ((((db.contracts.filterMap _).map MetadataRow.read).filter _).map _) = _
  rw [← List.map_filterMap, List.map_map, List.filter_map, List.filter_map, List.map_map, List.map_map]
  rfl

theorem resumeLedger_clear (contractIds : List String) (minPoolLedger : Nat) (db : Database) :
    Indexer.resumeLedger contractIds minPoolLedger (clearIndexingCursors db) =
      Indexer.resumeLedger contractIds minPoolLedger db := by
  unfold Indexer.resumeLedger
  rw [activeSync_clear]

/-- The probe asks from the ledger the rounds resume from. -/
theorem probeLedger_eq {contractIds : List String} {db : Database} (minPoolLedger : Nat)
    (positive : ∀ row ∈ db.indexingMetadata, 0 < row.lastIndexedLedger) :
    probeLedger contractIds minPoolLedger db = Indexer.resumeLedger contractIds minPoolLedger db := by
  have all : ((activeSync contractIds db).map (·.lastIndexedLedger)).filter (0 < ·) =
      (activeSync contractIds db).map (·.lastIndexedLedger) := by
    rw [List.filter_eq_self]
    intro ledger member
    obtain ⟨entry, inside, rfl⟩ := List.mem_map.mp member
    obtain ⟨row, there, rfl⟩ := mem_activeSync inside
    exact decide_eq_true (positive row there)
  unfold probeLedger Indexer.resumeLedger
  rw [all]

theorem progressLedger_of_sorted {page : EventsPage} (sorted : page.events.Pairwise fun a b => a.ledger ≤ b.ledger)
    {last : ContractEvent} (isLast : page.events.getLast? = some last) : page.progressLedger = last.ledger := by
  obtain ⟨init, split⟩ := List.getLast?_eq_some_iff.mp isLast
  have busy : page.events ≠ [] := by simp [split]
  obtain ⟨event, inside, isProgress⟩ := progressLedger_of_events busy
  have most : last.ledger ≤ page.progressLedger := by
    have greatest : ∃ m, (page.events.map (·.ledger)).max? = some m ∧ page.progressLedger = m := by
      cases found : (page.events.map (·.ledger)).max? with
      | none => exact absurd (List.map_eq_nil_iff.mp (List.max?_eq_none_iff.mp found)) busy
      | some m =>
        refine ⟨m, rfl, ?_⟩
        unfold EventsPage.progressLedger
        rw [if_neg (by simpa using busy), found]
        rfl
    obtain ⟨m, isMost, same⟩ := greatest
    rw [same]
    exact (List.max?_eq_some_iff.mp isMost).2 _ (List.mem_map_of_mem (List.mem_of_getLast? isLast))
  rw [split] at sorted inside
  refine le_antisymm (isProgress ▸ ?_) most
  rcases List.mem_append.mp inside with early | same
  · exact (List.pairwise_append.mp sorted).2.2 event early last (List.mem_singleton_self last)
  · rw [List.mem_singleton.mp same]

end Resume

section Follow

variable {position : String → Nat} {s : Session}

theorem Follows.ledger_of_row (inv : Follows position s) {row : MetadataRow} (member : row ∈ s.db.indexingMetadata) :
    s.ledger = row.lastIndexedLedger ∧
      Indexer.resumeCursor s.config.allContractIds s.db = row.lastCursor.filter (· ≠ "") := by
  rcases inv.indexed.resumes with fresh | ⟨cursor, ledger, resumes⟩
  · have empty : s.db.indexingMetadata = [] := fresh
    rw [empty] at member
    cases member
  · obtain ⟨sameCursor, sameLedger⟩ := resumes.shared row member
    have resumed := resume_of_shared s.node.config.minDeploymentLedger member (inv.indexed.rows row member).1
      (inv.indexed.rows row member).2 resumes.shared
    rw [sameCursor, sameLedger]
    exact resumed

theorem Follows.resumeLedger_eq (inv : Follows position s) : s.resumeLedger = s.ledger := by
  unfold Session.resumeLedger Session.ledger
  rw [resumeLedger_clear, inv.deployed, Option.getD_some]

/-- What is before the ledger of the rows is stored. -/
theorem Follows.storedBefore (inv : Follows position s) : s.StoredBefore s.ledger := by
  intro event member since before
  rcases inv.indexed.resumes with fresh | ⟨cursor, ledger, resumes⟩
  · have start := (resume_of_no_metadata s.config.allContractIds s.node.config.minDeploymentLedger fresh).1
    have isStart : s.ledger = s.node.config.minDeploymentLedger := start
    omega
  · by_cases fresh : s.db.indexingMetadata = []
    · have start := (resume_of_no_metadata s.config.allContractIds s.node.config.minDeploymentLedger fresh).1
      have isStart : s.ledger = s.node.config.minDeploymentLedger := start
      omega
    · obtain ⟨row, inside⟩ := List.exists_mem_of_ne_nil _ fresh
      have isLedger := (inv.ledger_of_row inside).1.trans (resumes.shared row inside).2
      refine resumes.below event (List.mem_filter.mpr ⟨member, ?_⟩)
        (inv.filled.resolve_left fresh (inv.watched event member)) since
      simpa [← isLedger] using before

theorem Follows.pastCutoff_iff (inv : Follows position s) {request : Request} (asked : s.Asks request) :
    s.node.PastCutoff request ↔ s.node.cutoffLedger ≤ s.ledger := by
  rcases asked with ⟨r, running, rfl⟩ | ⟨-, rfl⟩
  · have point := inv.round r running
    unfold asks
    cases isCursor : r.cursor with
    | none =>
      rw [isCursor] at point
      change _ ≤ r.startLedger ↔ _
      rw [point]
    | some cursor =>
      rw [isCursor] at point
      change (∃ ledger, s.node.storage.ledgerByCursorOut cursor = some ledger ∧ _) ↔ _
      rw [point]
      simp
  · rw [inv.deployed, Option.getD_some, probeLedger_eq _ fun row member => (inv.rows row member).1]
    rfl

theorem Follows.answers (inv : Follows position s) {r : Indexer.Round} (running : s.round = some r)
    {page : EventsPage} (served : s.node.getEvents (asks r) = .ok page) :
    page.events ≠ [] ∧ Indexer.Answers position s.client r page ∧
      s.node.storage.ledgerByCursorOut page.cursor = some page.progressLedger := by
  have cached := cached_of_served served
  obtain ⟨busy, answers⟩ := inv.archived.honored _ _ cached
  obtain ⟨latest, known⟩ := inv.archived.noted _ _ cached
  obtain ⟨ids, -⟩ := inv.indexed.round r running
  have sorted : (s.node.stream.take (position page.cursor)).Pairwise fun a b => a.ledger ≤ b.ledger :=
    inv.archived.sorted.sublist (List.take_sublist _ _)
  have same : page.events = r.ahead position (s.node.stream.take (position page.cursor)) := by
    rw [answers.events]
    unfold asks Request.ahead Indexer.Round.ahead
    cases r.cursor with
    | none => rfl
    | some cursor => rfl
  refine ⟨busy, ⟨answers.frontier, ?_, latest, fun empty => absurd empty busy⟩, ?_⟩
  · rw [same]
    refine (List.filter_eq_self.mpr fun event member => ?_).symm
    have inside := List.mem_of_mem_take (ahead_subset _ member)
    rw [ids]
    exact decide_eq_true (inv.watched event inside)
  · obtain ⟨ledger, found⟩ := Option.isSome_iff_exists.mp known
    obtain ⟨-, isLedger⟩ := inv.archived.ledgers _ _ found
    rw [← answers.getLast inv.archived.sorted busy] at isLedger
    obtain ⟨last, isLast, rfl⟩ := Option.map_eq_some_iff.mp isLedger
    rw [found, progressLedger_of_sorted ?_ isLast]
    rw [same]
    unfold Indexer.Round.ahead
    cases r.cursor with
    | none => exact sorted.sublist List.filter_sublist
    | some cursor => exact sorted.sublist (List.drop_sublist _ _)

theorem Session.follow_client (s : Session) {action : Indexer.Action}
    (own : action = .clearCursors ∨ action = .startRound ∨ action = .stop ∨
      ∃ page saved, action = .page page saved) : (s.follow action).client = s.client.next action := by
  rcases own with rfl | rfl | rfl | ⟨page, saved, rfl⟩
  · rfl
  · unfold Session.follow
    cases least : s.config.minDeploymentLedger with
    | none =>
      rw [Indexer.next_startRound_none least]
      rfl
    | some m =>
      rw [Indexer.next_startRound least]
      rfl
  · rfl
  · unfold Session.follow
    rcases next_page (w := s.client) page saved with ⟨same, -⟩ | ⟨r, -, result⟩
    · rw [same]
      rfl
    · rw [result]
      cases saved with
      | all => rfl
      | eventsOnly => rfl

theorem Follows.node (inv : Follows position s) {action : Action} (honest : SessionHonest position s (.node action)) :
    Follows position (s.next (.node action)) := by
  obtain ⟨right, watched⟩ := honest
  have config := s.node.next_config action
  have ledger : (s.next (.node action)).ledger = s.ledger := by
    unfold Session.ledger
    change Indexer.resumeLedger _ (s.node.next action).config.minDeploymentLedger _ = _
    rw [config]
    rfl
  refine ⟨inv.archived.step right, ?_, ?_, ?_, inv.filled, fun row member => ?_, fun r running => ?_⟩
  · rcases s.node.next_chain action with ⟨tip, events, rfl⟩ | ⟨stream, tip⟩
    · exact inv.indexed.close right
    · have same : (s.next (.node action)).client = s.client := by
        unfold Session.client Session.next
        dsimp only
        rw [config, stream, tip]
      rw [same]
      exact inv.indexed
  · change s.config.minDeploymentLedger = some (s.node.next action).config.minDeploymentLedger
    rw [config]
    exact inv.deployed
  · intro event member
    rcases s.node.next_chain action with ⟨tip, events, rfl⟩ | ⟨stream, -⟩
    · rcases List.mem_append.mp member with old | new
      · exact inv.watched event old
      · exact watched tip events rfl event new
    · exact inv.watched event (stream ▸ member)
  · obtain ⟨positive, known⟩ := inv.rows row member
    exact ⟨positive, fun cursor isCursor => inv.archived.ledger_stable right (known cursor isCursor)⟩
  · have point := inv.round r running
    rw [ledger]
    split at point
    · exact inv.archived.ledger_stable right point
    · exact point

theorem Follows.clearCursors (inv : Follows position s) (idle : s.round.isNone) :
    Follows position (s.next .clearCursors) := by
  have indexed := inv.indexed.clearCursors idle
  rw [← s.follow_client (Or.inl rfl)] at indexed
  refine ⟨inv.archived, indexed, inv.deployed, inv.watched, ?_, fun row member => ?_, fun r running => ?_⟩
  · rcases inv.filled with fresh | filled
    · left
      change s.db.indexingMetadata.map _ = []
      rw [fresh]
      rfl
    · right
      change _ ⊆ (s.db.indexingMetadata.map fun row => { row with lastCursor := none }).map (·.contract)
      rw [List.map_map]
      exact filled
  · obtain ⟨before, inside, rfl⟩ := List.mem_map.mp member
    exact ⟨(inv.rows before inside).1, fun cursor isCursor => by cases isCursor⟩
  · have none := Option.isNone_iff_eq_none.mp idle
    exact absurd (running.symm.trans none) (Option.some_ne_none r)

theorem Follows.startRound (inv : Follows position s) : Follows position (s.next .startRound) := by
  have joins : JoinsInTime position s.client .startRound := by
    by_cases fresh : s.db.indexingMetadata = []
    · exact inv.indexed.joins_first fresh
    · exact fun _ _ c watched unknown => absurd (inv.filled.resolve_left fresh watched) unknown
  have indexed := inv.indexed.startRound joins
  rw [← s.follow_client (Or.inr (Or.inl rfl))] at indexed
  have result : s.next .startRound =
      { s with round := some (Round.start s.config s.node.config.minDeploymentLedger s.db) } := by
    change s.follow .startRound = _
    unfold Session.follow Indexer.World.next Session.client
    dsimp only
    rw [inv.deployed]
  rw [result]
  refine ⟨inv.archived, result ▸ indexed, inv.deployed, inv.watched, inv.filled, inv.rows, fun r running => ?_⟩
  obtain rfl := Option.some.inj running
  cases isCursor : (Round.start s.config s.node.config.minDeploymentLedger s.db).cursor with
  | none => rfl
  | some cursor =>
    by_cases fresh : s.db.indexingMetadata = []
    · have none := (resume_of_no_metadata s.config.allContractIds s.node.config.minDeploymentLedger fresh).2
      cases isCursor.symm.trans none
    · obtain ⟨row, inside⟩ := List.exists_mem_of_ne_nil _ fresh
      obtain ⟨isLedger, resumed⟩ := inv.ledger_of_row inside
      have point : row.lastCursor.filter (· ≠ "") = some cursor := resumed.symm.trans isCursor
      have known := (inv.rows row inside).2 cursor (Option.eq_some_of_filter_eq_some point)
      rw [← isLedger] at known
      exact known

theorem Follows.stop (inv : Follows position s) : Follows position (s.next .stop) := by
  have indexed := inv.indexed.setRound none fun r running => by cases running
  exact ⟨inv.archived, indexed, inv.deployed, inv.watched, inv.filled, inv.rows, fun r running => by cases running⟩

theorem Follows.page (inv : Follows position s) {r : Indexer.Round} (running : s.round = some r) {page : EventsPage}
    (served : s.node.getEvents (asks r) = .ok page) (saved : Saved) :
    Follows position (s.follow (.page page saved)) := by
  obtain ⟨busy, answers, known⟩ := inv.answers running served
  obtain ⟨ids, -⟩ := inv.indexed.round r running
  have own : Indexer.Action.page page saved = .clearCursors ∨ Indexer.Action.page page saved = .startRound ∨
      Indexer.Action.page page saved = .stop ∨ ∃ p kept, Indexer.Action.page page saved = .page p kept :=
    Or.inr (Or.inr (Or.inr ⟨page, saved, rfl⟩))
  have indexed : Indexed position (s.client.next (.page page saved)) := by
    refine inv.indexed.step (fun other goes => ?_) trivial
    obtain rfl := Option.some.inj (running.symm.trans goes)
    exact answers
  rw [← s.follow_client own] at indexed
  have result : s.client.next (.page page saved) = s.client.page r page saved := by
    rcases next_page (w := s.client) page saved with ⟨-, none⟩ | ⟨other, goes, result⟩
    · cases running.symm.trans none
    · obtain rfl := Option.some.inj (running.symm.trans goes)
      exact result
  have events := saveEventsBatch_saved page.events s.db
  cases saved with
  | eventsOnly =>
    have same : s.follow (.page page .eventsOnly) =
        { s with db := saveEventsBatch page.events s.db, round := none } := by
      unfold Session.follow
      rw [result]
      rfl
    rw [same] at indexed ⊢
    refine ⟨inv.archived, indexed, inv.deployed, inv.watched, ?_, fun row member => ?_, fun r goes => by cases goes⟩
    · change (saveEventsBatch page.events s.db).indexingMetadata = [] ∨
        _ ⊆ (saveEventsBatch page.events s.db).indexingMetadata.map (·.contract)
      rw [events.metadata]
      exact inv.filled
    · exact inv.rows row (events.metadata ▸ member)
  | all =>
    have progress := saveProgress_saved r.contractIds page (saveEventsBatch page.events s.db)
    have db : (s.follow (.page page .all)).db = saveProgress r.contractIds page (saveEventsBatch page.events s.db) := by
      unfold Session.follow
      rw [result]
      rfl
    have rows : ∀ row ∈ (s.follow (.page page .all)).db.indexingMetadata,
        row.lastCursor = some page.cursor ∧ row.lastIndexedLedger = page.progressLedger := by
      intro row member
      rw [db] at member
      rcases progress.rows row member with ⟨-, -, written⟩ | ⟨apart, older⟩
      · exact ⟨written.cursor, written.indexed⟩
      · rw [events.metadata] at older
        exact absurd (ids ▸ (inv.indexed.rows row older).2) apart
    obtain ⟨event, told, isProgress⟩ := progressLedger_of_events busy
    have positive : 0 < page.progressLedger := by
      rw [← isProgress]
      exact (inv.indexed.bounded event (List.mem_of_mem_take (answers.subset told))).1
    have moved : (s.follow (.page page .all)).ledger = page.progressLedger := by
      have asp : s.config.aspMembership ∈ r.contractIds := by
        rw [ids]
        exact List.mem_append_right _ List.mem_cons_self
      obtain ⟨row, member, -⟩ := List.mem_map.mp (progress.filled asp)
      rw [← db] at member
      obtain ⟨stored, watched⟩ := indexed.rows row member
      exact (resume_of_shared _ member stored watched rows).1
    refine ⟨inv.archived, indexed, inv.deployed, inv.watched, Or.inr ?_, fun row member => ?_, fun next goes => ?_⟩
    · rw [db]
      exact ids ▸ progress.filled
    · obtain ⟨isCursor, isLedger⟩ := rows row member
      rw [isLedger]
      refine ⟨positive, fun cursor same => ?_⟩
      obtain rfl := Option.some.inj (isCursor.symm.trans same)
      exact known
    · have goesOn : (s.client.page r page .all).round = some next := by
        rw [← result]
        exact goes
      simp only [Indexer.World.page] at goesOn
      split_ifs at goesOn
      obtain rfl := Option.some.inj goesOn
      rw [moved]
      exact known

theorem Follows.step (inv : Follows position s) {action : SessionAction} (honest : SessionHonest position s action) :
    Follows position (s.next action) := by
  cases action with
  | node action => exact inv.node honest
  | clearCursors => exact inv.clearCursors honest
  | startRound => exact inv.startRound
  | stop => exact inv.stop
  | fetch saved =>
    cases running : s.round with
    | none =>
      have same : s.next (.fetch saved) = s := by
        simp only [Session.next, running]
      rw [same]
      exact inv
    | some r =>
      cases answer : s.node.getEvents (asks r) with
      | ok page =>
        have result : s.next (.fetch saved) = s.follow (.page page saved) := by
          simp only [Session.next, running, answer]
        rw [result]
        exact inv.page running answer saved
      | error e =>
        have result : s.next (.fetch saved) = s.follow .stop := by
          simp only [Session.next, running, answer]
        rw [result]
        exact inv.stop

theorem follows_initial (position : String → Nat) {config : Config} {contracts : ContractConfig}
    (deployed : contracts.minDeploymentLedger = some config.minDeploymentLedger) :
    Follows position (Session.initial config contracts) where
  archived := archived_initial position config
  indexed := by
    refine ⟨⟨List.Pairwise.nil, fun event member => ?_, List.nodup_nil, fun row member => ?_⟩,
      ⟨config.minDeploymentLedger, deployed, fun _ _ => le_refl _⟩, fun row member => ?_, Or.inl rfl,
      fun row member => ?_, fun r running => ?_⟩
    · cases member
    · cases member
    · cases member
    · cases member
    · cases running
  deployed := deployed
  watched _ member := by cases member
  filled := Or.inl rfl
  rows _ member := by cases member
  round _ running := by cases running

end Follow

/-- In every run of the chain, the bootnode and a client that follows its pages from the deployment ledger, at
every handoff: the ledger the client resumes from is at or past the cutoff the handoff names, and every event
before it is stored, exactly where the ledger that stands for the request is at or past the cutoff. -/
theorem handoff_safe_iff (position : String → Nat) (config : Config) (contracts : ContractConfig)
    (deployed : contracts.minDeploymentLedger = some config.minDeploymentLedger) (actions : List SessionAction)
    (honest : Along Session.next (SessionHonest position) (Session.initial config contracts) actions)
    (s : Session) (reached : s = actions.foldl Session.next (Session.initial config contracts))
    (request : Request) (asked : s.Asks request) (fromLedger : Nat)
    (handoff : s.node.getEvents request = .error (.retentionHandoff fromLedger)) :
    (fromLedger ≤ s.resumeLedger ∧ s.StoredBefore s.resumeLedger) ↔ s.node.PastCutoff request := by
  have inv : Follows position s := by
    rw [reached]
    exact honest.invariant (fun s action inv meets => inv.step meets) (follows_initial position deployed)
  rw [cutoff_of_handoff handoff, inv.resumeLedger_eq, inv.pastCutoff_iff asked]
  exact and_iff_left inv.storedBefore

def toldAt (ledger : Nat) : ContractEvent := ⟨"0000000012884905984-0000000000", ledger, "CPOOLA", ["AAAA"], "AAAA"⟩

/-- The bootnode takes the only event and catches up at ledger 200000, and the client takes the page. -/
def quietRun (ledger : Nat) : List SessionAction :=
  [.node (.close 200000 [toldAt ledger]), .node (.startRound 200000), .node .write,
    .node (.answer ⟨"c1", [toldAt ledger], 200000⟩), .node .write, .node .write, .node .write,
    .node (.answer ⟨"c1", [], 200000⟩), .node .write, .node .write, .node .write,
    .startRound, .fetch .all]

def quietSession (ledger n : Nat) : Session :=
  ((quietRun ledger).take n).foldl Session.next (Session.initial sampleConfig onePool)

theorem quietRun_honest {ledger : Nat} (positive : 0 < ledger) (closed : ledger ≤ 200000) :
    Along Session.next (SessionHonest fun _ => 1) (Session.initial sampleConfig onePool) (quietRun ledger) := by
  have first : (quietSession ledger 3).node.round = some ⟨.fromLedger 1, none, [], 10⟩ := rfl
  have second : (quietSession ledger 7).node.round = some ⟨.afterCursor "c1", none, [], 9⟩ := rfl
  have other {action : Action} (chainless : ∀ tip events, action ≠ .close tip events) :
      ∀ tip events, action = .close tip events → ∀ event ∈ events, event.contractId ∈ onePool.allContractIds :=
    fun tip events same => absurd same (chainless tip events)
  refine ⟨⟨?_, ?_⟩, ⟨trivial, other (by simp)⟩, ⟨trivial, other (by simp)⟩,
    ⟨⟨le_refl _, fun r running => ?_⟩, other (by simp)⟩, ⟨trivial, other (by simp)⟩, ⟨trivial, other (by simp)⟩,
    ⟨trivial, other (by simp)⟩, ⟨⟨le_refl _, fun r running => ?_⟩, other (by simp)⟩, ⟨trivial, other (by simp)⟩,
    ⟨trivial, other (by simp)⟩, ⟨trivial, other (by simp)⟩, rfl, trivial, trivial⟩
  · simp [Honest, Session.initial, World.initial, toldAt, positive, closed]
  · intro tip events same event member
    cases same
    rw [List.mem_singleton.mp member]
    exact List.mem_cons_self
  · obtain rfl := Option.some.inj (first.symm.trans running)
    have answers : Answers (fun _ => 1) [toldAt ledger] (.fromLedger 1) ⟨"c1", [toldAt ledger], 200000⟩ :=
      ⟨le_refl 1, by simp [Request.ahead, toldAt, Nat.succ_le_of_lt positive]⟩
    exact answers
  · obtain rfl := Option.some.inj (second.symm.trans running)
    have answers : Answers (fun _ => 1) [toldAt ledger] (.afterCursor "c1") ⟨"c1", [], 200000⟩ :=
      ⟨le_refl 1, rfl⟩
    exact answers

theorem asks_cursor {s : Session} (running : s.round = some ⟨["CPOOLA", "CASP", "CREG"], 1, some "c1", 9⟩) :
    s.Asks (.afterCursor "c1") := Or.inl ⟨_, running, rfl⟩

theorem handoff_safe_iff_sample :
    113600 ≤ (quietSession 150000 13).resumeLedger ∧
      (quietSession 150000 13).StoredBefore (quietSession 150000 13).resumeLedger := by
  have handoff : (quietSession 150000 13).node.getEvents (.afterCursor "c1") =
      .error (.retentionHandoff 113600) := by rfl
  refine (handoff_safe_iff (fun _ => 1) sampleConfig onePool rfl (quietRun 150000)
    (quietRun_honest (by decide) (by decide)) (quietSession 150000 13) rfl (.afterCursor "c1")
    (asks_cursor (by decide +kernel)) 113600 handoff).mpr ⟨150000, by decide +kernel, by decide +kernel⟩

/-- After a quiet time longer than the redirect window the client resumes long before the cutoff. -/
theorem quiet_handoff_unsafe :
    Along Session.next (SessionHonest fun _ => 1) (Session.initial sampleConfig onePool) (quietRun 3) ∧
      ∃ request fromLedger,
        (quietSession 3 13).Asks request ∧
          (quietSession 3 13).node.getEvents request = .error (.retentionHandoff fromLedger) ∧
          ¬fromLedger ≤ (quietSession 3 13).resumeLedger := by
  refine ⟨quietRun_honest (by decide) (by decide), .afterCursor "c1", 113600,
    asks_cursor (by decide +kernel), by rfl, ?_⟩
  decide +kernel

end PrivatePayments.Bootnode
