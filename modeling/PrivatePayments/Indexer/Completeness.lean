import PrivatePayments.Indexer.SyncMetadata

/-!
The store of a client holds every event of a contract up to the ledgers its sync metadata
names, as long as no contract joins late with events behind the cursor of the others.
-/

namespace PrivatePayments.Indexer
open LocalState Library

/-- The events of the list that a watched contract told since its start ledger are stored. -/
def Kept (starts : String → Nat) (raw : List RawEvent) (watched : String → Prop)
    (events : List ContractEvent) : Prop :=
  ∀ event ∈ events, watched event.contractId → starts event.contractId ≤ event.ledger → event.row ∈ raw

section Kept

variable {starts starts' : String → Nat} {raw raw' : List RawEvent} {watched watched' : String → Prop}
  {events events' : List ContractEvent}

theorem Kept.mono (kept : Kept starts raw watched events) (more : raw ⊆ raw') : Kept starts raw' watched events :=
  fun event member known since => more (kept event member known since)

theorem Kept.sub (kept : Kept starts raw watched events) (fewer : events' ⊆ events) :
    Kept starts raw watched events' :=
  fun event member known since => kept event (fewer member) known since

theorem Kept.narrow (kept : Kept starts raw watched events) (fewer : ∀ c, watched' c → watched c) :
    Kept starts raw watched' events :=
  fun event member known since => kept event member (fewer _ known) since

theorem Kept.restart (kept : Kept starts raw watched events) (same : ∀ c, watched c → starts' c = starts c) :
    Kept starts' raw watched events :=
  fun event member known since => kept event member known (same _ known ▸ since)

end Kept

def Round.Behind (position : String → Nat) (w : World) (r : Round) : Prop :=
  match r.cursor with
  | some cursor => position cursor ≤ w.chain.length ∧
      Kept w.starts w.db.rawContractEvents (· ∈ r.contractIds) (w.chain.take (position cursor))
  | none =>
      r.startLedger ≤ w.tip ∧
        Kept w.starts w.db.rawContractEvents (· ∈ r.contractIds)
          (w.chain.filter fun event => event.ledger < r.startLedger) ∨
      ∀ c ∈ r.contractIds, r.startLedger ≤ w.starts c

/-- The rows agree, and what is before the point they resume from is stored. -/
structure Resumes (position : String → Nat) (w : World) (cursor : Option String) (ledger : Nat) : Prop where
  shared : ∀ row ∈ w.db.indexingMetadata, row.lastCursor = cursor ∧ row.lastIndexedLedger = ledger
  indexed : ledger ≤ w.tip
  below : Kept w.starts w.db.rawContractEvents (· ∈ w.db.indexingMetadata.map (·.contract))
    (w.chain.filter fun event => event.ledger < ledger)
  passed : ∀ c, cursor.filter (· ≠ "") = some c → position c ≤ w.chain.length ∧
    Kept w.starts w.db.rawContractEvents (· ∈ w.db.indexingMetadata.map (·.contract))
      (w.chain.take (position c))

/-- The chain as the RPC tells it, and the store as a part of it. -/
structure Chained (w : World) : Prop where
  sorted : w.chain.Pairwise fun a b => a.ledger ≤ b.ledger
  bounded : ∀ event ∈ w.chain, 0 < event.ledger ∧ event.ledger ≤ w.tip
  ids : (w.chain.map (·.id)).Nodup
  source : ∀ r ∈ w.db.rawContractEvents, ∃ event ∈ w.chain, event.row = r

/-- Every contract with a row has its events up to the ledger that the row names. -/
def Complete (mark : MetadataRow → Nat) (w : World) : Prop :=
  ∀ row ∈ w.db.indexingMetadata, mark row ≤ w.tip ∧
    Kept w.starts w.db.rawContractEvents (· = row.contract) (w.chain.filter fun event => event.ledger ≤ mark row)

structure Indexed (position : String → Nat) (w : World) : Prop extends Chained w where
  starts : ∃ m, w.config.minDeploymentLedger = some m ∧ ∀ c ∈ w.config.allContractIds, m ≤ w.starts c
  rows : ∀ row ∈ w.db.indexingMetadata, row.contract ∈ w.db.contracts ∧ row.contract ∈ w.config.allContractIds
  resumes : w.db.indexingMetadata = [] ∨ ∃ cursor ledger, Resumes position w cursor ledger
  fully : Complete (·.lastFullyIndexedLedger) w
  round : ∀ r, w.round = some r → r.contractIds = w.config.allContractIds ∧ r.Behind position w

section Config

variable {config next : ContractConfig}

theorem minDeploymentLedger_le {m : Nat} (least : config.minDeploymentLedger = some m) {pool : PoolEntry}
    (member : pool ∈ config.enabledPools) : m ≤ pool.deploymentLedger :=
  (List.min?_eq_some_iff.mp least).2 _ (List.mem_map_of_mem member)

theorem le_startLedger {m : Nat} (least : config.minDeploymentLedger = some m) (c : String) :
    m ≤ config.startLedger c := by
  unfold ContractConfig.startLedger
  split
  · rename_i pool found
    exact minDeploymentLedger_le least (List.mem_of_find?_eq_some found)
  · rw [least]
    exact le_refl m

theorem minDeploymentLedger_mono {m : Nat} (least : config.minDeploymentLedger = some m)
    (more : config.enabledPools ⊆ next.enabledPools) : ∃ m', next.minDeploymentLedger = some m' ∧ m' ≤ m := by
  obtain ⟨pool, member, isM⟩ := List.mem_map.mp (List.min?_eq_some_iff.mp least).1
  cases least' : next.minDeploymentLedger with
  | none =>
    have empty := List.map_eq_nil_iff.mp (List.min?_eq_none_iff.mp least')
    have found := more member
    rw [empty] at found
    cases found
  | some m' => exact ⟨m', rfl, isM ▸ minDeploymentLedger_le least' (more member)⟩

theorem allContractIds_mono (more : config.enabledPools ⊆ next.enabledPools)
    (asp : next.aspMembership = config.aspMembership)
    (registry : next.publicKeyRegistry = config.publicKeyRegistry) :
    config.allContractIds ⊆ next.allContractIds := by
  unfold ContractConfig.allContractIds
  rw [asp, registry]
  exact List.append_subset.mpr ⟨List.Subset.trans (List.map_subset _ more) (List.subset_append_left _ _),
    List.subset_append_right _ _⟩

end Config

section Round

variable {position : String → Nat} {w : World} {r : Round}

/-- An event of the chain is behind a request or ahead of it. -/
theorem passed_or_ahead (position : String → Nat) (r : Round) (chain : List ContractEvent) {event : ContractEvent}
    (member : event ∈ chain) :
    event ∈ r.passed position chain ∨ event ∈ r.ahead position chain := by
  unfold Round.passed Round.ahead
  cases r.cursor with
  | some cursor =>
    rw [← List.take_append_drop (position cursor) chain] at member
    exact List.mem_append.mp member
  | none =>
    by_cases before : event.ledger < r.startLedger
    · exact Or.inl (List.mem_filter.mpr ⟨member, by simpa using before⟩)
    · exact Or.inr (List.mem_filter.mpr ⟨member, by simpa using Nat.not_lt.mp before⟩)

theorem passed_take_subset (chain : List ContractEvent) (n : Nat) :
    r.passed position (chain.take n) ⊆ r.passed position chain := by
  unfold Round.passed
  cases r.cursor with
  | some cursor =>
    intro event member
    dsimp only at member ⊢
    rw [List.take_take] at member
    exact List.take_subset_take_left chain (Nat.min_le_left _ _) member
  | none =>
    intro event member
    obtain ⟨inside, before⟩ := List.mem_filter.mp member
    exact List.mem_filter.mpr ⟨List.mem_of_mem_take inside, before⟩

theorem ahead_subset (chain : List ContractEvent) : r.ahead position chain ⊆ chain := by
  unfold Round.ahead
  cases r.cursor with
  | some cursor => exact List.drop_subset _ _
  | none => exact List.filter_subset_self _

theorem Round.Behind.kept (behind : r.Behind position w) :
    Kept w.starts w.db.rawContractEvents (· ∈ r.contractIds) (r.passed position w.chain) := by
  unfold Round.Behind at behind
  unfold Round.passed
  cases cursor : r.cursor with
  | some c =>
    rw [cursor] at behind
    exact behind.2
  | none =>
    rw [cursor] at behind
    rcases behind with ⟨-, kept⟩ | late
    · exact kept
    · -- every watched contract starts at or after the start ledger
      intro event member known since
      have before := of_decide_eq_true (List.mem_filter.mp member).2
      have bound := late event.contractId known
      omega

theorem Answers.kept {answer : EventsPage} (answers : Answers position w r answer)
    (behind : r.Behind position w) {raw : List RawEvent} (more : w.db.rawContractEvents ⊆ raw)
    (saved : ∀ event ∈ answer.events, event.row ∈ raw) :
    Kept w.starts raw (· ∈ r.contractIds) (w.chain.take (position answer.cursor)) := by
  intro event member known since
  rcases passed_or_ahead position r _ member with before | next
  · exact more (behind.kept event (passed_take_subset _ _ before) known since)
  · refine saved event ?_
    rw [answers.events]
    exact List.mem_filter.mpr ⟨next, by simpa using known⟩

theorem Answers.subset {answer : EventsPage} (answers : Answers position w r answer) :
    answer.events ⊆ w.chain.take (position answer.cursor) := by
  intro event member
  rw [answers.events] at member
  exact ahead_subset _ (List.mem_filter.mp member).1

theorem Answers.kept_of_empty {answer : EventsPage} (answers : Answers position w r answer)
    (behind : r.Behind position w) (empty : answer.events = []) :
    Kept w.starts w.db.rawContractEvents (· ∈ r.contractIds)
      (w.chain.filter fun event => event.ledger ≤ answer.latestLedger) := by
  intro event member known since
  obtain ⟨inside, upTo⟩ := List.mem_filter.mp member
  have bound := of_decide_eq_true upTo
  rcases passed_or_ahead position r _ inside with before | next
  · exact behind.kept event before known since
  · have beyond := answers.empty empty event next known
    omega

theorem progressLedger_of_events {answer : EventsPage} (busy : answer.events ≠ []) :
    ∃ event ∈ answer.events, event.ledger = answer.progressLedger := by
  have some : answer.events.isEmpty = false := by simpa using busy
  unfold EventsPage.progressLedger
  rw [some]
  simp only [Bool.false_eq_true, if_false]
  cases greatest : (answer.events.map (·.ledger)).max? with
  | none => exact absurd (List.map_eq_nil_iff.mp (List.max?_eq_none_iff.mp greatest)) busy
  | some ledger => exact List.mem_map.mp (List.max?_eq_some_iff.mp greatest).1

theorem progressLedger_of_empty {answer : EventsPage} (empty : answer.events = []) :
    answer.progressLedger = answer.latestLedger := by
  unfold EventsPage.progressLedger
  rw [empty]
  rfl

theorem Answers.mem_take {answer : EventsPage} (answers : Answers position w r answer)
    (sorted : w.chain.Pairwise fun a b => a.ledger ≤ b.ledger) (busy : answer.events ≠ [])
    {event : ContractEvent} (member : event ∈ w.chain) (before : event.ledger < answer.progressLedger) :
    event ∈ w.chain.take (position answer.cursor) := by
  obtain ⟨last, inside, isLast⟩ := progressLedger_of_events busy
  have there := answers.subset inside
  rw [← List.take_append_drop (position answer.cursor) w.chain] at member sorted
  rcases List.mem_append.mp member with taken | left
  · exact taken
  · have order := (List.pairwise_append.mp sorted).2.2 last there event left
    omega

theorem Answers.progress_le_tip {answer : EventsPage} (answers : Answers position w r answer)
    (chained : Chained w) : answer.progressLedger ≤ w.tip := by
  by_cases empty : answer.events = []
  · rw [progressLedger_of_empty empty]
    exact answers.latest
  · obtain ⟨last, inside, isLast⟩ := progressLedger_of_events empty
    rw [← isLast]
    exact (chained.bounded last (List.mem_of_mem_take (answers.subset inside))).2

theorem Answers.kept_below {answer : EventsPage} (answers : Answers position w r answer)
    (behind : r.Behind position w) (chained : Chained w) {raw : List RawEvent}
    (more : w.db.rawContractEvents ⊆ raw) (saved : ∀ event ∈ answer.events, event.row ∈ raw) :
    Kept w.starts raw (· ∈ r.contractIds) (w.chain.filter fun event => event.ledger < answer.progressLedger) := by
  by_cases empty : answer.events = []
  · rw [progressLedger_of_empty empty]
    refine ((answers.kept_of_empty behind empty).mono more).sub fun event member => ?_
    obtain ⟨inside, before⟩ := List.mem_filter.mp member
    exact List.mem_filter.mpr ⟨inside, by simpa using (of_decide_eq_true before).le⟩
  · refine (answers.kept behind more saved).sub fun event member => ?_
    obtain ⟨inside, before⟩ := List.mem_filter.mp member
    exact answers.mem_take chained.sorted empty inside (of_decide_eq_true before)

theorem Chained.saved (chained : Chained w) {events : List ContractEvent} (part : events ⊆ w.chain) :
    (∀ event ∈ events, event.row ∈ (saveEventsBatch events w.db).rawContractEvents) ∧
      ∀ r ∈ (saveEventsBatch events w.db).rawContractEvents, ∃ event ∈ w.chain, event.row = r := by
  have saved := saveEventsBatch_saved events w.db
  have source : ∀ r ∈ (saveEventsBatch events w.db).rawContractEvents, ∃ event ∈ w.chain, event.row = r := by
    intro r member
    rcases saved.source r member with older | ⟨event, inside, isRow⟩
    · exact chained.source r older
    · exact ⟨event, part inside, isRow⟩
  refine ⟨fun event inside => ?_, source⟩
  obtain ⟨r, there, same⟩ := List.mem_map.mp (saved.ids event inside)
  obtain ⟨other, known, isRow⟩ := source r there
  have ids : other.id = event.id := by rw [← same, ← isRow]; rfl
  rw [List.inj_on_of_nodup_map chained.ids known (part inside) ids] at isRow
  rw [isRow]
  exact there

end Round

section Steps

variable {position : String → Nat} {w : World}

theorem take_append_chain (chain events : List ContractEvent) {n : Nat} (inside : n ≤ chain.length) :
    (chain ++ events).take n = chain.take n := List.take_append_of_le_length inside

/-- New events are beyond the tip. -/
theorem filter_append_chain {chain events : List ContractEvent} {tip : Nat} {p : ContractEvent → Prop}
    [DecidablePred p] (later : ∀ event ∈ events, tip < event.ledger) (below : ∀ event, p event → event.ledger ≤ tip) :
    (chain ++ events).filter (fun event => p event) = chain.filter fun event => p event := by
  have none : events.filter (fun event => p event) = [] := by
    rw [List.filter_eq_nil_iff]
    intro event member holds
    have beyond := later event member
    have bound := below event (of_decide_eq_true holds)
    omega
  rw [List.filter_append, none, List.append_nil]

variable {mark : MetadataRow → Nat}

theorem Complete.close (complete : Complete mark w) {tip : Nat} {events : List ContractEvent}
    (honest : Honest position w (.close tip events)) : Complete mark (w.next (.close tip events)) := by
  obtain ⟨forward, later, -, -⟩ := honest
  intro row member
  obtain ⟨bound, kept⟩ := complete row member
  rw [← filter_append_chain (fun event new => (later event new).1) fun event before => before.trans bound] at kept
  exact ⟨bound.trans forward, kept⟩

theorem Complete.deploy (complete : Complete mark w)
    (rows : ∀ row ∈ w.db.indexingMetadata, row.contract ∈ w.config.allContractIds) (config : ContractConfig) :
    Complete mark (w.next (.deploy config)) := by
  intro row member
  obtain ⟨bound, kept⟩ := complete row member
  exact ⟨bound, kept.restart fun c isRow => if_pos (isRow ▸ rows row member)⟩

theorem Complete.clearCursors (complete : Complete mark w)
    (apart : ∀ row, mark { row with lastCursor := none } = mark row) : Complete mark (w.next .clearCursors) := by
  intro row member
  obtain ⟨before, inside, rfl⟩ := List.mem_map.mp member
  rw [apart]
  exact complete before inside

theorem Complete.eventsOnly (complete : Complete mark w) (events : List ContractEvent) :
    Complete mark { w with db := saveEventsBatch events w.db, round := none } := by
  have saved := saveEventsBatch_saved events w.db
  intro row member
  rw [saved.metadata] at member
  exact ⟨(complete row member).1, (complete row member).2.mono saved.mono⟩

theorem Indexed.close (inv : Indexed position w) {tip : Nat} {events : List ContractEvent}
    (honest : Honest position w (.close tip events)) : Indexed position (w.next (.close tip events)) := by
  have ⟨forward, later, order, ids⟩ := honest
  have beyond : ∀ event ∈ events, w.tip < event.ledger := fun event member => (later event member).1
  have below {ledger : Nat} (bound : ledger ≤ w.tip) :
      (w.chain ++ events).filter (fun event => event.ledger < ledger) =
        w.chain.filter fun event => event.ledger < ledger :=
    filter_append_chain beyond fun event before => by omega
  refine ⟨⟨?_, ?_, ids, ?_⟩, inv.starts, inv.rows, ?_, inv.fully.close honest, ?_⟩
  · refine List.pairwise_append.mpr ⟨inv.sorted, order, fun a old b new => ?_⟩
    exact (inv.bounded a old).2.trans (beyond b new).le
  · intro event member
    rcases List.mem_append.mp member with old | new
    · exact ⟨(inv.bounded event old).1, (inv.bounded event old).2.trans forward⟩
    · have start := beyond event new
      exact ⟨by omega, (later event new).2⟩
  · intro r member
    obtain ⟨event, inside, isRow⟩ := inv.source r member
    exact ⟨event, List.mem_append_left _ inside, isRow⟩
  · rcases inv.resumes with fresh | ⟨cursor, ledger, resumes⟩
    · exact Or.inl fresh
    · refine Or.inr ⟨cursor, ledger, resumes.shared, resumes.indexed.trans forward, ?_, fun c isC => ?_⟩
      · have kept := resumes.below
        rw [← below resumes.indexed] at kept
        exact kept
      · obtain ⟨frontier, kept⟩ := resumes.passed c isC
        rw [← take_append_chain w.chain events frontier] at kept
        exact ⟨by simp only [World.next, List.length_append]; omega, kept⟩
  · intro r running
    obtain ⟨ids, behind⟩ := inv.round r running
    refine ⟨ids, ?_⟩
    unfold Round.Behind at behind ⊢
    cases isCursor : r.cursor with
    | some c =>
      rw [isCursor] at behind
      obtain ⟨frontier, kept⟩ := behind
      rw [← take_append_chain w.chain events frontier] at kept
      exact ⟨by simp only [World.next, List.length_append]; omega, kept⟩
    | none =>
      rw [isCursor] at behind
      rcases behind with ⟨bound, kept⟩ | late
      · rw [← below bound] at kept
        exact Or.inl ⟨bound.trans forward, kept⟩
      · exact Or.inr late

theorem Indexed.deploy (inv : Indexed position w) {config : ContractConfig}
    (honest : Honest position w (.deploy config)) : Indexed position (w.next (.deploy config)) := by
  obtain ⟨idle, more, asp, registry⟩ := honest
  have watched := allContractIds_mono more asp registry
  have rows : ∀ c, c ∈ w.db.indexingMetadata.map (·.contract) → c ∈ w.config.allContractIds := by
    intro c member
    obtain ⟨row, inside, rfl⟩ := List.mem_map.mp member
    exact (inv.rows row inside).2
  have same : ∀ c, c ∈ w.config.allContractIds →
      (if c ∈ w.config.allContractIds then w.starts c else config.startLedger c) = w.starts c :=
    fun c known => if_pos known
  refine ⟨⟨inv.sorted, inv.bounded, inv.ids, inv.source⟩, ?_, ?_, ?_,
    inv.fully.deploy (fun row member => (inv.rows row member).2) config, ?_⟩
  · obtain ⟨m, least, late⟩ := inv.starts
    obtain ⟨m', least', smaller⟩ := minDeploymentLedger_mono least more
    refine ⟨m', least', fun c _ => ?_⟩
    change m' ≤ if c ∈ w.config.allContractIds then w.starts c else config.startLedger c
    split
    · rename_i known
      exact smaller.trans (late c known)
    · exact le_startLedger least' c
  · exact fun row member => ⟨(inv.rows row member).1, watched (inv.rows row member).2⟩
  · rcases inv.resumes with fresh | ⟨cursor, ledger, resumes⟩
    · exact Or.inl fresh
    · refine Or.inr ⟨cursor, ledger, resumes.shared, resumes.indexed, ?_, fun c isC => ?_⟩
      · exact resumes.below.restart fun c member => same c (rows c member)
      · obtain ⟨frontier, kept⟩ := resumes.passed c isC
        exact ⟨frontier, kept.restart fun c member => same c (rows c member)⟩
  · intro r running
    rw [Option.isNone_iff_eq_none] at idle
    exact absurd (running.symm.trans idle) (Option.some_ne_none r)

theorem Indexed.clearCursors (inv : Indexed position w) (honest : Honest position w .clearCursors) :
    Indexed position (w.next .clearCursors) := by
  have contracts : (w.next .clearCursors).db.indexingMetadata.map (·.contract) =
      w.db.indexingMetadata.map (·.contract) := by
    change (w.db.indexingMetadata.map fun row => { row with lastCursor := none }).map (·.contract) = _
    rw [List.map_map]
    rfl
  have rows : ∀ row ∈ (w.next .clearCursors).db.indexingMetadata,
      ∃ before ∈ w.db.indexingMetadata, row = { before with lastCursor := none } := by
    intro row member
    obtain ⟨before, inside, rfl⟩ := List.mem_map.mp member
    exact ⟨before, inside, rfl⟩
  refine ⟨⟨inv.sorted, inv.bounded, inv.ids, inv.source⟩, inv.starts, ?_, ?_,
    inv.fully.clearCursors fun _ => rfl, ?_⟩
  · intro row member
    obtain ⟨before, inside, rfl⟩ := rows row member
    exact inv.rows before inside
  · rcases inv.resumes with fresh | ⟨cursor, ledger, resumes⟩
    · left
      change w.db.indexingMetadata.map _ = []
      rw [fresh]
      rfl
    · refine Or.inr ⟨none, ledger, ?_, resumes.indexed, ?_, fun c isC => by cases isC⟩
      · intro row member
        obtain ⟨before, inside, rfl⟩ := rows row member
        exact ⟨rfl, (resumes.shared before inside).2⟩
      · rw [contracts]
        exact resumes.below
  · intro r running
    have idle := Option.isNone_iff_eq_none.mp honest
    exact absurd (running.symm.trans idle) (Option.some_ne_none r)

theorem Indexed.setRound (inv : Indexed position w) (round : Option Round)
    (behind : ∀ r, round = some r → r.contractIds = w.config.allContractIds ∧ r.Behind position w) :
    Indexed position { w with round := round } := by
  refine ⟨⟨inv.sorted, inv.bounded, inv.ids, inv.source⟩, inv.starts, inv.rows, ?_, inv.fully, behind⟩
  rcases inv.resumes with fresh | ⟨cursor, ledger, resumes⟩
  · exact Or.inl fresh
  · exact Or.inr ⟨cursor, ledger, resumes.shared, resumes.indexed, resumes.below, resumes.passed⟩

theorem next_startRound {m : Nat} (least : w.config.minDeploymentLedger = some m) :
    w.next .startRound = { w with round := some (Round.start w.config m w.db) } := by
  simp only [World.next, least]

theorem next_startRound_none (unset : w.config.minDeploymentLedger = none) : w.next .startRound = w := by
  simp only [World.next, unset]

/-- A round starts with everything behind it stored, where the contracts join in time. -/
theorem Indexed.startRound (inv : Indexed position w) (joins : JoinsInTime position w .startRound) :
    Indexed position (w.next .startRound) := by
  obtain ⟨m, least, late⟩ := inv.starts
  rw [next_startRound least]
  refine inv.setRound _ fun r running => ?_
  obtain rfl := Option.some.inj running
  refine ⟨rfl, ?_⟩
  have joined := joins m least
  by_cases fresh : w.db.indexingMetadata = []
  · -- the first round starts where the earliest pool was deployed
    obtain ⟨ledger, cursor⟩ := resume_of_no_metadata w.config.allContractIds m fresh
    unfold Round.Behind Round.start
    dsimp only
    rw [cursor, ledger]
    exact Or.inr late
  · obtain ⟨cursor, ledger, resumes⟩ := inv.resumes.resolve_left fresh
    obtain ⟨row, member⟩ := List.exists_mem_of_ne_nil _ fresh
    obtain ⟨fromLedger, fromCursor⟩ := resume_of_shared m member (inv.rows row member).1
      (inv.rows row member).2 resumes.shared
    -- the contracts with a row have their events, the others have told none
    have all {passed : List ContractEvent}
        (isPassed : (Round.start w.config m w.db).passed position w.chain = passed)
        (kept : Kept w.starts w.db.rawContractEvents (· ∈ w.db.indexingMetadata.map (·.contract)) passed) :
        Kept w.starts w.db.rawContractEvents (· ∈ w.config.allContractIds) passed := by
      intro event inside watched since
      by_cases known : event.contractId ∈ w.db.indexingMetadata.map (·.contract)
      · exact kept event inside known since
      · have silent := joined event.contractId watched known event (isPassed ▸ inside) rfl
        omega
    unfold Round.Behind
    unfold Round.passed at all
    have isCursor : (Round.start w.config m w.db).cursor = cursor.filter (· ≠ "") := fromCursor
    have isLedger : (Round.start w.config m w.db).startLedger = ledger := fromLedger
    rw [isCursor] at all ⊢
    cases point : cursor.filter (· ≠ "") with
    | some c =>
      rw [point] at all
      obtain ⟨frontier, kept⟩ := resumes.passed c point
      exact ⟨frontier, all rfl kept⟩
    | none =>
      rw [point] at all
      rw [isLedger] at all ⊢
      exact Or.inl ⟨resumes.indexed, all rfl resumes.below⟩

theorem Indexed.eventsOnly (inv : Indexed position w) {answer : EventsPage} (part : answer.events ⊆ w.chain) :
    Indexed position { w with db := saveEventsBatch answer.events w.db, round := none } := by
  have saved := saveEventsBatch_saved answer.events w.db
  refine ⟨⟨inv.sorted, inv.bounded, inv.ids, (inv.toChained.saved part).2⟩, inv.starts, ?_, ?_,
    inv.fully.eventsOnly answer.events, fun r running => by cases running⟩
  · intro row member
    rw [saved.metadata] at member
    exact ⟨saved.contracts (inv.rows row member).1, (inv.rows row member).2⟩
  · rcases inv.resumes with fresh | ⟨cursor, ledger, resumes⟩
    · exact Or.inl (saved.metadata.trans fresh)
    · refine Or.inr ⟨cursor, ledger, ?_, resumes.indexed, ?_, fun c isC => ?_⟩
      · rw [saved.metadata]
        exact resumes.shared
      · rw [saved.metadata]
        exact resumes.below.mono saved.mono
      · rw [saved.metadata]
        exact ⟨(resumes.passed c isC).1, (resumes.passed c isC).2.mono saved.mono⟩

theorem Indexed.pageSaved (inv : Indexed position w) {r : Round} (running : w.round = some r)
    {answer : EventsPage} (answers : Answers position w r answer) : Indexed position (w.page r answer .all) := by
  obtain ⟨watched, behind⟩ := inv.round r running
  have part : answer.events ⊆ w.chain := List.Subset.trans answers.subset (List.take_subset _ _)
  have events := saveEventsBatch_saved answer.events w.db
  have progress := saveProgress_saved r.contractIds answer (saveEventsBatch answer.events w.db)
  obtain ⟨saved, source⟩ := inv.toChained.saved part
  unfold World.page
  dsimp only
  generalize saveProgress r.contractIds answer (saveEventsBatch answer.events w.db) = next at progress ⊢
  have more : w.db.rawContractEvents ⊆ next.rawContractEvents := progress.raw ▸ events.mono
  have stored : ∀ event ∈ answer.events, event.row ∈ next.rawContractEvents := progress.raw ▸ saved
  have tip := answers.progress_le_tip inv.toChained
  -- every row is one that the page has written
  have rows : ∀ row ∈ next.indexingMetadata, row.contract ∈ r.contractIds ∧ row.contract ∈ next.contracts ∧
      RowSaved answer (saveEventsBatch answer.events w.db) row := by
    intro row member
    rcases progress.rows row member with written | ⟨apart, older⟩
    · exact written
    · rw [events.metadata] at older
      exact absurd (watched ▸ (inv.rows row older).2) apart
  have narrow : ∀ c, c ∈ next.indexingMetadata.map (·.contract) → c ∈ r.contractIds := by
    intro c member
    obtain ⟨row, inside, rfl⟩ := List.mem_map.mp member
    exact (rows row inside).1
  refine ⟨⟨inv.sorted, inv.bounded, inv.ids, progress.raw ▸ source⟩, inv.starts, ?_, ?_, ?_, ?_⟩
  · exact fun row member => ⟨(rows row member).2.1, watched ▸ (rows row member).1⟩
  · refine Or.inr ⟨some answer.cursor, answer.progressLedger, ?_, tip, ?_, fun c isC => ?_⟩
    · exact fun row member => ⟨(rows row member).2.2.cursor, (rows row member).2.2.indexed⟩
    · exact (answers.kept_below behind inv.toChained more stored).narrow narrow
    · obtain rfl : answer.cursor = c := by
        rw [Option.filter_some] at isC
        split at isC
        · exact Option.some.inj isC
        · cases isC
      exact ⟨answers.frontier, (answers.kept behind more stored).narrow narrow⟩
  · intro row member
    obtain ⟨inside, -, written⟩ := rows row member
    change row.lastFullyIndexedLedger ≤ w.tip ∧ Kept w.starts next.rawContractEvents (· = row.contract)
      (w.chain.filter fun event => event.ledger ≤ row.lastFullyIndexedLedger)
    rcases written.fully with ⟨isProgress, empty⟩ | zero | ⟨before, there, same, equal⟩
    · rw [isProgress, progressLedger_of_empty empty]
      refine ⟨answers.latest, ((answers.kept_of_empty behind empty).mono more).narrow fun c isRow => ?_⟩
      rw [isRow]
      exact inside
    · rw [zero]
      refine ⟨Nat.zero_le _, fun event member => ?_⟩
      obtain ⟨told, upTo⟩ := List.mem_filter.mp member
      have positive := (inv.bounded event told).1
      have bound := of_decide_eq_true upTo
      omega
    · rw [events.metadata] at there
      rw [← equal, ← same]
      exact ⟨(inv.fully before there).1, (inv.fully before there).2.mono more⟩
  · intro other goesOn
    dsimp only at goesOn
    split at goesOn
    · cases goesOn
    · obtain rfl := Option.some.inj goesOn
      exact ⟨watched, answers.frontier, answers.kept behind more stored⟩

theorem Indexed.pageComplete (inv : Indexed position w) {r : Round} (running : w.round = some r)
    {answer : EventsPage} (answers : Answers position w r answer)
    (whole : EndsLedger position w (.page answer .all)) :
    Complete (·.lastIndexedLedger) (w.page r answer .all) := by
  obtain ⟨watched, behind⟩ := inv.round r running
  have part : answer.events ⊆ w.chain := List.Subset.trans answers.subset (List.take_subset _ _)
  have events := saveEventsBatch_saved answer.events w.db
  have progress := saveProgress_saved r.contractIds answer (saveEventsBatch answer.events w.db)
  have stored := (inv.toChained.saved part).1
  have upTo : Kept w.starts (saveEventsBatch answer.events w.db).rawContractEvents (· ∈ r.contractIds)
      (w.chain.filter fun event => event.ledger ≤ answer.progressLedger) := by
    by_cases empty : answer.events = []
    · rw [progressLedger_of_empty empty]
      exact (answers.kept_of_empty behind empty).mono events.mono
    · intro event member known since
      obtain ⟨inside, bound⟩ := List.mem_filter.mp member
      have last := of_decide_eq_true bound
      have pages := answers.kept behind events.mono stored
      have split := inside
      rw [← List.take_append_drop (position answer.cursor) w.chain] at split
      rcases List.mem_append.mp split with taken | left
      · exact pages event taken known since
      · have other := whole r running empty event left known
        exact pages event (answers.mem_take inv.sorted empty inside (lt_of_le_of_ne last other)) known since
  intro row member
  rcases progress.rows row member with ⟨inside, -, written⟩ | ⟨apart, older⟩
  · change row.lastIndexedLedger ≤ w.tip ∧ Kept w.starts (saveProgress r.contractIds answer
      (saveEventsBatch answer.events w.db)).rawContractEvents (· = row.contract)
      (w.chain.filter fun event => event.ledger ≤ row.lastIndexedLedger)
    rw [written.indexed, progress.raw]
    refine ⟨answers.progress_le_tip inv.toChained, upTo.narrow fun c isRow => ?_⟩
    rw [isRow]
    exact inside
  · rw [events.metadata] at older
    exact absurd (watched ▸ (inv.rows row older).2) apart

theorem next_page (answer : EventsPage) (saved : Saved) :
    w.next (.page answer saved) = w ∧ w.round = none ∨
      ∃ r, w.round = some r ∧ w.next (.page answer saved) = w.page r answer saved := by
  unfold World.next
  cases w.round with
  | none => exact Or.inl ⟨rfl, rfl⟩
  | some r => exact Or.inr ⟨r, rfl, rfl⟩

theorem Indexed.step (inv : Indexed position w) {action : Action} (honest : Honest position w action)
    (joins : JoinsInTime position w action) : Indexed position (w.next action) := by
  cases action with
  | close tip events => exact inv.close honest
  | deploy config => exact inv.deploy honest
  | clearCursors => exact inv.clearCursors honest
  | startRound => exact inv.startRound joins
  | stop => exact inv.setRound none fun r running => by cases running
  | page answer saved =>
    rcases next_page answer saved with ⟨same, -⟩ | ⟨r, running, result⟩
    · rw [same]
      exact inv
    · have answers := honest r running
      rw [result]
      cases saved with
      | all => exact inv.pageSaved running answers
      | eventsOnly => exact inv.eventsOnly (List.Subset.trans answers.subset (List.take_subset _ _))

/-- The ledger of the last page is complete too where no page cuts a ledger. -/
theorem Complete.step (inv : Indexed position w) (complete : Complete (·.lastIndexedLedger) w) {action : Action}
    (honest : Honest position w action) (whole : EndsLedger position w action) :
    Complete (·.lastIndexedLedger) (w.next action) := by
  cases action with
  | close tip events => exact complete.close honest
  | deploy config => exact complete.deploy (fun row member => (inv.rows row member).2) config
  | clearCursors => exact complete.clearCursors fun _ => rfl
  | stop => exact complete
  | startRound =>
    cases least : w.config.minDeploymentLedger with
    | none =>
      rw [next_startRound_none least]
      exact complete
    | some m =>
      rw [next_startRound least]
      exact complete
  | page answer saved =>
    rcases next_page answer saved with ⟨same, -⟩ | ⟨r, running, result⟩
    · rw [same]
      exact complete
    · rw [result]
      cases saved with
      | all => exact inv.pageComplete running (honest r running) whole
      | eventsOnly => exact complete.eventsOnly answer.events

theorem indexed_initial {config : ContractConfig} (valid : config.enabledPools ≠ []) :
    Indexed position (World.initial config) := by
  refine ⟨⟨List.Pairwise.nil, by simp [World.initial], List.nodup_nil, by simp [World.initial, Database.empty]⟩,
    ?_, by simp [World.initial, Database.empty], Or.inl rfl, ?_, fun r running => by cases running⟩
  · cases least : config.minDeploymentLedger with
    | none => exact absurd (List.map_eq_nil_iff.mp (List.min?_eq_none_iff.mp least)) valid
    | some m => exact ⟨m, least, fun c _ => le_startLedger least c⟩
  · intro row member
    cases member

end Steps

end PrivatePayments.Indexer
