import PrivatePayments.Bootnode.Chain

/-!
The cached pages stay one chain through every round that keeps the cursor on it, whatever
fails in between, and an empty page with a cursor of its own breaks it.
-/

namespace PrivatePayments.Bootnode
open LocalState Indexer Library

/-- The cached pages are one chain, and the stored cursor is on it. -/
def Chained (w : World) : Prop :=
  ∃ pages, Chain w.storage (.fromLedger w.config.minDeploymentLedger) pages ∧
    (∀ request page, w.storage.cached request = some page →
      request ∈ requests (.fromLedger w.config.minDeploymentLedger) pages) ∧
    requestOf w.config w.storage.lastCursor ∈ requests (.fromLedger w.config.minDeploymentLedger) pages

/-- A round while it stores an answer that keeps the cursor on the chain. -/
structure Storing (w : World) (r : Round) (page : EventsPage) : Prop where
  -- until the cursor is stored the request is the one from the stored cursor
  current : .updateCursor page.cursor ∈ r.pending → r.request = requestOf w.config w.storage.lastCursor
  quiet : page.events = [] → r.request = .afterCursor page.cursor
  repeated : page.events ≠ [] → ∀ kept, w.storage.cached r.request = some kept → kept.cursor = page.cursor
  inserted : page.events ≠ [] → r.pending = [.updateCursor page.cursor] → (w.storage.cached r.request).isSome

def Orderly (w : World) (r : Round) : Prop :=
  match r.page with
  | none => r.request = requestOf w.config w.storage.lastCursor
  | some page => Storing w r page

structure Linked (position : String → Nat) (w : World) : Prop extends Archived position w where
  chained : Chained w
  round : ∀ r, w.round = some r → Orderly w r

section Steps

variable {position : String → Nat} {w : World}

/-- The chain depends on what is cached and on the stored cursor. -/
theorem Chained.storage (chained : Chained w) {s : Storage} (cached : s.cached = w.storage.cached)
    (cursor : s.lastCursor = w.storage.lastCursor) : Chained { w with storage := s } := by
  obtain ⟨pages, chain, keys, stored⟩ := chained
  refine ⟨pages, chain.congr cached, fun asked page found => keys asked page (cached ▸ found), ?_⟩
  change requestOf w.config s.lastCursor ∈ _
  rw [cursor]
  exact stored

/-- Nothing is cached under the cursor of a page that answers a request under which nothing is cached. -/
theorem Linked.fresh (inv : Linked position w) {pages : List EventsPage}
    (chain : Chain w.storage (.fromLedger w.config.minDeploymentLedger) pages)
    (keys : ∀ request page, w.storage.cached request = some page →
      request ∈ requests (.fromLedger w.config.minDeploymentLedger) pages)
    {request : Request} {page : EventsPage}
    (member : request ∈ requests (.fromLedger w.config.minDeploymentLedger) pages)
    (answers : Answers position w.stream request page) (busy : page.events ≠ [])
    (missed : w.storage.cached request = none) :
    w.storage.cached (.afterCursor page.cursor) = none ∧ .afterCursor page.cursor ≠ request := by
  have isLast := chain.eq_last member missed
  cases ends : pages.getLast? with
  | none =>
    rw [ends] at isLast
    obtain rfl := List.getLast?_eq_none_iff.mp ends
    refine ⟨?_, fun same => ?_⟩
    · cases found : w.storage.cached (.afterCursor page.cursor) with
      | none => rfl
      | some old =>
        have known := List.mem_singleton.mp (keys _ _ found)
        cases known
    · rw [isLast] at same
      cases same
  | some last =>
    rw [ends] at isLast
    obtain rfl : request = .afterCursor last.cursor := isLast
    have further := answers.position_lt busy
    refine ⟨?_, fun same => ?_⟩
    · cases found : w.storage.cached (.afterCursor page.cursor) with
      | none => rfl
      | some old =>
        rcases List.mem_cons.mp (keys _ _ found) with first | later
        · cases first
        · obtain ⟨before, inside, same⟩ := List.mem_map.mp later
          have bound := chain.position_le_last inv.honored ends before inside
          rw [Request.afterCursor.inj same] at bound
          omega
    · rw [Request.afterCursor.inj same] at further
      exact absurd further (lt_irrefl _)

theorem Linked.insert (inv : Linked position w) {request : Request} {page : EventsPage}
    (answers : Answers position w.stream request page) (busy : page.events ≠ [])
    (current : request = requestOf w.config w.storage.lastCursor) :
    Chained { w with storage := w.storage.insertGetEventsPage (insertOf request page) } := by
  obtain ⟨pages, chain, keys, stored⟩ := inv.chained
  rw [← current] at stored
  cases old : w.storage.cached request with
  | some before =>
    rw [insert_of_cached old]
    exact inv.chained
  | none =>
    obtain ⟨free, moved⟩ := inv.fresh chain keys stored answers busy old
    rw [insert_of_missed busy old]
    refine ⟨pages ++ [page], chain.extend stored old ?_ (fun asked other => ?_) ?_, fun asked kept cached => ?_, ?_⟩
    · rw [store_cached, if_pos rfl]
    · rw [store_cached, if_neg other]
    · rw [store_cached, if_neg moved]
      exact free
    · rw [requests_append]
      refine List.mem_append_left _ ?_
      change (w.storage.storeGetEventsPage (insertOf request page)).cached asked = some kept at cached
      rw [store_cached] at cached
      split_ifs at cached with same
      · exact same ▸ stored
      · exact keys asked kept cached
    · change requestOf w.config w.storage.lastCursor ∈ _
      rw [← current, requests_append]
      exact List.mem_append_left _ stored

theorem Linked.write (inv : Linked position w) {r : Round} {page : EventsPage} {call : Write} {pending : List Write}
    (storing : Storing w r page) (answers : Answers position w.stream r.request page)
    (suffix : r.pending <:+ pageWrites r.request page) (calls : r.pending = call :: pending) :
    Chained { w with storage := call.apply w.storage } := by
  rw [calls] at suffix
  have cursorOn (member : .updateCursor page.cursor ∈ r.pending)
      (kept : .afterCursor page.cursor = r.request ∨
        ∃ old, w.storage.cached r.request = some old ∧ old.cursor = page.cursor) :
      Chained { w with storage := (Write.updateCursor page.cursor).apply w.storage } := by
    obtain ⟨pages, chain, keys, stored⟩ := inv.chained
    rw [← storing.current member] at stored
    refine ⟨pages, chain.congr rfl, keys, ?_⟩
    change Request.afterCursor page.cursor ∈ _
    rcases kept with same | ⟨old, cached, same⟩
    · exact same ▸ stored
    · rw [← same]
      exact List.mem_cons_of_mem _ (List.mem_map.mpr ⟨old, chain.mem_of_cached stored cached, rfl⟩)
  rcases pageWrites_cases suffix with ⟨empty, ⟨rfl, -⟩ | ⟨rfl, -⟩ | ⟨rfl, -⟩⟩ | ⟨busy,
    ⟨rfl, -⟩ | ⟨rfl, rest⟩ | ⟨rfl, rest⟩⟩
  · exact cursorOn (calls ▸ List.mem_cons_self) (Or.inl (storing.quiet empty).symm)
  · exact inv.chained.storage rfl rfl
  · exact inv.chained.storage rfl rfl
  · exact inv.chained.storage rfl rfl
  · refine inv.insert answers busy (storing.current ?_)
    rw [calls, rest]
    exact List.mem_cons_of_mem _ List.mem_cons_self
  · obtain ⟨old, cached⟩ := Option.isSome_iff_exists.mp (storing.inserted busy (by rw [calls, rest]))
    exact cursorOn (calls ▸ List.mem_cons_self) (Or.inr ⟨old, cached, storing.repeated busy old cached⟩)

/-- After a storage call the round goes on storing, or asks from the stored cursor, or is over. -/
theorem Storing.write {r : Round} {page : EventsPage} {call : Write} {pending : List Write}
    (storing : Storing w r page) (suffix : r.pending <:+ pageWrites r.request page)
    (isPage : r.page = some page) (calls : r.pending = call :: pending) (round : Option Round) :
    ∀ next, (if pending.isEmpty then ({ r with pending := pending } : Round).proceed
        else some { r with pending := pending }) = some next →
      Orderly { w with storage := call.apply w.storage, round := round } next := by
  rw [calls] at suffix
  intro next goes
  rcases pageWrites_cases suffix with ⟨empty, ⟨rfl, rfl⟩ | ⟨rfl, rfl⟩ | ⟨rfl, rfl⟩⟩ |
    ⟨busy, ⟨rfl, rfl⟩ | ⟨rfl, rfl⟩ | ⟨rfl, rfl⟩⟩
  · obtain rfl := Option.some.inj goes
    simp only [Orderly, isPage]
    exact ⟨by simp, storing.quiet, storing.repeated, by simp⟩
  · obtain rfl := Option.some.inj goes
    simp only [Orderly, isPage]
    exact ⟨by simp, storing.quiet, storing.repeated, by simp⟩
  · simp [Round.proceed, isPage, empty] at goes
  · obtain rfl := Option.some.inj goes
    simp only [Orderly, isPage]
    refine ⟨fun _ => storing.current ?_, storing.quiet, storing.repeated, by simp⟩
    rw [calls]
    simp
  · obtain rfl := Option.some.inj goes
    simp only [Orderly, isPage]
    refine ⟨fun _ => ?_, storing.quiet, fun _ kept cached => ?_, fun _ _ => ?_⟩
    · change r.request = requestOf w.config (w.storage.insertGetEventsPage (insertOf r.request page)).lastCursor
      rw [insert_lastCursor]
      exact storing.current (by rw [calls]; simp)
    · change (w.storage.insertGetEventsPage (insertOf r.request page)).cached r.request = some kept at cached
      rw [insert_cached w.storage busy, if_pos rfl] at cached
      obtain rfl := Option.some.inj cached
      cases old : w.storage.cached r.request with
      | some before => exact storing.repeated busy before old
      | none => rfl
    · change ((w.storage.insertGetEventsPage (insertOf r.request page)).cached r.request).isSome
      rw [insert_cached w.storage busy, if_pos rfl]
      rfl
  · simp only [List.isEmpty_nil, Round.proceed, isPage, List.isEmpty_iff, busy, if_true, if_false,
      Option.some.injEq] at goes
    subst goes
    rfl

theorem Orderly.close {r : Round} (orderly : Orderly w r) (tip : Nat) (events : List ContractEvent) :
    Orderly { w with stream := w.stream ++ events, tip := tip } r := by
  unfold Orderly at orderly ⊢
  split at orderly
  · exact orderly
  · exact ⟨orderly.current, orderly.quiet, orderly.repeated, orderly.inserted⟩

theorem Linked.step (inv : Linked position w) {action : Action} (honest : Honest position w action)
    (keeps : KeepsCursor w action) : Linked position (w.next action) := by
  have archived := inv.toArchived.step honest
  cases action with
  | close tip events => exact ⟨archived, inv.chained, fun r running => (inv.round r running).close tip events⟩
  | startRound latest =>
    refine ⟨archived, inv.chained, fun r running => ?_⟩
    obtain rfl := Option.some.inj running
    rfl
  | answer page =>
    rcases w.next_answer page with same | ⟨request, left, running, next⟩
    · rw [same]
      exact inv
    · have asks := inv.round _ running
      obtain ⟨quiet, repeated⟩ := keeps _ running
      rw [next] at archived ⊢
      refine ⟨archived, inv.chained, fun r goes => ?_⟩
      obtain rfl := Option.some.inj goes
      refine ⟨fun _ => asks, quiet, repeated, fun busy alone => ?_⟩
      simp [pageWrites, busy] at alone
  | write =>
    rcases w.next_write with same | ⟨r, call, pending, running, calls, next⟩
    · rw [same]
      exact inv
    · have orderly := inv.round _ running
      have faithful := inv.answered _ running
      rw [next] at archived ⊢
      obtain isPage | ⟨page, isPage⟩ := r.page.eq_none_or_eq_some
      · simp only [Orderly, Round.Faithful, isPage] at orderly faithful
        obtain ⟨tip, rfl⟩ := faithful call (calls ▸ List.mem_cons_self)
        refine ⟨archived, inv.chained.storage rfl rfl, fun after goes => ?_⟩
        have same : after = { r with pending := pending } := by
          simp only [Round.proceed, isPage, ite_self] at goes
          rw [← Option.some.inj goes, isPage]
        subst same
        simp only [Orderly, isPage]
        exact orderly
      · simp only [Orderly, Round.Faithful, isPage] at orderly faithful
        obtain ⟨answers, -, suffix⟩ := faithful
        exact ⟨archived, inv.write orderly answers suffix calls, orderly.write suffix isPage calls _⟩
  | stop => exact ⟨archived, inv.chained, fun r running => by cases running⟩
  | restart => exact ⟨archived, inv.chained, fun r running => by cases running⟩

theorem linked_initial (position : String → Nat) (config : Config) : Linked position (World.initial config) where
  toArchived := archived_initial position config
  chained := by
    refine ⟨[], rfl, fun asked _ cached => ?_, List.mem_singleton_self _⟩
    cases asked with
    | fromLedger _ => cases cached
    | afterCursor _ => cases cached
  round _ running := by cases running

theorem Linked.servedChain (inv : Linked position w) : ServedChain w := by
  obtain ⟨pages, chain, keys, -⟩ := inv.chained
  refine ⟨pages, chain, fun asked page cached => ?_, chain.events_prefix inv.honored inv.sorted⟩
  have member := keys asked page cached
  exact ⟨member, chain.mem_of_cached member cached⟩

end Steps

/-- In every run in which the answers keep the cursor on the chain, whatever fails or restarts in between,
the cached pages are one chain from the deployment ledger with the events of the stream. -/
theorem bootnode_serves_one_chain (position : String → Nat) (config : Config) (actions : List Action)
    (honest : Along World.next (Honest position) (World.initial config) actions)
    (keeps : Along World.next KeepsCursor (World.initial config) actions) :
    ServedChain (actions.foldl World.next (World.initial config)) := by
  have inv := (honest.and keeps).invariant (fun w action inv meets => inv.step meets.1 meets.2)
    (linked_initial position config)
  exact inv.servedChain

def sampleConfig : Config where
  minDeploymentLedger := 1
  maxPagesPerRound := 10
  redirectDays := 5
  ledgerSeconds := 5
  initialLedgerTip := 0

def eventAt3 : ContractEvent := ⟨"0000000012884905984-0000000000", 3, "CPOOL", ["AAAA"], "AAAA"⟩
def eventAt6 : ContractEvent := ⟨"0000000025769807872-0000000000", 6, "CPOOL", ["AAAA"], "AAAA"⟩

def samplePosition (cursor : String) : Nat := if cursor = "c3" then 2 else 1

/-- A round takes the first event and catches up with an empty page, and the next round takes the second event. -/
def catchUpTwice (quiet : String) : List Action :=
  [.close 4 [eventAt3], .startRound 4, .write,
    .answer ⟨"c1", [eventAt3], 4⟩, .write, .write, .write,
    .answer ⟨quiet, [], 4⟩, .write, .write, .write,
    .close 6 [eventAt6], .startRound 6, .write,
    .answer ⟨"c3", [eventAt6], 6⟩, .write, .write, .write]

def beforeAction (quiet : String) (n : Nat) : World :=
  ((catchUpTwice quiet).take n).foldl World.next (World.initial sampleConfig)

theorem catchUpTwice_honest (quiet : String) (caughtUp : samplePosition quiet = 1) :
    Along World.next (Honest samplePosition) (World.initial sampleConfig) (catchUpTwice quiet) := by
  have first : (beforeAction quiet 3).round = some ⟨.fromLedger 1, none, [], 10⟩ := rfl
  have second : (beforeAction quiet 7).round = some ⟨.afterCursor "c1", none, [], 9⟩ := rfl
  have third : (beforeAction quiet 14).round = some ⟨.afterCursor quiet, none, [], 10⟩ := rfl
  refine ⟨by simp [Honest, World.initial, eventAt3], trivial, trivial, ⟨le_refl 4, fun r running => ?_⟩,
    trivial, trivial, trivial, ⟨le_refl 4, fun r running => ?_⟩, trivial, trivial, trivial, ?_, trivial, trivial,
    ⟨le_refl 6, fun r running => ?_⟩, trivial, trivial, trivial, trivial⟩
  · obtain rfl := Option.some.inj (first.symm.trans running)
    exact ⟨by decide, by decide⟩
  · obtain rfl := Option.some.inj (second.symm.trans running)
    exact ⟨caughtUp.le, by simp only [caughtUp]; decide⟩
  · change 4 ≤ 6 ∧ (∀ event ∈ [eventAt6], 4 < event.ledger ∧ event.ledger ≤ 6) ∧
      [eventAt6].Pairwise (fun a b => a.ledger ≤ b.ledger) ∧ (([eventAt3] ++ [eventAt6]).map (·.id)).Nodup
    simp [eventAt3, eventAt6]
  · obtain rfl := Option.some.inj (third.symm.trans running)
    have answers : Answers samplePosition [eventAt3, eventAt6] (.afterCursor quiet) ⟨"c3", [eventAt6], 6⟩ :=
      ⟨by decide, by simp only [Request.ahead, caughtUp]; decide⟩
    exact answers

theorem bootnode_serves_one_chain_sample :
    ServedChain ((catchUpTwice "c1").foldl World.next (World.initial sampleConfig)) := by
  have first : (beforeAction "c1" 3).round = some ⟨.fromLedger 1, none, [], 10⟩ := rfl
  have second : (beforeAction "c1" 7).round = some ⟨.afterCursor "c1", none, [], 9⟩ := rfl
  have third : (beforeAction "c1" 14).round = some ⟨.afterCursor "c1", none, [], 10⟩ := rfl
  have uncached (n : Nat) (request : Request) (missed : ((beforeAction "c1" n).storage.cached request).isNone)
      (kept : EventsPage) (cached : (beforeAction "c1" n).storage.cached request = some kept) (cursor : String) :
      kept.cursor = cursor := by
    rw [cached] at missed
    cases missed
  refine bootnode_serves_one_chain samplePosition sampleConfig (catchUpTwice "c1")
    (catchUpTwice_honest "c1" (by decide)) ⟨trivial, trivial, trivial, fun r running => ?_, trivial, trivial, trivial,
      fun r running => ?_, trivial, trivial, trivial, trivial, trivial, trivial, fun r running => ?_, trivial,
      trivial, trivial, trivial⟩
  · obtain rfl := Option.some.inj (first.symm.trans running)
    exact ⟨fun empty => (by cases empty), fun _ kept cached => uncached 3 (.fromLedger 1)
      (by decide +kernel) kept cached _⟩
  · obtain rfl := Option.some.inj (second.symm.trans running)
    exact ⟨fun _ => rfl, fun busy => absurd rfl busy⟩
  · obtain rfl := Option.some.inj (third.symm.trans running)
    exact ⟨fun empty => (by cases empty), fun _ kept cached =>
      uncached 14 (.afterCursor "c1") (by decide +kernel) kept cached _⟩

/-- The empty page came with a cursor of its own: the page after it is cached under a cursor to which no
served page leads. -/
theorem empty_page_leaves_chain :
    Along World.next (Honest samplePosition) (World.initial sampleConfig) (catchUpTwice "c2") ∧
      ¬ServedChain ((catchUpTwice "c2").foldl World.next (World.initial sampleConfig)) := by
  refine ⟨catchUpTwice_honest "c2" (by decide), fun ⟨pages, chain, keys, _⟩ => ?_⟩
  have first : ((beforeAction "c2" 18).storage.cached (.fromLedger 1)).map (·.cursor) = some "c1" := by
    decide +kernel
  have after : ((beforeAction "c2" 18).storage.cached (.afterCursor "c1")).isNone := by decide +kernel
  have orphan : ((beforeAction "c2" 18).storage.cached (.afterCursor "c2")).isSome := by decide +kernel
  obtain ⟨page, cached⟩ := Option.isSome_iff_exists.mp orphan
  have reached := (keys _ _ cached).1
  cases pages with
  | nil =>
    cases List.mem_singleton.mp reached
  | cons head rest =>
    have start : (beforeAction "c2" 18).storage.cached (.fromLedger 1) = some head := chain.1
    rw [start] at first
    have isC1 : head.cursor = "c1" := Option.some.inj first
    cases rest with
    | nil =>
      have member : Request.afterCursor "c2" ∈ [.fromLedger 1, .afterCursor head.cursor] := reached
      rw [isC1] at member
      revert member
      decide
    | cons next rest =>
      have cachedNext : (beforeAction "c2" 18).storage.cached (.afterCursor head.cursor) = some next := chain.2.1
      rw [isC1] at cachedNext
      rw [cachedNext] at after
      cases after

end PrivatePayments.Bootnode
