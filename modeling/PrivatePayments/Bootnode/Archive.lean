import PrivatePayments.Library.Run
import PrivatePayments.Bootnode.Node

/-!
What the bootnode stores is what the upstream said, in every run: each cached page answers
what it is cached under, and the ledger of a cursor is that of the last event before it.
-/

namespace PrivatePayments.Bootnode
open LocalState Indexer

section Writes

variable {request : Request} {page : EventsPage}

theorem pageWrites_cases {call : Write} {pending : List Write} (suffix : call :: pending <:+ pageWrites request page) :
    (page.events = [] ∧
      (call = .updateCursor page.cursor ∧
          pending = [.setLastFullyIndexedLedger page.latestLedger, .setInSync true] ∨
        call = .setLastFullyIndexedLedger page.latestLedger ∧ pending = [.setInSync true] ∨
        call = .setInSync true ∧ pending = [])) ∨
    (page.events ≠ [] ∧
      (call = .setInSync false ∧ pending = [.insertPage (insertOf request page), .updateCursor page.cursor] ∨
        call = .insertPage (insertOf request page) ∧ pending = [.updateCursor page.cursor] ∨
        call = .updateCursor page.cursor ∧ pending = [])) := by
  unfold pageWrites at suffix
  by_cases empty : page.events = []
  · refine Or.inl ⟨empty, ?_⟩
    simpa [empty, List.suffix_cons_iff] using suffix
  · refine Or.inr ⟨empty, ?_⟩
    simpa [empty, List.suffix_cons_iff] using suffix

theorem insert_of_cached {s : Storage} {kept : EventsPage} (cached : s.cached request = some kept) :
    s.insertGetEventsPage (insertOf request page) = s := by
  unfold Storage.insertGetEventsPage
  cases request with
  | fromLedger ledger =>
    have found : s.cacheByStartLedger ledger = some kept := cached
    simp [insertOf, found]
  | afterCursor cursor =>
    have found : s.cacheByCursorIn cursor = some kept := cached
    simp [insertOf, found]

theorem insert_of_missed {s : Storage} (busy : page.events ≠ []) (missed : s.cached request = none) :
    s.insertGetEventsPage (insertOf request page) = s.storeGetEventsPage (insertOf request page) := by
  unfold Storage.insertGetEventsPage
  cases request with
  | fromLedger ledger =>
    have absent : s.cacheByStartLedger ledger = none := missed
    simp [insertOf, busy, absent]
  | afterCursor cursor =>
    have absent : s.cacheByCursorIn cursor = none := missed
    simp [insertOf, busy, absent]

theorem store_cached (s : Storage) (asked : Request) :
    (s.storeGetEventsPage (insertOf request page)).cached asked =
      if asked = request then some page else s.cached asked := by
  cases request with
  | fromLedger ledger =>
    cases asked with
    | fromLedger other => simp [insertOf, Storage.cached, Storage.storeGetEventsPage]
    | afterCursor other => simp [insertOf, Storage.cached, Storage.storeGetEventsPage]
  | afterCursor cursor =>
    cases asked with
    | fromLedger other => simp [insertOf, Storage.cached, Storage.storeGetEventsPage]
    | afterCursor other => simp [insertOf, Storage.cached, Storage.storeGetEventsPage]

/-- A page that has events is stored under what was asked, unless something is stored there. -/
theorem insert_cached (s : Storage) (busy : page.events ≠ []) (asked : Request) :
    (s.insertGetEventsPage (insertOf request page)).cached asked =
      if asked = request then some ((s.cached request).getD page) else s.cached asked := by
  cases missed : s.cached request with
  | none => rw [insert_of_missed busy missed, store_cached, Option.getD_none]
  | some kept =>
    rw [insert_of_cached missed]
    split_ifs with same
    · rw [same, missed, Option.getD_some]
    · rfl

theorem store_ledger {last : ContractEvent} (isLast : page.events.getLast? = some last) (s : Storage)
    (cursor : String) :
    (s.storeGetEventsPage (insertOf request page)).ledgerByCursorOut cursor =
      if cursor = page.cursor then some last.ledger else s.ledgerByCursorOut cursor := by
  simp [Storage.storeGetEventsPage, insertOf, isLast]

theorem insert_lastCursor (s : Storage) (insert : InsertGetEventsPage) :
    (s.insertGetEventsPage insert).lastCursor = s.lastCursor := by
  unfold Storage.insertGetEventsPage
  split_ifs <;> rfl

theorem Write.ledger_isSome (s : Storage) (call : Write) {cursor : String}
    (known : (s.ledgerByCursorOut cursor).isSome) : ((call.apply s).ledgerByCursorOut cursor).isSome := by
  cases call with
  | insertPage insert =>
    change ((s.insertGetEventsPage insert).ledgerByCursorOut cursor).isSome
    unfold Storage.insertGetEventsPage
    split_ifs
    · exact known
    · exact known
    · exact known
    · cases last : insert.lastEventLedger with
      | none => simpa [Storage.storeGetEventsPage, last] using known
      | some ledger =>
        by_cases same : cursor = insert.cursorOut
        · simp [Storage.storeGetEventsPage, last, same]
        · simpa [Storage.storeGetEventsPage, last, same] using known
  | setLedgerTip _ => exact known
  | setInSync _ => exact known
  | updateCursor _ => exact known
  | setLastFullyIndexedLedger _ => exact known

end Writes

section Answers

variable {position : String → Nat} {stream : List ContractEvent} {request : Request} {page : EventsPage}

theorem Answers.mono (answers : Answers position stream request page) (more : List ContractEvent) :
    Answers position (stream ++ more) request page := by
  refine ⟨?_, ?_⟩
  · rw [List.length_append]
    exact answers.frontier.trans (Nat.le_add_right _ _)
  · rw [List.take_append_of_le_length answers.frontier]
    exact answers.events

theorem Answers.getLast (answers : Answers position stream request page)
    (sorted : stream.Pairwise fun a b => a.ledger ≤ b.ledger) (busy : page.events ≠ []) :
    page.events.getLast? = (stream.take (position page.cursor)).getLast? := by
  rw [answers.events] at busy ⊢
  cases request with
  | afterCursor cursor =>
    have longer := mt List.drop_eq_nil_iff.mpr busy
    exact (List.getLast?_drop ..).trans (if_neg longer)
  | fromLedger ledger =>
    have part := sorted.sublist (List.take_sublist (position page.cursor) stream)
    generalize stream.take (position page.cursor) = before at busy part ⊢
    obtain ⟨told, member⟩ := List.exists_mem_of_ne_nil _ busy
    obtain ⟨inside, bound⟩ := List.mem_filter.mp member
    obtain ⟨init, last, rfl⟩ := (List.eq_nil_or_concat' before).resolve_left (List.ne_nil_of_mem inside)
    -- the last event is as late as one that is late enough
    have late : ledger ≤ last.ledger := by
      rcases List.mem_append.mp inside with early | same
      · exact (of_decide_eq_true bound).trans
          ((List.pairwise_append.mp part).2.2 told early last (List.mem_singleton_self last))
      · rw [← List.mem_singleton.mp same]
        exact of_decide_eq_true bound
    simp [Request.ahead, late]

end Answers

/-- Every cached page has events and answers what it is cached under. -/
def Honored (position : String → Nat) (stream : List ContractEvent) (s : Storage) : Prop :=
  ∀ request page, s.cached request = some page → page.events ≠ [] ∧ Answers position stream request page

def LastBefore (position : String → Nat) (stream : List ContractEvent) (cursor : String) (ledger : Nat) : Prop :=
  position cursor ≤ stream.length ∧ (stream.take (position cursor)).getLast?.map (·.ledger) = some ledger

def Round.Faithful (position : String → Nat) (w : World) (r : Round) : Prop :=
  match r.page with
  | none => ∀ call ∈ r.pending, ∃ tip, call = .setLedgerTip tip
  | some page => Answers position w.stream r.request page ∧ page.latestLedger ≤ w.tip ∧
      r.pending <:+ pageWrites r.request page

structure Archived (position : String → Nat) (w : World) : Prop where
  sorted : w.stream.Pairwise fun a b => a.ledger ≤ b.ledger
  bounded : ∀ event ∈ w.stream, event.ledger ≤ w.tip
  honored : Honored position w.stream w.storage
  noted : ∀ request page, w.storage.cached request = some page →
    page.latestLedger ≤ w.tip ∧ (w.storage.ledgerByCursorOut page.cursor).isSome
  ledgers : ∀ cursor ledger, w.storage.ledgerByCursorOut cursor = some ledger →
    LastBefore position w.stream cursor ledger
  answered : ∀ r, w.round = some r → r.Faithful position w

section Steps

variable {position : String → Nat} {w : World}

theorem LastBefore.mono {stream : List ContractEvent} {cursor : String} {ledger : Nat}
    (last : LastBefore position stream cursor ledger) (more : List ContractEvent) :
    LastBefore position (stream ++ more) cursor ledger := by
  refine ⟨?_, ?_⟩
  · rw [List.length_append]
    exact last.1.trans (Nat.le_add_right _ _)
  · rw [List.take_append_of_le_length last.1]
    exact last.2

theorem LastBefore.unique {stream : List ContractEvent} {cursor : String} {ledger ledger' : Nat}
    (last : LastBefore position stream cursor ledger) (other : LastBefore position stream cursor ledger') :
    ledger = ledger' := Option.some.inj (last.2.symm.trans other.2)

theorem Archived.insert (inv : Archived position w) {request : Request} {page : EventsPage}
    (answers : Answers position w.stream request page) (latest : page.latestLedger ≤ w.tip)
    (busy : page.events ≠ []) :
    Archived position { w with storage := w.storage.insertGetEventsPage (insertOf request page), round := none } := by
  cases missed : w.storage.cached request with
  | some kept =>
    rw [insert_of_cached missed]
    exact ⟨inv.sorted, inv.bounded, inv.honored, inv.noted, inv.ledgers, fun r running => by cases running⟩
  | none =>
    rw [insert_of_missed busy missed]
    obtain ⟨last, isLast⟩ : ∃ last, page.events.getLast? = some last :=
      ⟨page.events.getLast busy, List.getLast?_eq_some_getLast busy⟩
    refine ⟨inv.sorted, inv.bounded, fun asked kept cached => ?_, fun asked kept cached => ?_,
      fun cursor ledger found => ?_, fun r running => by cases running⟩
    · rw [store_cached] at cached
      split_ifs at cached with same
      · obtain rfl := Option.some.inj cached
        exact ⟨busy, same ▸ answers⟩
      · exact inv.honored asked kept cached
    · dsimp only at cached ⊢
      rw [store_cached] at cached
      rw [store_ledger isLast]
      split_ifs at cached with same
      · obtain rfl := Option.some.inj cached
        rw [if_pos rfl]
        exact ⟨latest, rfl⟩
      · obtain ⟨early, known⟩ := inv.noted asked kept cached
        refine ⟨early, ?_⟩
        split_ifs
        · rfl
        · exact known
    · dsimp only at found
      rw [store_ledger isLast] at found
      split_ifs at found with same
      · rw [same, ← Option.some.inj found]
        refine ⟨answers.frontier, ?_⟩
        rw [← answers.getLast inv.sorted busy, isLast]
        rfl
      · exact inv.ledgers cursor ledger found

theorem Archived.write (inv : Archived position w) {r : Round} (running : w.round = some r) {call : Write}
    {pending : List Write} (calls : r.pending = call :: pending) :
    Archived position { w with storage := call.apply w.storage, round := none } := by
  have faithful := inv.answered r running
  have unchanged {s : Storage} (cached : s.cached = w.storage.cached)
      (ledgers : s.ledgerByCursorOut = w.storage.ledgerByCursorOut) :
      Archived position { w with storage := s, round := none } := by
    refine ⟨inv.sorted, inv.bounded, fun asked page found => ?_, fun asked page found => ?_,
      fun cursor ledger found => ?_, fun r running => by cases running⟩
    · exact inv.honored asked page (cached ▸ found)
    · change _ ∧ (s.ledgerByCursorOut page.cursor).isSome
      rw [ledgers]
      exact inv.noted asked page (cached ▸ found)
    · exact inv.ledgers cursor ledger (ledgers ▸ found)
  unfold Round.Faithful at faithful
  split at faithful
  · obtain ⟨tip, rfl⟩ := faithful call (calls ▸ List.mem_cons_self)
    exact unchanged rfl rfl
  · rename_i page isPage
    obtain ⟨answers, latest, suffix⟩ := faithful
    rw [calls] at suffix
    rcases pageWrites_cases suffix with ⟨_, ⟨rfl, -⟩ | ⟨rfl, -⟩ | ⟨rfl, -⟩⟩ |
      ⟨busy, ⟨rfl, -⟩ | ⟨rfl, -⟩ | ⟨rfl, -⟩⟩
    · exact unchanged rfl rfl
    · exact unchanged rfl rfl
    · exact unchanged rfl rfl
    · exact unchanged rfl rfl
    · exact inv.insert answers latest busy
    · exact unchanged rfl rfl

theorem Archived.setRound (inv : Archived position w) (ledgerTip : Nat) (round : Option Round)
    (faithful : ∀ r, round = some r → r.Faithful position w) :
    Archived position { w with ledgerTip := ledgerTip, round := round } :=
  ⟨inv.sorted, inv.bounded, inv.honored, inv.noted, inv.ledgers, faithful⟩

theorem Round.Faithful.write {r : Round} (faithful : r.Faithful position w) {call : Write} {pending : List Write}
    (calls : r.pending = call :: pending) (w' : World) (stream : w'.stream = w.stream) (tip : w'.tip = w.tip) :
    ∀ next, (if pending.isEmpty then ({ r with pending := pending } : Round).proceed
        else some { r with pending := pending }) = some next → next.Faithful position w' := by
  intro next goes
  have kept : ({ r with pending := pending } : Round).Faithful position w' := by
    unfold Round.Faithful at faithful ⊢
    split at faithful
    · rename_i isNone
      simp only [isNone]
      exact fun later member => faithful later (calls ▸ List.mem_cons_of_mem call member)
    · rename_i page isPage
      simp only [isPage]
      rw [stream, tip]
      refine ⟨faithful.1, faithful.2.1, (List.suffix_cons call pending).trans ?_⟩
      exact calls ▸ faithful.2.2
  split_ifs at goes with drained
  · unfold Round.proceed at goes
    split at goes
    · exact Option.some.inj goes ▸ kept
    · split_ifs at goes
      obtain rfl := Option.some.inj goes
      simp [Round.Faithful]
  · exact Option.some.inj goes ▸ kept

theorem Archived.step (inv : Archived position w) {action : Action} (honest : Honest position w action) :
    Archived position (w.next action) := by
  cases action with
  | close tip events =>
    obtain ⟨grows, fresh, sorted, -⟩ := honest
    refine ⟨?_, fun event member => ?_, fun asked page cached => ?_, fun asked page cached => ?_,
      fun cursor ledger found => (inv.ledgers cursor ledger found).mono events, fun r running => ?_⟩
    · refine List.pairwise_append.mpr ⟨inv.sorted, sorted, fun a old b new => ?_⟩
      exact (inv.bounded a old).trans (fresh b new).1.le
    · rcases List.mem_append.mp member with old | new
      · exact (inv.bounded event old).trans grows
      · exact (fresh event new).2
    · obtain ⟨busy, answers⟩ := inv.honored asked page cached
      exact ⟨busy, answers.mono events⟩
    · exact ⟨(inv.noted asked page cached).1.trans grows, (inv.noted asked page cached).2⟩
    · have faithful := inv.answered r running
      unfold Round.Faithful at faithful ⊢
      split at faithful
      · exact faithful
      · exact ⟨faithful.1.mono events, faithful.2.1.trans grows, faithful.2.2⟩
  | startRound latest =>
    refine inv.setRound _ _ fun r running => ?_
    obtain rfl := Option.some.inj running
    exact fun call member => ⟨latest, List.mem_singleton.mp member⟩
  | answer page =>
    rcases w.next_answer page with same | ⟨request, left, running, next⟩
    · rw [same]
      exact inv
    · have answers := honest.2 _ running
      rw [next]
      refine inv.setRound _ _ fun r goes => ?_
      obtain rfl := Option.some.inj goes
      exact ⟨answers, honest.1, List.suffix_refl _⟩
  | write =>
    rcases w.next_write with same | ⟨r, call, pending, running, calls, next⟩
    · rw [same]
      exact inv
    · rw [next]
      refine (inv.write running calls).setRound _ _ fun after goes => ?_
      exact (inv.answered r running).write calls _ rfl rfl after goes
  | stop => exact inv.setRound _ none fun r running => by cases running
  | restart => exact inv.setRound _ none fun r running => by cases running

theorem archived_initial (position : String → Nat) (config : Config) :
    Archived position (World.initial config) where
  sorted := List.Pairwise.nil
  bounded _ member := by cases member
  honored asked _ cached := by
    cases asked with
    | fromLedger _ => cases cached
    | afterCursor _ => cases cached
  noted asked _ cached := by
    cases asked with
    | fromLedger _ => cases cached
    | afterCursor _ => cases cached
  ledgers _ _ found := by cases found
  answered _ running := by cases running

theorem next_stream (w : World) (action : Action) : ∃ more, (w.next action).stream = w.stream ++ more := by
  rcases w.next_chain action with ⟨tip, events, rfl⟩ | ⟨same, -⟩
  · exact ⟨events, rfl⟩
  · exact ⟨[], by rw [same, List.append_nil]⟩

theorem Archived.ledger_stable (inv : Archived position w) {action : Action} (honest : Honest position w action)
    {cursor : String} {ledger : Nat} (found : w.storage.ledgerByCursorOut cursor = some ledger) :
    (w.next action).storage.ledgerByCursorOut cursor = some ledger := by
  have known : ((w.next action).storage.ledgerByCursorOut cursor).isSome := by
    have before : (w.storage.ledgerByCursorOut cursor).isSome := by rw [found]; rfl
    cases action with
    | write =>
      rcases w.next_write with same | ⟨_, call, _, _, _, next⟩
      · rw [same]
        exact before
      · rw [next]
        exact call.ledger_isSome w.storage before
    | answer page =>
      rcases w.next_answer page with same | ⟨_, _, _, next⟩
      · rw [same]
        exact before
      · rw [next]
        exact before
    | close _ _ => exact before
    | startRound _ => exact before
    | stop => exact before
    | restart => exact before
  obtain ⟨after, isAfter⟩ := Option.isSome_iff_exists.mp known
  obtain ⟨more, grown⟩ := next_stream w action
  have last := (inv.ledgers cursor ledger found).mono more
  rw [← grown] at last
  rw [isAfter, last.unique ((inv.step honest).ledgers cursor after isAfter)]

end Steps

end PrivatePayments.Bootnode
