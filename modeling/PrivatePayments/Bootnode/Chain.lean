import PrivatePayments.Bootnode.Archive

/-!
The cached pages of the bootnode as one chain from the deployment ledger: what a round keeps
of it, and the storage call that leaves it.
-/

namespace PrivatePayments.Bootnode
open LocalState Indexer Library

/-- Following the served pages from a request until nothing is cached. -/
def Chain (s : Storage) : Request → List EventsPage → Prop
  | request, [] => s.cached request = none
  | request, page :: pages => s.cached request = some page ∧ Chain s (.afterCursor page.cursor) pages

def requests (request : Request) (pages : List EventsPage) : List Request :=
  request :: pages.map fun page => .afterCursor page.cursor

/-- The cached pages are one chain from the deployment ledger, and its events are those of the stream
from that ledger on, up to the last one that is cached. -/
def ServedChain (w : World) : Prop :=
  ∃ pages, Chain w.storage (.fromLedger w.config.minDeploymentLedger) pages ∧
    (∀ request page, w.storage.cached request = some page →
      request ∈ requests (.fromLedger w.config.minDeploymentLedger) pages ∧ page ∈ pages) ∧
    pages.flatMap (·.events) <+: w.stream.filter fun event => w.config.minDeploymentLedger ≤ event.ledger

/-- An empty answer repeats the cursor it was asked with, and an answer that has events, to a request that is
cached already, comes with the cached page's cursor. -/
def KeepsCursor (w : World) : Action → Prop
  | .answer page => ∀ r, w.round = some r →
      (page.events = [] → r.request = .afterCursor page.cursor) ∧
        (page.events ≠ [] → ∀ kept, w.storage.cached r.request = some kept → kept.cursor = page.cursor)
  | _ => True

section Follow

variable {s : Storage} {request : Request} {pages : List EventsPage}

theorem Chain.mem_of_cached (chain : Chain s request pages) {asked : Request} (member : asked ∈ requests request pages)
    {page : EventsPage} (cached : s.cached asked = some page) : page ∈ pages := by
  induction pages generalizing request with
  | nil =>
    rw [List.mem_singleton.mp member] at cached
    cases chain.symm.trans cached
  | cons head rest ih =>
    rcases List.mem_cons.mp member with rfl | later
    · obtain rfl := Option.some.inj (chain.1.symm.trans cached)
      exact List.mem_cons_self
    · exact List.mem_cons_of_mem head (ih chain.2 later)

theorem Chain.eq_last (chain : Chain s request pages) {asked : Request} (member : asked ∈ requests request pages)
    (missed : s.cached asked = none) :
    asked = (pages.getLast?.elim request fun last => .afterCursor last.cursor) := by
  induction pages generalizing request with
  | nil => exact List.mem_singleton.mp member
  | cons head rest ih =>
    rcases List.mem_cons.mp member with rfl | later
    · cases chain.1.symm.trans missed
    · have last := ih chain.2 later
      cases rest with
      | nil => exact last
      | cons next rest =>
        rw [List.getLast?_cons_cons]
        rw [last]
        cases ends : (next :: rest).getLast? with
        | none => cases List.getLast?_eq_none_iff.mp ends
        | some _ => rfl

theorem Chain.congr (chain : Chain s request pages) {after : Storage} (same : after.cached = s.cached) :
    Chain after request pages := by
  induction pages generalizing request with
  | nil => exact (congrFun same request).trans chain
  | cons head rest ih => exact ⟨(congrFun same request).trans chain.1, ih chain.2⟩

theorem Chain.extend (chain : Chain s request pages) {after : Storage} {asked : Request} {page : EventsPage}
    (last : asked ∈ requests request pages) (missed : s.cached asked = none)
    (stored : after.cached asked = some page) (others : ∀ r, r ≠ asked → after.cached r = s.cached r)
    (fresh : after.cached (.afterCursor page.cursor) = none) : Chain after request (pages ++ [page]) := by
  induction pages generalizing request with
  | nil =>
    obtain rfl := List.mem_singleton.mp last
    exact ⟨stored, fresh⟩
  | cons head rest ih =>
    have here : request ≠ asked := by
      rintro rfl
      cases chain.1.symm.trans missed
    rcases List.mem_cons.mp last with same | later
    · exact absurd same.symm here
    · exact ⟨(others request here).trans chain.1, ih chain.2 later⟩

theorem requests_append (request : Request) (pages : List EventsPage) (page : EventsPage) :
    requests request (pages ++ [page]) = requests request pages ++ [.afterCursor page.cursor] := by
  unfold requests
  rw [List.map_append]
  rfl

end Follow

section Positions

variable {position : String → Nat} {stream : List ContractEvent} {s : Storage}

theorem Answers.position_lt {cursor : String} {page : EventsPage}
    (answers : Answers position stream (.afterCursor cursor) page) (busy : page.events ≠ []) :
    position cursor < position page.cursor := by
  by_contra back
  refine busy ?_
  rw [answers.events]
  refine List.drop_eq_nil_iff.mpr ?_
  rw [List.length_take]
  omega

theorem Chain.position_lt (honored : Honored position stream s) {cursor : String} {pages : List EventsPage}
    (chain : Chain s (.afterCursor cursor) pages) : ∀ page ∈ pages, position cursor < position page.cursor := by
  induction pages generalizing cursor with
  | nil => simp
  | cons head rest ih =>
    obtain ⟨busy, answers⟩ := honored _ _ chain.1
    have first := answers.position_lt busy
    intro page member
    rcases List.mem_cons.mp member with rfl | later
    · exact first
    · exact first.trans (ih chain.2 page later)

theorem Chain.position_le_last (honored : Honored position stream s) {request : Request} {pages : List EventsPage}
    (chain : Chain s request pages) {last : EventsPage} (isLast : pages.getLast? = some last) :
    ∀ page ∈ pages, position page.cursor ≤ position last.cursor := by
  induction pages generalizing request with
  | nil => cases isLast
  | cons head rest ih =>
    cases rest with
    | nil =>
      obtain rfl : head = last := by simpa using isLast
      intro page member
      rw [List.mem_singleton.mp member]
    | cons next rest =>
      rw [List.getLast?_cons_cons] at isLast
      intro page member
      rcases List.mem_cons.mp member with rfl | later
      · exact (Chain.position_lt honored chain.2 last (List.mem_of_getLast? isLast)).le
      · exact ih chain.2 isLast page later

theorem take_split {α : Type*} (l : List α) {first last : Nat} (further : first ≤ last) :
    l.take last = l.take first ++ (l.take last).drop first := by
  calc l.take last
      = (l.take last).take first ++ (l.take last).drop first := (List.take_append_drop first _).symm
    _ = l.take first ++ (l.take last).drop first := by rw [List.take_take, Nat.min_eq_left further]

theorem Chain.events_after (honored : Honored position stream s) {cursor : String} {pages : List EventsPage}
    (chain : Chain s (.afterCursor cursor) pages) :
    ∃ stop, position cursor ≤ stop ∧ pages.flatMap (·.events) = (stream.take stop).drop (position cursor) := by
  induction pages generalizing cursor with
  | nil =>
    refine ⟨position cursor, le_refl _, ?_⟩
    rw [List.flatMap_nil, List.drop_eq_nil_iff.mpr]
    rw [List.length_take]
    exact Nat.min_le_left _ _
  | cons page rest ih =>
    obtain ⟨busy, answers⟩ := honored _ _ chain.1
    have forward := answers.position_lt busy
    obtain ⟨stop, further, events⟩ := ih chain.2
    refine ⟨stop, forward.le.trans further, ?_⟩
    have first : page.events = (stream.take (position page.cursor)).drop (position cursor) := answers.events
    have inside : position cursor ≤ (stream.take (position page.cursor)).length := by
      rw [List.length_take, Nat.min_eq_left answers.frontier]
      exact forward.le
    rw [List.flatMap_cons, events, first]
    conv_rhs => rw [take_split stream further]
    rw [List.drop_append_of_le_length inside]

/-- The events of the chain from the deployment ledger are a first part of those of the stream. -/
theorem Chain.events_prefix (honored : Honored position stream s)
    (sorted : stream.Pairwise fun a b => a.ledger ≤ b.ledger) {ledger : Nat} {pages : List EventsPage}
    (chain : Chain s (.fromLedger ledger) pages) :
    pages.flatMap (·.events) <+: stream.filter fun event => ledger ≤ event.ledger := by
  cases pages with
  | nil => exact List.nil_prefix
  | cons page rest =>
    obtain ⟨busy, answers⟩ := honored _ _ chain.1
    obtain ⟨stop, further, events⟩ := Chain.events_after honored chain.2
    have first : page.events = (stream.take (position page.cursor)).filter fun event => ledger ≤ event.ledger :=
      answers.events
    -- after the first page every event is late enough
    have late : ((stream.take stop).drop (position page.cursor)).filter (fun event => ledger ≤ event.ledger) =
        (stream.take stop).drop (position page.cursor) := by
      rw [List.filter_eq_self]
      intro event member
      obtain ⟨early, told⟩ := List.exists_mem_of_ne_nil _ busy
      rw [first] at told
      obtain ⟨before, bound⟩ := List.mem_filter.mp told
      have after : event ∈ stream.drop (position page.cursor) := by
        rw [List.drop_take] at member
        exact List.mem_of_mem_take member
      rw [← List.take_append_drop (position page.cursor) stream] at sorted
      have order := (List.pairwise_append.mp sorted).2.2 early before event after
      have enough := of_decide_eq_true bound
      simpa using enough.trans order
    have whole : (page :: rest).flatMap (·.events) =
        (stream.take stop).filter fun event => ledger ≤ event.ledger := by
      rw [List.flatMap_cons, events, first, ← late, ← List.filter_append, ← take_split stream further]
    rw [whole]
    exact (List.take_prefix stop stream).filter _

end Positions

end PrivatePayments.Bootnode
