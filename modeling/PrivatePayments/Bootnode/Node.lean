import PrivatePayments.Indexer.Rounds

/-!
The bootnode: its storage, the rounds of its indexer as the storage calls they make one after
the other, and the answers of its `getEvents`.
-/

namespace PrivatePayments.Bootnode
open LocalState Indexer

/-- The stored state: the indexer's progress, the cached pages by what was asked for, and the last
event ledger by the cursor a page came with. -/
structure Storage where
  lastCursor : Option String
  lastFullyIndexedLedger : Nat
  ledgerTip : Nat
  inSync : Bool
  cacheByCursorIn : String → Option EventsPage
  cacheByStartLedger : Nat → Option EventsPage
  ledgerByCursorOut : String → Option Nat

def Storage.new : Storage where
  lastCursor := none
  lastFullyIndexedLedger := 0
  ledgerTip := 0
  inSync := false
  cacheByCursorIn _ := none
  cacheByStartLedger _ := none
  ledgerByCursorOut _ := none

structure InsertGetEventsPage where
  cursorIn : Option String
  startLedger : Option Nat
  result : EventsPage
  cursorOut : String
  lastEventLedger : Option Nat

namespace Storage

variable (s : Storage)

def storeGetEventsPage (page : InsertGetEventsPage) : Storage :=
  { s with
    cacheByCursorIn :=
      match page.cursorIn with
      | some cursorIn => fun c => if c = cursorIn then some page.result else s.cacheByCursorIn c
      | none => s.cacheByCursorIn
    cacheByStartLedger :=
      match page.cursorIn, page.startLedger with
      | none, some startLedger => fun l => if l = startLedger then some page.result else s.cacheByStartLedger l
      | _, _ => s.cacheByStartLedger
    ledgerByCursorOut :=
      match page.lastEventLedger with
      | some ledger => fun c => if c = page.cursorOut then some ledger else s.ledgerByCursorOut c
      | none => s.ledgerByCursorOut }

/-- A page whose request is cached already is not stored. -/
def insertGetEventsPage (page : InsertGetEventsPage) : Storage :=
  if page.result.events.isEmpty then s
  else if (page.cursorIn.bind s.cacheByCursorIn).isSome then s
  else if page.cursorIn.isNone ∧ (page.startLedger.bind s.cacheByStartLedger).isSome then s
  else s.storeGetEventsPage page

end Storage

inductive Write where
  | setLedgerTip (ledgerTip : Nat)
  | setInSync (inSync : Bool)
  | insertPage (page : InsertGetEventsPage)
  | updateCursor (cursor : String)
  | setLastFullyIndexedLedger (ledger : Nat)

def Write.apply (s : Storage) : Write → Storage
  | .setLedgerTip ledgerTip => { s with ledgerTip := ledgerTip }
  | .setInSync inSync => { s with inSync := inSync }
  | .insertPage page => s.insertGetEventsPage page
  | .updateCursor cursor => { s with lastCursor := some cursor }
  | .setLastFullyIndexedLedger ledger => { s with lastFullyIndexedLedger := ledger }

/-- `(redirect_days * 24 * 60 * 60) / ledger_seconds`, saturating in a `u32`. -/
def cutoffLedgers (redirectDays ledgerSeconds : Nat) : Nat :=
  let saturatingMul (a b : Nat) : Nat := min (a * b) (2 ^ 32 - 1)
  saturatingMul (saturatingMul (saturatingMul redirectDays 24) 60) 60 / max ledgerSeconds 1

structure Config where
  minDeploymentLedger : Nat
  maxPagesPerRound : Nat
  redirectDays : Nat
  ledgerSeconds : Nat
  initialLedgerTip : Nat

inductive Request where
  | fromLedger (ledger : Nat)
  | afterCursor (cursor : String)
  deriving DecidableEq

def Storage.cached (s : Storage) : Request → Option EventsPage
  | .fromLedger ledger => s.cacheByStartLedger ledger
  | .afterCursor cursor => s.cacheByCursorIn cursor

/-- What the indexer asks for from a stored cursor. -/
def requestOf (config : Config) : Option String → Request
  | none => .fromLedger config.minDeploymentLedger
  | some cursor => .afterCursor cursor

/-- A round of the indexer: what it asks for, the answer it is storing, and the storage calls to come. -/
structure Round where
  request : Request
  page : Option EventsPage
  pending : List Write
  pagesLeft : Nat

def insertOf (request : Request) (page : EventsPage) : InsertGetEventsPage where
  cursorIn := match request with
    | .afterCursor cursor => some cursor
    | .fromLedger _ => none
  startLedger := match request with
    | .afterCursor _ => none
    | .fromLedger ledger => some ledger
  result := page
  cursorOut := page.cursor
  lastEventLedger := page.events.getLast?.map (·.ledger)

def pageWrites (request : Request) (page : EventsPage) : List Write :=
  if page.events.isEmpty then
    -- `mark_caught_up`
    [.updateCursor page.cursor, .setLastFullyIndexedLedger page.latestLedger, .setInSync true]
  else
    [.setInSync false, .insertPage (insertOf request page), .updateCursor page.cursor]

/-- After its last storage call a round goes on from the page's cursor, or ends at an empty page. -/
def Round.proceed (r : Round) : Option Round :=
  match r.page with
  | none => some r
  | some page =>
      if page.events.isEmpty then none
      else some { request := .afterCursor page.cursor, page := none, pending := [], pagesLeft := r.pagesLeft }

/-- The events of the watched contracts so far, the stored state, and the running process with its
tip and its round. -/
structure World where
  config : Config
  stream : List ContractEvent
  tip : Nat
  storage : Storage
  ledgerTip : Nat
  round : Option Round

def World.initial (config : Config) : World where
  config := config
  stream := []
  tip := 0
  storage := Storage.new
  ledgerTip := config.initialLedgerTip
  round := none

inductive Action where
  | close (tip : Nat) (events : List ContractEvent)
  | startRound (latest : Nat)
  | answer (page : EventsPage)
  | write
  /-- Any upstream or storage call fails, or the pages of the round are used up. -/
  | stop
  | restart

def World.next (w : World) : Action → World
  | .close tip events => { w with stream := w.stream ++ events, tip := tip }
  | .startRound latest =>
      { w with
        ledgerTip := latest
        round := some
          { request := requestOf w.config w.storage.lastCursor
            page := none
            pending := [.setLedgerTip latest]
            pagesLeft := w.config.maxPagesPerRound } }
  | .answer page =>
      match w.round with
      | some { request, page := none, pending := [], pagesLeft := pagesLeft + 1 } =>
          { w with
            round := some
              { request := request
                page := some page
                pending := pageWrites request page
                pagesLeft := pagesLeft } }
      | _ => w
  | .write =>
      match w.round with
      | some { request, page, pending := call :: pending, pagesLeft } =>
          let r : Round := { request := request, page := page, pending := pending, pagesLeft := pagesLeft }
          { w with
            storage := call.apply w.storage
            round := if pending.isEmpty then r.proceed else some r }
      | _ => w
  | .stop => { w with round := none }
  | .restart =>
      { w with
        ledgerTip := max w.config.initialLedgerTip w.storage.ledgerTip
        round := none }

theorem World.next_answer (w : World) (page : EventsPage) :
    w.next (.answer page) = w ∨
      ∃ request left,
        w.round = some { request := request, page := none, pending := [], pagesLeft := left + 1 } ∧
          w.next (.answer page) =
            { w with
              round := some
                { request := request
                  page := some page
                  pending := pageWrites request page
                  pagesLeft := left } } := by
  simp only [World.next]
  split
  · rename_i request left running
    exact Or.inr ⟨request, left, running, rfl⟩
  · exact Or.inl rfl

theorem World.next_write (w : World) :
    w.next .write = w ∨
      ∃ r call pending,
        w.round = some r ∧ r.pending = call :: pending ∧
          w.next .write =
            { w with
              storage := call.apply w.storage
              round := if pending.isEmpty then ({ r with pending := pending } : Round).proceed
                else some { r with pending := pending } } := by
  simp only [World.next]
  split
  · rename_i request page call pending left running
    exact Or.inr ⟨_, call, pending, running, rfl, rfl⟩
  · exact Or.inl rfl

theorem World.next_config (w : World) (action : Action) : (w.next action).config = w.config := by
  cases action with
  | answer page =>
    rcases w.next_answer page with same | ⟨_, _, _, next⟩
    · rw [same]
    · rw [next]
  | write =>
    rcases w.next_write with same | ⟨_, _, _, _, _, next⟩
    · rw [same]
    · rw [next]
  | close _ _ => rfl
  | startRound _ => rfl
  | stop => rfl
  | restart => rfl

theorem World.next_chain (w : World) (action : Action) :
    (∃ tip events, action = .close tip events) ∨
      (w.next action).stream = w.stream ∧ (w.next action).tip = w.tip := by
  cases action with
  | close tip events => exact Or.inl ⟨tip, events, rfl⟩
  | answer page =>
    rcases w.next_answer page with same | ⟨_, _, _, next⟩
    · exact Or.inr (by rw [same]; exact ⟨rfl, rfl⟩)
    · exact Or.inr (by rw [next]; exact ⟨rfl, rfl⟩)
  | write =>
    rcases w.next_write with same | ⟨_, _, _, _, _, next⟩
    · exact Or.inr (by rw [same]; exact ⟨rfl, rfl⟩)
    · exact Or.inr (by rw [next]; exact ⟨rfl, rfl⟩)
  | startRound _ => exact Or.inr ⟨rfl, rfl⟩
  | stop => exact Or.inr ⟨rfl, rfl⟩
  | restart => exact Or.inr ⟨rfl, rfl⟩

def Request.ahead (position : String → Nat) (stream : List ContractEvent) : Request → List ContractEvent
  | .fromLedger ledger => stream.filter fun event => ledger ≤ event.ledger
  | .afterCursor cursor => stream.drop (position cursor)

/-- What an answer of the upstream says: the next events, up to where its cursor stands. -/
structure Answers (position : String → Nat) (stream : List ContractEvent) (request : Request)
    (page : EventsPage) : Prop where
  frontier : position page.cursor ≤ stream.length
  events : page.events = request.ahead position (stream.take (position page.cursor))

/-- Ledgers close in order, and the upstream answers what it is asked. -/
def Honest (position : String → Nat) (w : World) : Action → Prop
  | .close tip events =>
      w.tip ≤ tip ∧ (∀ event ∈ events, w.tip < event.ledger ∧ event.ledger ≤ tip) ∧
        events.Pairwise (fun a b => a.ledger ≤ b.ledger) ∧ ((w.stream ++ events).map (·.id)).Nodup
  | .answer page => page.latestLedger ≤ w.tip ∧ ∀ r, w.round = some r → Answers position w.stream r.request page
  | _ => True

inductive RpcError where
  | cacheMiss
  | retentionHandoff (fromLedger : Nat)
  deriving DecidableEq

def World.cutoffLedger (w : World) : Nat :=
  w.ledgerTip - cutoffLedgers w.config.redirectDays w.config.ledgerSeconds

def World.cacheMissOrHandoff (w : World) : RpcError :=
  if w.ledgerTip = 0 then .cacheMiss
  else if w.storage.inSync then .retentionHandoff w.cutoffLedger
  else .cacheMiss

def World.getEvents (w : World) : Request → Except RpcError EventsPage
  | .afterCursor cursor =>
      match w.storage.ledgerByCursorOut cursor with
      | some lastEventLedger =>
          if 0 < w.ledgerTip ∧ w.cutoffLedger ≤ lastEventLedger then .error (.retentionHandoff w.cutoffLedger)
          else (w.storage.cacheByCursorIn cursor).elim (.error w.cacheMissOrHandoff) .ok
      | none => (w.storage.cacheByCursorIn cursor).elim (.error w.cacheMissOrHandoff) .ok
  | .fromLedger ledger =>
      if 0 < w.ledgerTip ∧ w.cutoffLedger ≤ ledger then .error (.retentionHandoff w.cutoffLedger)
      else (w.storage.cacheByStartLedger ledger).elim (.error w.cacheMissOrHandoff) .ok

end PrivatePayments.Bootnode
