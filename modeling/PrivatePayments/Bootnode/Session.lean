import PrivatePayments.Bootnode.Archive
import PrivatePayments.Indexer.LateContracts

/-!
A client that follows the pages of the bootnode: its store has every event before the ledger
it has got to, and the ledger of its cursor is the one the bootnode has for it.
-/

namespace PrivatePayments.Bootnode
open LocalState Indexer Library

/-- The bootnode, and a client whose indexer asks it. -/
structure Session where
  node : World
  config : ContractConfig
  db : Database
  round : Option Indexer.Round

inductive SessionAction where
  | node (action : Action)
  | clearCursors
  | startRound
  | fetch (saved : Saved)
  | stop

def asks (r : Indexer.Round) : Request :=
  match r.cursor with
  | some cursor => .afterCursor cursor
  | none => .fromLedger r.startLedger

def probeLedger (contractIds : List String) (minPoolLedger : Nat) (db : Database) : Nat :=
  (((activeSync contractIds db).map (·.lastIndexedLedger)).filter (0 < ·)).min?.getD minPoolLedger

namespace Session

def initial (config : Config) (contracts : ContractConfig) : Session where
  node := World.initial config
  config := contracts
  db := Database.empty
  round := none

variable (s : Session)

def client : Indexer.World where
  config := s.config
  starts _ := s.node.config.minDeploymentLedger
  chain := s.node.stream
  tip := s.node.tip
  db := s.db
  round := s.round

def follow (action : Indexer.Action) : Session :=
  { s with db := (s.client.next action).db, round := (s.client.next action).round }

def next : SessionAction → Session
  | .node action => { s with node := s.node.next action }
  | .clearCursors => s.follow .clearCursors
  | .startRound => s.follow .startRound
  | .fetch saved =>
      match s.round with
      | some r =>
          match s.node.getEvents (asks r) with
          | .ok page => s.follow (.page page saved)
          | .error _ => s.follow .stop
      | none => s
  | .stop => s.follow .stop

/-- The client asks with its round, or with the probe before its first round. -/
def Asks (request : Request) : Prop :=
  (∃ r, s.round = some r ∧ request = asks r) ∨
    s.round = none ∧
      request = .fromLedger (probeLedger s.config.allContractIds (s.config.minDeploymentLedger.getD 0) s.db)

/-- The ledger from which the client goes on after its cursors are cleared. -/
def resumeLedger : Nat :=
  Indexer.resumeLedger s.config.allContractIds (s.config.minDeploymentLedger.getD 0) (clearIndexingCursors s.db)

def StoredBefore (ledger : Nat) : Prop :=
  ∀ event ∈ s.node.stream, s.node.config.minDeploymentLedger ≤ event.ledger → event.ledger < ledger →
    event.row ∈ s.db.rawContractEvents

end Session

/-- The chain and the upstream are as they are for the bootnode, the stream is that of the contracts the client
watches, and the client clears its cursors and starts rounds between rounds. -/
def SessionHonest (position : String → Nat) (s : Session) : SessionAction → Prop
  | .node action => Honest position s.node action ∧
      ∀ tip events, action = .close tip events → ∀ event ∈ events, event.contractId ∈ s.config.allContractIds
  | .clearCursors => s.round.isNone
  | .startRound => s.round.isNone
  | .fetch _ => True
  | .stop => True

/-- The ledger that stands for a request is at or past the cutoff. -/
def World.PastCutoff (w : World) : Request → Prop
  | .fromLedger ledger => w.cutoffLedger ≤ ledger
  | .afterCursor cursor => ∃ ledger, w.storage.ledgerByCursorOut cursor = some ledger ∧ w.cutoffLedger ≤ ledger

section Serve

variable {w : World} {request : Request}

theorem cached_of_served {page : EventsPage} (served : w.getEvents request = .ok page) :
    w.storage.cached request = some page := by
  cases request with
  | fromLedger ledger =>
    simp only [World.getEvents] at served
    split_ifs at served
    cases found : w.storage.cacheByStartLedger ledger with
    | none => simp [found] at served
    | some kept =>
      rw [found] at served
      exact found.trans (congrArg some (Except.ok.inj served))
  | afterCursor cursor =>
    have elim (hit : (w.storage.cacheByCursorIn cursor).elim (.error w.cacheMissOrHandoff) .ok = Except.ok page) :
        w.storage.cached (.afterCursor cursor) = some page := by
      cases found : w.storage.cacheByCursorIn cursor with
      | none => simp [found] at hit
      | some kept =>
        rw [found] at hit
        exact found.trans (congrArg some (Except.ok.inj hit))
    simp only [World.getEvents] at served
    split at served
    · split_ifs at served
      exact elim served
    · exact elim served

theorem cutoff_of_missed {fromLedger : Nat} (missed : w.cacheMissOrHandoff = .retentionHandoff fromLedger) :
    fromLedger = w.cutoffLedger := by
  unfold World.cacheMissOrHandoff at missed
  split_ifs at missed
  exact (RpcError.retentionHandoff.inj missed).symm

theorem cutoff_of_handoff {fromLedger : Nat} (handoff : w.getEvents request = .error (.retentionHandoff fromLedger)) :
    fromLedger = w.cutoffLedger := by
  have elim (kept : Option EventsPage)
      (missed : kept.elim (.error w.cacheMissOrHandoff) Except.ok = .error (.retentionHandoff fromLedger)) :
      fromLedger = w.cutoffLedger := by
    cases kept with
    | none => exact cutoff_of_missed (Except.error.inj missed)
    | some page => cases missed
  cases request with
  | fromLedger ledger =>
    simp only [World.getEvents] at handoff
    split_ifs at handoff
    · exact (RpcError.retentionHandoff.inj (Except.error.inj handoff)).symm
    · exact elim _ handoff
  | afterCursor cursor =>
    simp only [World.getEvents] at handoff
    split at handoff
    · split_ifs at handoff
      · exact (RpcError.retentionHandoff.inj (Except.error.inj handoff)).symm
      · exact elim _ handoff
    · exact elim _ handoff

end Serve

end PrivatePayments.Bootnode
