import PrivatePayments.Library.Run
import PrivatePayments.LocalState.Database

/-!
The client's indexer over its database: where a round starts, what a page writes, and the
chain, the deployments and the interruptions that act beside it.
-/

namespace PrivatePayments.Indexer
open LocalState Library

structure PoolEntry where
  poolContractId : String
  deploymentLedger : Nat
  enabled : Bool

structure ContractConfig where
  aspMembership : String
  publicKeyRegistry : String
  pools : List PoolEntry

namespace ContractConfig

variable (config : ContractConfig)

def enabledPools : List PoolEntry := config.pools.filter (·.enabled)

def allContractIds : List String :=
  config.enabledPools.map (·.poolContractId) ++ [config.aspMembership, config.publicKeyRegistry]

/-- None where no pool is enabled. -/
def minDeploymentLedger : Option Nat := (config.enabledPools.map (·.deploymentLedger)).min?

/-- The ledger from which the events of a contract are wanted: its own deployment for a pool, and the
earliest deployment of a pool for the contracts that the pools share. -/
def startLedger (c : String) : Nat :=
  match config.enabledPools.find? fun pool => pool.poolContractId = c with
  | some pool => pool.deploymentLedger
  | none => config.minDeploymentLedger.getD 0

end ContractConfig

def activeSync (contractIds : List String) (db : Database) : List SyncMetadata :=
  (getSyncMetadata db).filter fun entry => entry.contractId ∈ contractIds

def resumeLedger (contractIds : List String) (minPoolLedger : Nat) (db : Database) : Nat :=
  ((activeSync contractIds db).map (·.lastIndexedLedger)).min?.getD minPoolLedger

/-- Cursors that differ are dropped. -/
def resumeCursor (contractIds : List String) (db : Database) : Option String :=
  let active := activeSync contractIds db
  let uniqueCursors := ((active.map (·.cursor)).filter (· ≠ "")).dedup
  if uniqueCursors.length ≤ 1 then
    active.head?.bind fun entry => if entry.cursor ≠ "" then some entry.cursor else none
  else none

/-- A round of `fetch_contract_events` between two pages. -/
structure Round where
  contractIds : List String
  startLedger : Nat
  cursor : Option String
  pagesLeft : Nat
  deriving DecidableEq

def maxPagesPerRound : Nat := 10

def Round.start (config : ContractConfig) (minPoolLedger : Nat) (db : Database) : Round where
  contractIds := config.allContractIds
  startLedger := resumeLedger config.allContractIds minPoolLedger db
  cursor := resumeCursor config.allContractIds db
  pagesLeft := maxPagesPerRound

/-- The answer to one `getEvents`. -/
structure EventsPage where
  cursor : String
  events : List ContractEvent
  latestLedger : Nat

def EventsPage.progressLedger (page : EventsPage) : Nat :=
  if page.events.isEmpty then page.latestLedger
  else (page.events.map (·.ledger)).max?.getD page.latestLedger

/-- `save_sync_progress` with one entry for each contract of the request. -/
def saveProgress (contractIds : List String) (page : EventsPage) (db : Database) : Database :=
  saveSyncProgress
    (contractIds.map fun contractId =>
      { contractId := contractId
        lastIndexedLedger := page.progressLedger
        lastFullyIndexedLedger := 0
        cursor := page.cursor })
    page.events.isEmpty db

/-- What of a page reached the storage before the round went on or failed. -/
inductive Saved where
  | all
  | eventsOnly
  deriving DecidableEq

/-- The contracts a client watches, the ledger each is watched from, the chain so far, the client's
database, and the round that is under way. -/
structure World where
  config : ContractConfig
  starts : String → Nat
  chain : List ContractEvent
  tip : Nat
  db : Database
  round : Option Round

inductive Action where
  /-- The chain closes ledgers up to `tip`. -/
  | close (tip : Nat) (events : List ContractEvent)
  | deploy (config : ContractConfig)
  | clearCursors
  | startRound
  | page (answer : EventsPage) (saved : Saved)
  /-- An error or a restart ends the round. -/
  | stop

def World.initial (config : ContractConfig) : World where
  config := config
  starts := config.startLedger
  chain := []
  tip := 0
  db := Database.empty
  round := none

def World.page (w : World) (r : Round) (answer : EventsPage) : Saved → World
  | .eventsOnly => { w with db := saveEventsBatch answer.events w.db, round := none }
  | .all =>
      { w with
        db := saveProgress r.contractIds answer (saveEventsBatch answer.events w.db)
        round :=
          if answer.events.isEmpty ∨ r.pagesLeft ≤ 1 then none
          else some { r with cursor := some answer.cursor, pagesLeft := r.pagesLeft - 1 } }

def World.next (w : World) : Action → World
  | .close tip events => { w with chain := w.chain ++ events, tip := tip }
  | .deploy config =>
      { w with
        config := config
        starts := fun c => if c ∈ w.config.allContractIds then w.starts c else config.startLedger c }
  | .clearCursors => { w with db := clearIndexingCursors w.db }
  | .startRound =>
      match w.config.minDeploymentLedger with
      | some minPoolLedger => { w with round := some (Round.start w.config minPoolLedger w.db) }
      | none => w
  | .page answer saved =>
      match w.round with
      | some r => w.page r answer saved
      | none => w
  | .stop => { w with round := none }

/-- The events a request is past: those before its cursor, or before its start ledger. -/
def Round.passed (position : String → Nat) (r : Round) (chain : List ContractEvent) : List ContractEvent :=
  match r.cursor with
  | some cursor => chain.take (position cursor)
  | none => chain.filter fun event => event.ledger < r.startLedger

def Round.ahead (position : String → Nat) (r : Round) (chain : List ContractEvent) : List ContractEvent :=
  match r.cursor with
  | some cursor => chain.drop (position cursor)
  | none => chain.filter fun event => r.startLedger ≤ event.ledger

/-- What an answer says about the chain: it holds the next events of the contracts, up to where its
cursor stands; an empty one says that there are none up to the latest ledger. -/
structure Answers (position : String → Nat) (w : World) (r : Round) (answer : EventsPage) : Prop where
  frontier : position answer.cursor ≤ w.chain.length
  events : answer.events =
    (r.ahead position (w.chain.take (position answer.cursor))).filter fun event => event.contractId ∈ r.contractIds
  latest : answer.latestLedger ≤ w.tip
  empty : answer.events = [] → ∀ event ∈ r.ahead position w.chain, event.contractId ∈ r.contractIds →
    answer.latestLedger < event.ledger

/-- What the chain, the RPC and the deployments do: ledgers close in order, event ids are unique,
answers are right, and pools are added between rounds. -/
def Honest (position : String → Nat) (w : World) : Action → Prop
  | .close tip events =>
      w.tip ≤ tip ∧ (∀ event ∈ events, w.tip < event.ledger ∧ event.ledger ≤ tip) ∧
        events.Pairwise (fun a b => a.ledger ≤ b.ledger) ∧ ((w.chain ++ events).map (·.id)).Nodup
  | .deploy config =>
      w.round.isNone ∧ w.config.enabledPools ⊆ config.enabledPools ∧
        config.aspMembership = w.config.aspMembership ∧
        config.publicKeyRegistry = w.config.publicKeyRegistry
  | .clearCursors => w.round.isNone
  | .startRound => w.round.isNone
  | .page answer _ => ∀ r, w.round = some r → Answers position w r answer
  | .stop => True

/-- A contract without a row in the sync metadata has told nothing, since its start ledger, before the
point where the round starts. -/
def JoinsInTime (position : String → Nat) (w : World) : Action → Prop
  | .startRound => ∀ minPoolLedger, w.config.minDeploymentLedger = some minPoolLedger →
      ∀ c ∈ w.config.allContractIds, c ∉ w.db.indexingMetadata.map (·.contract) →
        ∀ event ∈ (Round.start w.config minPoolLedger w.db).passed position w.chain,
          event.contractId = c → event.ledger < w.starts c
  | _ => True

/-- A page that has events ends with the last event, of the contracts it was asked for, of its ledger. -/
def EndsLedger (position : String → Nat) (w : World) : Action → Prop
  | .page answer .all => ∀ r, w.round = some r → answer.events ≠ [] →
      ∀ event ∈ w.chain.drop (position answer.cursor), event.contractId ∈ r.contractIds →
        event.ledger ≠ answer.progressLedger
  | _ => True

end PrivatePayments.Indexer
