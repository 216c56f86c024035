import PrivatePayments.Indexer.Completeness

/-!
What the sync metadata of a client promises about its event store, and the contract that joins
too late for it.
-/

namespace PrivatePayments.Indexer
open LocalState Library

/-- The events of the contract from its start ledger to before `ledger`, and at `ledger` if `inclusive`,
are in the store. -/
def StoredTo (w : World) (contract : String) (inclusive : Bool) (ledger : Nat) : Prop :=
  ∀ event ∈ w.chain, event.contractId = contract → w.starts contract ≤ event.ledger →
    (event.ledger < ledger ∨ inclusive = true ∧ event.ledger = ledger) →
      event.row ∈ w.db.rawContractEvents

theorem Complete.storedTo {mark : MetadataRow → Nat} {w : World} (complete : Complete mark w) {row : MetadataRow}
    (member : row ∈ w.db.indexingMetadata) : StoredTo w row.contract true (mark row) := by
  intro event inside isRow since upTo
  refine (complete row member).2 event (List.mem_filter.mpr ⟨inside, ?_⟩) isRow (isRow ▸ since)
  simp only [true_and] at upTo
  simpa using upTo.elim le_of_lt le_of_eq

theorem Indexed.storedTo {position : String → Nat} {w : World} (inv : Indexed position w) {row : MetadataRow}
    (member : row ∈ w.db.indexingMetadata) : StoredTo w row.contract false row.lastIndexedLedger := by
  intro event inside isRow since upTo
  have known : row.contract ∈ w.db.indexingMetadata.map (·.contract) := List.mem_map_of_mem member
  rcases inv.resumes with fresh | ⟨cursor, ledger, resumes⟩
  · rw [fresh] at member
    cases member
  · have same := (resumes.shared row member).2
    refine resumes.below event (List.mem_filter.mpr ⟨inside, ?_⟩) (isRow ▸ known) (isRow ▸ since)
    simpa [← same] using upTo

/-- In every run of the chain, the deployments and the rounds in which every contract joins in time, each
contract with a row has all its events up to the ledger it is fully indexed to and before the ledger it
is indexed to, and at that ledger too if no saved page cut a ledger. -/
theorem indexed_contracts_complete (position : String → Nat) (config : ContractConfig)
    (valid : config.enabledPools ≠ []) (actions : List Action)
    (honest : Along World.next (Honest position) (World.initial config) actions)
    (joins : Along World.next (JoinsInTime position) (World.initial config) actions) :
    ∀ row ∈ (actions.foldl World.next (World.initial config)).db.indexingMetadata,
      StoredTo (actions.foldl World.next (World.initial config)) row.contract true row.lastFullyIndexedLedger ∧
        StoredTo (actions.foldl World.next (World.initial config)) row.contract false row.lastIndexedLedger ∧
        (Along World.next (EndsLedger position) (World.initial config) actions →
          StoredTo (actions.foldl World.next (World.initial config)) row.contract true row.lastIndexedLedger) := by
  have start : Indexed position (World.initial config) := indexed_initial valid
  have inv := (honest.and joins).invariant (fun w action inv meets => inv.step meets.1 meets.2) start
  intro row member
  refine ⟨inv.fully.storedTo member, inv.storedTo member, fun whole => ?_⟩
  have both := ((honest.and joins).and whole).invariant
    (fun w action (inv : Indexed position w ∧ Complete (·.lastIndexedLedger) w) meets =>
      ⟨inv.1.step meets.1.1 meets.1.2, inv.2.step inv.1 meets.1.1 meets.2⟩)
    ⟨start, fun row member => by cases member⟩
  exact both.2.storedTo member

theorem Indexed.joins_first {position : String → Nat} {w : World} (inv : Indexed position w)
    (fresh : w.db.indexingMetadata = []) : JoinsInTime position w .startRound := by
  intro m least c watched _ event passed isC
  obtain ⟨m', least', late⟩ := inv.starts
  obtain rfl : m = m' := Option.some.inj (least.symm.trans least')
  obtain ⟨ledger, cursor⟩ := resume_of_no_metadata w.config.allContractIds m fresh
  unfold Round.passed Round.start at passed
  dsimp only at passed
  rw [cursor, ledger] at passed
  have before := of_decide_eq_true (List.mem_filter.mp passed).2
  have bound := late c watched
  omega

def onePool : ContractConfig where
  aspMembership := "CASP"
  publicKeyRegistry := "CREG"
  pools := [⟨"CPOOLA", 1, true⟩]

def twoPools : ContractConfig where
  aspMembership := "CASP"
  publicKeyRegistry := "CREG"
  pools := [⟨"CPOOLA", 1, true⟩, ⟨"CPOOLB", 2, true⟩]

def poolEvent (pool : String) : ContractEvent := ⟨"0000000012884905984-0000000000", 3, pool, ["AAAA"], "AAAA"⟩

def pageTo5 (events : List ContractEvent) : EventsPage := ⟨"0000000025769803775-4294967295", events, 5⟩

def oneRound (pool : String) (events : List ContractEvent) : List Action :=
  [.close 5 [poolEvent pool], .startRound, .page (pageTo5 events) .all]

theorem oneRound_started (pool : String) :
    (((World.initial onePool).next (.close 5 [poolEvent pool])).next .startRound).round =
      some ⟨["CPOOLA", "CASP", "CREG"], 1, none, 10⟩ := rfl

theorem close_honest (pool : String) :
    Honest (fun _ => 1) (World.initial onePool) (.close 5 [poolEvent pool]) := by
  simp [Honest, World.initial, poolEvent]

theorem oneRound_honest (pool : String) {events : List ContractEvent}
    (told : events = [poolEvent pool].filter fun event => event.contractId ∈ ["CPOOLA", "CASP", "CREG"]) :
    Along World.next (Honest fun _ => 1) (World.initial onePool) (oneRound pool events) := by
  refine ⟨close_honest pool, rfl, fun r running => ?_, trivial⟩
  obtain rfl := Option.some.inj ((oneRound_started pool).symm.trans running)
  refine ⟨le_refl 1, told, le_refl 5, fun empty event member watched => ?_⟩
  -- the only event is not one of the watched contracts
  have only : event = poolEvent pool := List.mem_singleton.mp (List.mem_filter.mp member).1
  change events = [] at empty
  have watchedToo : poolEvent pool ∈ events := by
    rw [told]
    exact List.mem_filter.mpr ⟨List.mem_singleton_self _, by simpa [only] using watched⟩
  rw [empty] at watchedToo
  cases watchedToo

theorem indexed_contracts_complete_sample :
    onePool.enabledPools ≠ [] ∧ ∀ row ∈ ((oneRound "CPOOLA" [poolEvent "CPOOLA"]).foldl World.next
        (World.initial onePool)).db.indexingMetadata,
      StoredTo ((oneRound "CPOOLA" [poolEvent "CPOOLA"]).foldl World.next (World.initial onePool))
        row.contract false row.lastIndexedLedger := by
  have valid : onePool.enabledPools ≠ [] := by decide
  refine ⟨valid, fun row member => ?_⟩
  have started : Indexed (fun _ => 1) ((World.initial onePool).next (.close 5 [poolEvent "CPOOLA"])) :=
    (indexed_initial valid).close (close_honest "CPOOLA")
  exact (indexed_contracts_complete (fun _ => 1) onePool valid (oneRound "CPOOLA" [poolEvent "CPOOLA"])
    (oneRound_honest "CPOOLA" (by decide)) ⟨trivial, started.joins_first rfl, trivial, trivial⟩ row member).2.1

/-- The second pool joins after the cursor has passed its event. -/
def lateJoin : List Action := oneRound "CPOOLB" [] ++ [.deploy twoPools, .startRound, .page (pageTo5 []) .all]

/-- The metadata then says that the second pool is indexed up to ledger 5, and its event at ledger 3 is
not in the store. -/
theorem late_pool_incomplete :
    Along World.next (Honest fun _ => 1) (World.initial onePool) lateJoin ∧
      ∃ row ∈ (lateJoin.foldl World.next (World.initial onePool)).db.indexingMetadata,
        ¬StoredTo (lateJoin.foldl World.next (World.initial onePool)) row.contract true
            row.lastFullyIndexedLedger ∧
          ¬StoredTo (lateJoin.foldl World.next (World.initial onePool)) row.contract true
            row.lastIndexedLedger := by
  have once := oneRound_honest "CPOOLB" (show [] = _ by decide)
  have second : ((lateJoin.take 5).foldl World.next (World.initial onePool)).round =
      some ⟨["CPOOLA", "CPOOLB", "CASP", "CREG"], 5, some "0000000025769803775-4294967295", 10⟩ := by
    decide +kernel
  have rows : (lateJoin.foldl World.next (World.initial onePool)).db.indexingMetadata =
      ["CPOOLA", "CASP", "CREG", "CPOOLB"].map fun c => ⟨c, some "0000000025769803775-4294967295", 5, 5⟩ := by
    decide +kernel
  have store : (lateJoin.foldl World.next (World.initial onePool)).db.rawContractEvents = [] := by
    decide +kernel
  have missing : ¬StoredTo (lateJoin.foldl World.next (World.initial onePool)) "CPOOLB" true 5 := by
    intro stored
    have found := stored (poolEvent "CPOOLB") (List.mem_singleton_self _) rfl (by decide +kernel)
      (Or.inl (by decide))
    rw [store] at found
    cases found
  have idle : ((lateJoin.take 4).foldl World.next (World.initial onePool)).round.isNone = true := by
    decide +kernel
  refine ⟨⟨once.1, once.2.1, once.2.2.1, ?_, idle, fun r running => ?_, trivial⟩, ?_⟩
  · have more : onePool.enabledPools ⊆ twoPools.enabledPools :=
      fun pool member => List.mem_cons.mpr (Or.inl (List.mem_singleton.mp member))
    exact ⟨idle, more, rfl, rfl⟩
  · obtain rfl := Option.some.inj (second.symm.trans running)
    exact ⟨le_refl 1, rfl, le_refl 5, fun _ event member => by cases member⟩
  · refine ⟨⟨"CPOOLB", some "0000000025769803775-4294967295", 5, 5⟩, ?_, missing, missing⟩
    rw [rows]
    simp

end PrivatePayments.Indexer
