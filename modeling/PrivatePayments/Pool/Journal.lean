import PrivatePayments.Library.NoteLedger
import PrivatePayments.Library.Run
import PrivatePayments.Pool.Extraction

/-!
The journal of a pool: its history with the transactions that returned, and what each call of the
deployment writes in it.
-/

namespace PrivatePayments.Pool
open Bn254 Poseidon2 Soroban Library Merkle Circuits PolicyTransaction

structure Transaction where
  proof : Proof
  extData : ExtData
  deriving DecidableEq

def Call.transactions : Call → List Transaction
  | .transact _ _ proof extData _ => [{ proof := proof, extData := extData }]
  | _ => []

structure Journal where
  progress : Progress
  accepted : List Transaction

namespace Journal

abbrev ledger (j : Journal) : Ledger := j.progress.env.storage

def leaves (j : Journal) : List Fr := j.progress.leaves.map ofU256

def nullifiers (j : Journal) : List U256 := j.accepted.flatMap fun t => t.proof.inputNullifiers

def advance (D : Deployment) (j : Journal) (call : Call) : Journal where
  progress := Pool.advance D poseidon2 j.progress call
  accepted :=
    match (call.program D poseidon2).run j.progress.env with
    | .ok _ => j.accepted ++ call.transactions
    | .error _ => j.accepted

def fresh (config : Config) (balances : Balances) : Journal where
  progress := { env := config.deployed balances, leaves := [] }
  accepted := []

end Journal

def journal (D : Deployment) (config : Config) (balances : Balances) (calls : List Call) : Journal :=
  calls.foldl (Journal.advance D) (.fresh config balances)

theorem journal_concat (D : Deployment) (config : Config) (balances : Balances) (calls : List Call) (call : Call) :
    journal D config balances (calls ++ [call]) = (journal D config balances calls).advance D call := by
  unfold journal
  rw [List.foldl_append]
  rfl

theorem journal_progress (D : Deployment) (config : Config) (balances : Balances) (calls : List Call) :
    (journal D config balances calls).progress = run D poseidon2 config balances calls := by
  induction calls using List.reverseRecOn with
  | nil => rfl
  | append_singleton calls call ih =>
    rw [journal_concat, run_concat, ← ih]
    rfl

theorem deployed_eq {config : Config} (positive : 0 < config.levels) (bounded : config.levels ≤ 32)
    (balances : Balances) : ∃ m, config.deployed balances =
      { storage :=
          { pool := { admin := some config.admin, token := some config.token, verifier := some config.verifier,
                      aspMembership := some config.aspMembership, aspNonMembership := some config.aspNonMembership,
                      maximumDepositAmount := some config.maximumDepositAmount,
                      nullifiers := some fun _ => none, merkle := m, events := [] }
            balances := balances }
        hashed := [] } := by
  let fill (l : Ledger) : Ledger :=
    { l with pool :=
      { l.pool with admin := some config.admin, token := some config.token, verifier := some config.verifier,
                    aspMembership := some config.aspMembership, aspNonMembership := some config.aspNonMembership,
                    maximumDepositAmount := some config.maximumDepositAmount,
                    nullifiers := some fun _ => none } }
  let start : Env Ledger := { storage := Ledger.empty balances, hashed := [] }
  have filed : (merkle (MerkleTreeWithHistory.init config.levels)).run (start.update fill) = _ :=
    Host.run_zoom_ok (MerkleTreeWithHistory.run_init positive bounded)
  exact ⟨_, Host.invoke_ok ((Host.run_bind_ok (Host.run_update _ _)).trans filed)⟩

/-- The entries that a call other than a transaction leaves alone. -/
structure SameBooks (before after : Storage) : Prop where
  token : after.token = before.token
  verifier : after.verifier = before.verifier
  nullifiers : after.nullifiers = before.nullifiers
  merkle : after.merkle = before.merkle
  events : after.events = before.events

section Step

variable {D : Deployment}

theorem spec_admin {l : Ledger} (auths : List Address) (f : Ledger → Ledger) :
    Host.Triple (At l) (do
      let admin ← Host.okOr (← Host.storage).pool.admin .notInitialized
      Host.requireAuth auths admin
      Host.update f : Contract Unit) fun _ => At (f l) :=
  spec_field (·.admin) fun _ _ => (Host.keeps_requireAuth _ _).bind fun _ => spec_update f

/-- A call that is no transaction moves tokens or changes an address that is not the token's or the verifier's. -/
theorem other_call {call : Call} (other : call.transactions = []) {env next : Env Ledger} {u : Unit}
    (returned : (call.program D poseidon2).run env = .ok (u, next)) :
    SameBooks env.storage.pool next.storage.pool ∧
      (next.storage.balances = env.storage.balances ∨ call = .moveTokens next.storage.balances) := by
  cases call with
  | transact roots auths proof extData sender => cases other
  | updateAdmin auths newAdmin =>
    have after := spec_admin auths _ env rfl u next returned
    rw [after]
    exact ⟨⟨rfl, rfl, rfl, rfl, rfl⟩, Or.inl rfl⟩
  | updateAspMembership auths newAsp =>
    have after := spec_admin auths _ env rfl u next returned
    rw [after]
    exact ⟨⟨rfl, rfl, rfl, rfl, rfl⟩, Or.inl rfl⟩
  | updateAspNonMembership auths newAsp =>
    have after := spec_admin auths _ env rfl u next returned
    rw [after]
    exact ⟨⟨rfl, rfl, rfl, rfl, rfl⟩, Or.inl rfl⟩
  | moveTokens balances =>
    have after := spec_update (l := env.storage) (·.setBalances balances) env rfl u next returned
    rw [after]
    exact ⟨⟨rfl, rfl, rfl, rfl, rfl⟩, Or.inr rfl⟩

structure Entered (D : Deployment) (j : Journal) (call : Call) (t : Transaction) (next : Env Ledger) : Prop where
  accepted : ∃ roots auths sender, call = .transact roots auths t.proof t.extData sender ∧
    Accepted D poseidon2 roots auths t.proof t.extData sender j.ledger next.storage
  advance : j.advance D call =
    { progress := { env := next
                    leaves := j.progress.leaves ++ [t.proof.outputCommitment0, t.proof.outputCommitment1] }
      accepted := j.accepted ++ [t] }

/-- What a call does to the journal: nothing, an entry, or a change beside the books. -/
theorem advance_cases (D : Deployment) (j : Journal) (call : Call) :
    j.advance D call = j ∨ (∃ t next, Entered D j call t next) ∨
      ∃ next : Env Ledger, SameBooks j.ledger.pool next.storage.pool ∧
        (next.storage.balances = j.ledger.balances ∨ call = .moveTokens next.storage.balances) ∧
        j.advance D call = { progress := { env := next, leaves := j.progress.leaves }, accepted := j.accepted } := by
  cases returned : (call.program D poseidon2).run j.progress.env with
  | error f =>
    left
    simp only [Journal.advance, Pool.advance, returned]
  | ok result =>
    right
    have beside (other : call.transactions = []) (silent : call.commitments = []) :
        ∃ next : Env Ledger, SameBooks j.ledger.pool next.storage.pool ∧
          (next.storage.balances = j.ledger.balances ∨ call = .moveTokens next.storage.balances) ∧
          j.advance D call = { progress := { env := next, leaves := j.progress.leaves }, accepted := j.accepted } := by
      obtain ⟨books, tokens⟩ := other_call other returned
      refine ⟨result.2, books, tokens, ?_⟩
      simp only [Journal.advance, Pool.advance, returned, silent, other, List.append_nil]
    cases call with
    | transact roots auths proof extData sender =>
      refine Or.inl ⟨{ proof := proof, extData := extData }, result.2, ?_, ?_⟩
      · exact ⟨roots, auths, sender, rfl, transact_accepted returned⟩
      · simp only [Journal.advance, Pool.advance, returned]
        rfl
    | updateAdmin auths newAdmin => exact Or.inr (beside rfl rfl)
    | updateAspMembership auths newAsp => exact Or.inr (beside rfl rfl)
    | updateAspNonMembership auths newAsp => exact Or.inr (beside rfl rfl)
    | moveTokens balances => exact Or.inr (beside rfl rfl)

end Step

section Books

variable {C : Circomlib} {D : Deployment} {verifier : Address} {levels smtLevels : Nat}

/-- The positions of the notes an assignment spends: those of the inputs with an amount. -/
def spentPositions (x : PolicyTransaction.Inputs) : List Nat :=
  ((List.range 2).filter fun tx => x.inAmount tx ≠ 0).map fun tx => (x.inPathIndices tx).val

def outNotes (x : PolicyTransaction.Inputs) : List Note := (List.range 2).map (outNote x)

theorem map_outNotes {α : Type} (x : PolicyTransaction.Inputs) (f : Note → α) :
    (outNotes x).map f = [f (outNote x 0), f (outNote x 1)] := rfl

namespace Extractor

variable (E : Extractor C D verifier (circuitSize levels smtLevels))

def notes (accepted : List Transaction) : List Note := accepted.flatMap fun t => outNotes (E.x t.proof)

def transaction (t : Transaction) : NoteLedger.Transaction where
  inputs := spentPositions (E.x t.proof)
  outputs := (outNotes (E.x t.proof)).map fun note => note.amount.val
  external := t.extData.extAmount.toInt

def ledger (accepted : List Transaction) : NoteLedger := .after (accepted.map E.transaction)

/-- The Poseidon2 queries in play: behind the roots of the pool and in the assignments. -/
def queries (j : Journal) : Set Query :=
  rootQueries levels j.leaves ∪
    {q | ∃ t ∈ j.accepted, q ∈ noteQueries poseidon2 (circuitSize levels smtLevels) (E.x t.proof) (E.w t.proof)}

theorem notes_concat (accepted : List Transaction) (t : Transaction) :
    E.notes (accepted ++ [t]) = E.notes accepted ++ outNotes (E.x t.proof) := by
  rw [notes, List.flatMap_append, List.flatMap_singleton]
  rfl

theorem length_notes (accepted : List Transaction) : (E.notes accepted).length = 2 * accepted.length := by
  induction accepted using List.reverseRecOn with
  | nil => rfl
  | append_singleton accepted t ih =>
    rw [notes_concat, List.length_append, ih, List.length_append]
    rfl

theorem notes_later {accepted : List Transaction} (t : Transaction) {position : Nat} {note : Note}
    (found : (E.notes accepted)[position]? = some note) : (E.notes (accepted ++ [t]))[position]? = some note := by
  rw [notes_concat, List.getElem?_append_left (List.getElem?_eq_some_iff.mp found).1]
  exact found

theorem ledger_concat (accepted : List Transaction) (t : Transaction) :
    E.ledger (accepted ++ [t]) = (E.ledger accepted).apply (E.transaction t) := by
  rw [ledger, List.map_append, List.map_singleton, NoteLedger.after_concat, ledger]

theorem ledger_notes (accepted : List Transaction) :
    (E.ledger accepted).notes = (E.notes accepted).map fun note => note.amount.val := by
  induction accepted using List.reverseRecOn with
  | nil => rfl
  | append_singleton accepted t ih =>
    rw [ledger_concat, notes_concat, List.map_append, ← ih]
    rfl

theorem ledger_spent (accepted : List Transaction) :
    (E.ledger accepted).spent = accepted.flatMap fun t => spentPositions (E.x t.proof) := by
  induction accepted using List.reverseRecOn with
  | nil => rfl
  | append_singleton accepted t ih =>
    rw [ledger_concat, List.flatMap_append, List.flatMap_singleton, ← ih]
    rfl

theorem amountAt_ledger {accepted : List Transaction} {position : Nat} {note : Note}
    (found : (E.notes accepted)[position]? = some note) : (E.ledger accepted).amountAt position = note.amount.val := by
  rw [NoteLedger.amountAt, ledger_notes, List.getD_eq_getElem?_getD, List.getElem?_map, found]
  rfl

end Extractor

theorem mem_spentPositions {x : PolicyTransaction.Inputs} {position : Nat} : position ∈ spentPositions x ↔
    ∃ tx, tx < 2 ∧ x.inAmount tx ≠ 0 ∧ (x.inPathIndices tx).val = position := by
  simp only [spentPositions, List.mem_map, List.mem_filter, List.mem_range, decide_eq_true_eq, and_assoc]

end Books

end PrivatePayments.Pool
