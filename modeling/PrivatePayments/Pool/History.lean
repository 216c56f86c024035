import PrivatePayments.Pool.Contract
import PrivatePayments.Pool.RootHistory

/-!
Histories of the pool: any calls of its entry points in any order, with tokens moving in
between. The tree of the pool is the tree over the commitments of the transactions that returned.
-/

namespace PrivatePayments.Pool
open Bn254 Poseidon2 Soroban Library FullTree Merkle

structure Config where
  admin : Address
  token : Address
  verifier : Address
  aspMembership : Address
  aspNonMembership : Address
  maximumDepositAmount : U256
  levels : Nat

/-- What happens to the deployment: calls of the pool, and tokens moved without it. -/
inductive Call where
  | transact (roots : Roots) (auths : List Address) (proof : Proof) (extData : ExtData) (sender : Address)
  | updateAdmin (auths : List Address) (newAdmin : Address)
  | updateAspMembership (auths : List Address) (newAspMembership : Address)
  | updateAspNonMembership (auths : List Address) (newAspNonMembership : Address)
  | moveTokens (balances : Balances)

def Call.program (D : Deployment) (H : Hasher) : Call → Contract Unit
  | .transact roots auths proof extData sender => Pool.transact D H roots auths proof extData sender
  | .updateAdmin auths newAdmin => Pool.updateAdmin auths newAdmin
  | .updateAspMembership auths newAspMembership => Pool.updateAspMembership auths newAspMembership
  | .updateAspNonMembership auths newAspNonMembership => Pool.updateAspNonMembership auths newAspNonMembership
  | .moveTokens balances => Host.update (·.setBalances balances)

def Config.construct (config : Config) : Contract Unit :=
  Pool.construct config.admin config.token config.verifier config.aspMembership config.aspNonMembership
    config.maximumDepositAmount config.levels

def Config.deployed (config : Config) (balances : Balances) : Env Ledger :=
  Host.invoke config.construct { storage := Ledger.empty balances, hashed := [] }

def Call.commitments : Call → List U256
  | .transact _ _ proof _ _ => [proof.outputCommitment0, proof.outputCommitment1]
  | _ => []

structure Progress where
  env : Env Ledger
  leaves : List U256

def advance (D : Deployment) (H : Hasher) (p : Progress) (call : Call) : Progress :=
  match (call.program D H).run p.env with
  | .ok (_, next) => { env := next, leaves := p.leaves ++ call.commitments }
  | .error _ => p

def run (D : Deployment) (H : Hasher) (config : Config) (balances : Balances) (calls : List Call) : Progress :=
  calls.foldl (advance D H) { env := config.deployed balances, leaves := [] }

theorem run_concat (D : Deployment) (H : Hasher) (config : Config) (balances : Balances) (calls : List Call)
    (call : Call) : run D H config balances (calls ++ [call]) = advance D H (run D H config balances calls) call := by
  unfold run
  rw [List.foldl_append]
  rfl

def isKnownRoot (root : U256) : Contract Bool := merkle (MerkleTreeWithHistory.isKnownRoot root)

section Frame

variable {I : Env Ledger → Prop} {m : MerkleTreeWithHistory.Storage} {α : Type}

abbrev HasTree (m : MerkleTreeWithHistory.Storage) : Env Ledger → Prop := fun env => env.storage.pool.merkle = m

theorem keeps_called (x : Option α) : Host.Keeps I (Host.called x : Contract α) := by
  cases x with
  | none => exact Host.Triple.trap
  | some a => exact Host.keeps_pure a

theorem keeps_i256Neg (v : I256) : Host.Keeps I (Host.i256Neg v : Contract I256) :=
  Host.Triple.ite (fun _ => Host.Triple.trap) fun _ => Host.keeps_pure _

theorem keeps_u256Sub (a b : U256) : Host.Keeps I (Host.u256Sub a b : Contract U256) :=
  Host.Triple.ite (fun _ => Host.Triple.trap) fun _ => Host.keeps_pure _

theorem keeps_getNullifiers : Host.Keeps I getNullifiers := Host.keeps_storage.bind fun _ => Host.keeps_okOr _ _

theorem keeps_isSpent (n : U256) : Host.Keeps I (isSpent n) := keeps_getNullifiers.bind fun _ => Host.keeps_pure _

theorem keeps_isKnownRoot {J : Env MerkleTreeWithHistory.Storage → Prop} (root : U256) :
    Host.Keeps J (MerkleTreeWithHistory.isKnownRoot root) := by
  refine Host.Triple.ite (fun _ => Host.keeps_pure _) fun _ => ?_
  refine Host.keeps_storage.bind fun store => (Host.keeps_okOr _ _).bind fun current => ?_
  split
  · exact Host.Triple.trap
  · exact Host.keeps_lift _

theorem keeps_merkle_isKnownRoot (root : U256) : Host.Keeps I (merkle (MerkleTreeWithHistory.isKnownRoot root)) := by
  refine Host.Triple.zoom fun env start a next returned => ?_
  have same : next = { storage := env.storage.pool.merkle, hashed := env.hashed } :=
    keeps_isKnownRoot (J := fun e => e = { storage := env.storage.pool.merkle, hashed := env.hashed }) root _ rfl a next
      returned
  rw [same]
  exact start

theorem keeps_checkNullifiers (nullifiers : List U256) : Host.Keeps I (checkNullifiers nullifiers) := by
  induction nullifiers with
  | nil => exact Host.keeps_pure _
  | cons n rest ih =>
    refine (keeps_isSpent n).bind fun spent => ?_
    exact Host.Triple.guard fun _ => ih

theorem keeps_validateBn256PublicInput (value modulus : U256) : Host.Keeps I (validateBn256PublicInput value modulus) :=
  Host.Triple.ite (fun _ => Host.Triple.fail _) fun _ => Host.keeps_pure _

theorem keeps_validateNullifiers (modulus : U256) (nullifiers : List U256) :
    Host.Keeps I (validateNullifiers modulus nullifiers) := by
  induction nullifiers with
  | nil => exact Host.keeps_pure _
  | cons n rest ih => exact (keeps_validateBn256PublicInput n modulus).bind fun _ => ih

theorem keeps_validateBn256PublicInputs (proof : Proof) (modulus : U256) :
    Host.Keeps I (validateBn256PublicInputs proof modulus) :=
  (keeps_validateBn256PublicInput _ _).bind fun _ => (keeps_validateBn256PublicInput _ _).bind fun _ =>
    (keeps_validateNullifiers _ _).bind fun _ => (keeps_validateBn256PublicInput _ _).bind fun _ =>
      (keeps_validateBn256PublicInput _ _).bind fun _ => (keeps_validateBn256PublicInput _ _).bind fun _ =>
        keeps_validateBn256PublicInput _ _

theorem keeps_verifyProof (D : Deployment) (proof : Proof) : Host.Keeps I (verifyProof D proof) := by
  unfold verifyProof
  refine Host.Triple.guard fun _ => ?_
  refine Host.keeps_storage.bind fun _ => (Host.keeps_okOr _ _).bind fun _ => ?_
  exact (keeps_validateBn256PublicInputs _ _).bind fun _ => keeps_called _

theorem keeps_calculatePublicAmount (extAmount : I256) : Host.Keeps I (calculatePublicAmount extAmount) := by
  have abs : Host.Keeps I (i256AbsToU256 extAmount) :=
    Host.Triple.ite (fun _ => Host.keeps_pure _) fun _ => keeps_i256Neg _
  refine abs.bind fun _ => Host.Triple.ite (fun _ => Host.Triple.fail _) fun _ => ?_
  exact Host.Triple.ite (fun _ => Host.keeps_pure _) fun _ => (keeps_i256Neg _).bind fun _ => keeps_u256Sub _ _

theorem keeps_validate (D : Deployment) (roots : Roots) (proof : Proof) (extData : ExtData) :
    Host.Keeps I (validate D roots proof extData) := by
  refine (keeps_merkle_isKnownRoot _).bind fun _ => Host.Triple.guard fun _ =>
    (keeps_checkNullifiers _).bind fun _ => ?_
  refine Host.Triple.guard fun _ => (keeps_calculatePublicAmount _).bind fun _ => Host.Triple.guard fun _ => ?_
  refine (Host.keeps_storage.bind fun _ => (Host.keeps_okOr _ _).bind fun _ => keeps_called _).bind fun _ => ?_
  refine (Host.keeps_storage.bind fun _ => (Host.keeps_okOr _ _).bind fun _ => keeps_called _).bind fun _ => ?_
  refine Host.Triple.guard fun _ => (keeps_verifyProof _ _).bind fun _ => ?_
  exact Host.Triple.ite (fun _ => Host.Triple.fail _) fun _ => Host.keeps_pure _

theorem keeps_beside {f : Ledger → Ledger} (beside : ∀ l, (f l).pool.merkle = l.pool.merkle) :
    Host.Keeps (HasTree m) (Host.update f : Contract Unit) :=
  Host.Triple.update fun _ here => (beside _).trans here

theorem keeps_tokenTransfer (D : Deployment) (token source target : Address) (amount : Int) :
    Host.Keeps (HasTree m) (tokenTransfer D token source target amount) :=
  Host.keeps_storage.bind fun _ => (keeps_called _).bind fun _ => keeps_beside fun _ => rfl

theorem keeps_i256ToI128Nonneg (v : I256) : Host.Keeps I (i256ToI128Nonneg v) :=
  Host.Triple.ite (fun _ => Host.Triple.fail _) fun _ => Host.keeps_okOr _ _

theorem keeps_markNullifiers (nullifiers : List U256) : Host.Keeps (HasTree m) (markNullifiers nullifiers) := by
  induction nullifiers with
  | nil => exact Host.keeps_pure _
  | cons n rest ih =>
    have marked : Host.Keeps (HasTree m) (markSpent n) := keeps_getNullifiers.bind fun _ => keeps_beside fun _ => rfl
    have told : Host.Keeps (HasTree m) (Host.update (·.publish (.newNullifier n)) : Contract Unit) :=
      keeps_beside fun _ => rfl
    refine (marked.tryCatch fun f => ?_).bind fun _ => told.bind fun _ => ih
    cases f with
    | error e => exact Host.keeps_pure _
    | trap => exact Host.Triple.trap

theorem keeps_deposit (D : Deployment) (token sender : Address) (extAmount : I256) :
    Host.Keeps (HasTree m) (deposit D token sender extAmount) := by
  refine Host.Triple.ite (fun _ => ?_) fun _ => Host.keeps_pure _
  refine Host.keeps_storage.bind fun _ => (Host.keeps_okOr _ _).bind fun _ => Host.Triple.guard fun _ => ?_
  exact (keeps_i256ToI128Nonneg _).bind fun _ => keeps_tokenTransfer D token sender D.this _

def TreeExtended (H : Hasher) (m : MerkleTreeWithHistory.Storage) (leaf1 leaf2 : U256) : Env Ledger → Prop :=
  fun env => ∃ log indices, (MerkleTreeWithHistory.insertTwoLeaves H leaf1 leaf2).run { storage := m, hashed := log } =
    .ok (indices, { storage := env.storage.pool.merkle, hashed := env.hashed })

theorem transact_extends (D : Deployment) (H : Hasher) (roots : Roots) (auths : List Address) (proof : Proof)
    (extData : ExtData) (sender : Address) :
    Host.Triple (HasTree m) (transact D H roots auths proof extData sender)
      fun _ => TreeExtended H m proof.outputCommitment0 proof.outputCommitment1 := by
  have told (event : Event) : Host.Keeps (TreeExtended H m proof.outputCommitment0 proof.outputCommitment1)
      (Host.update (·.publish event) : Contract Unit) := Host.Triple.update fun _ extended => extended
  have file : Host.Triple (HasTree m) (merkle
      (MerkleTreeWithHistory.insertTwoLeaves H proof.outputCommitment0 proof.outputCommitment1))
      fun _ => TreeExtended H m proof.outputCommitment0 proof.outputCommitment1 := by
    refine Host.Triple.zoom fun env start indices next returned => ⟨env.hashed, indices, ?_⟩
    rw [← start, returned]
    rfl
  have token : Host.Keeps (HasTree m) getToken := Host.keeps_storage.bind fun _ => Host.keeps_okOr _ _
  have settled : Host.Triple (HasTree m) (settle D H proof extData)
      fun _ => TreeExtended H m proof.outputCommitment0 proof.outputCommitment1 := by
    refine (keeps_markNullifiers _).bind fun _ => token.bind fun token => ?_
    refine Host.Triple.ite (fun _ => ?_) fun _ => file.bind fun _ => (told _).bind fun _ => told _
    refine (keeps_i256Neg _).bind fun _ => (keeps_i256ToI128Nonneg _).bind fun amount => ?_
    exact (keeps_tokenTransfer D token D.this extData.recipient amount).bind fun _ =>
      file.bind fun _ => (told _).bind fun _ => told _
  refine (Host.keeps_requireAuth _ _).bind fun _ => token.bind fun token => ?_
  exact (keeps_deposit D token sender _).bind fun _ => (keeps_validate D roots proof extData).bind fun _ => settled

end Frame

section Run

variable {D : Deployment} {H : Hasher} {config : Config} {balances : Balances}

/-- The tree of the pool is the tree over the commitments filed. -/
def Follows (H : Hasher) (levels : Nat) (p : Progress) : Prop :=
  ∃ log indices, MerkleTreeWithHistory.Good H levels
    { env := { storage := p.env.storage.pool.merkle, hashed := log }, leaves := p.leaves, indices := indices }

theorem follows_deployed (chain : Chain H.compress zeroAt 32) (positive : 0 < config.levels)
    (bounded : config.levels ≤ 32) :
    Follows H config.levels { env := config.deployed balances, leaves := [] } := by
  have init := MerkleTreeWithHistory.run_init positive bounded
  have good := MerkleTreeWithHistory.good_deployed chain positive bounded
  unfold MerkleTreeWithHistory.deployed at good
  rw [Host.invoke_ok init] at good
  let fill (l : Ledger) : Ledger :=
    { l with pool :=
      { l.pool with admin := some config.admin, token := some config.token, verifier := some config.verifier,
                    aspMembership := some config.aspMembership, aspNonMembership := some config.aspNonMembership,
                    maximumDepositAmount := some config.maximumDepositAmount,
                    nullifiers := some fun _ => none } }
  let start : Env Ledger := { storage := Ledger.empty balances, hashed := [] }
  have filed : (merkle (MerkleTreeWithHistory.init config.levels)).run (start.update fill) = _ := Host.run_zoom_ok init
  have whole : config.construct.run start = _ := (Host.run_bind_ok (Host.run_update fill start)).trans filed
  have env : config.deployed balances = _ := Host.invoke_ok whole
  rw [env]
  exact ⟨[], [], good⟩

theorem keeps_admin (auths : List Address) (f : Ledger → Ledger) (beside : ∀ l, (f l).pool.merkle = l.pool.merkle)
    {m : MerkleTreeWithHistory.Storage} : Host.Keeps (HasTree m) (do
      let admin ← Host.okOr (← Host.storage).pool.admin .notInitialized
      Host.requireAuth auths admin
      Host.update f : Contract Unit) :=
  Host.keeps_storage.bind fun _ => (Host.keeps_okOr _ _).bind fun _ => (Host.keeps_requireAuth _ _).bind fun _ =>
    keeps_beside beside

theorem Follows.advance {levels : Nat} {p : Progress} (follows : Follows H levels p)
    (chain : Chain H.compress zeroAt 32)
    (positive : 0 < levels) (bounded : levels ≤ 32) (call : Call) : Follows H levels (Pool.advance D H p call) := by
  unfold Pool.advance
  split
  next u next returned =>
    have kept (keeps : Host.Keeps (HasTree p.env.storage.pool.merkle) (call.program D H))
        (none_ : call.commitments = []) :
        Follows H levels { env := next, leaves := p.leaves ++ call.commitments } := by
      have same : next.storage.pool.merkle = p.env.storage.pool.merkle := keeps p.env rfl u next returned
      unfold Follows
      rw [same, none_, List.append_nil]
      exact follows
    cases call with
    | transact roots auths proof extData sender =>
      obtain ⟨log, ⟨i, j⟩, inserted⟩ := transact_extends D H roots auths proof extData sender p.env rfl u next returned
      obtain ⟨log', indices, good⟩ := follows
      have after := MerkleTreeWithHistory.Good.advance
        (p := ⟨{ storage := p.env.storage.pool.merkle, hashed := log }, p.leaves, indices⟩)
        ⟨good.canonical, good.holds, good.indices, good.current, good.ring⟩ chain positive bounded
        (proof.outputCommitment0, proof.outputCommitment1)
      unfold MerkleTreeWithHistory.advance at after
      rw [inserted] at after
      exact ⟨_, _, after⟩
    | updateAdmin auths newAdmin =>
      exact kept (keeps_admin auths (fun l => { l with pool := { l.pool with admin := some newAdmin } })
        fun _ => rfl) rfl
    | updateAspMembership auths newAsp =>
      exact kept (keeps_admin auths (fun l => { l with pool := { l.pool with aspMembership := some newAsp } })
        fun _ => rfl) rfl
    | updateAspNonMembership auths newAsp =>
      exact kept (keeps_admin auths (fun l => { l with pool := { l.pool with aspNonMembership := some newAsp } })
        fun _ => rfl) rfl
    | moveTokens balances => exact kept (keeps_beside fun _ => rfl) rfl
  next => exact follows

theorem follows_run (chain : Chain H.compress zeroAt 32) (positive : 0 < config.levels) (bounded : config.levels ≤ 32)
    (calls : List Call) : Follows H config.levels (run D H config balances calls) := by
  induction calls using List.reverseRecOn with
  | nil => exact follows_deployed chain positive bounded
  | append_singleton calls call ih =>
    rw [run_concat]
    exact ih.advance chain positive bounded call

/-- A root the pool knows is one it has had. -/
theorem Follows.produced {levels : Nat} {p : Progress} (follows : Follows H levels p) {root : U256} {next : Env Ledger}
    (known : (isKnownRoot root).run p.env = .ok (true, next)) :
    root ∈ MerkleTreeWithHistory.producedRoots H levels (p.leaves.map ofU256) := by
  obtain ⟨log, indices, good⟩ := follows
  have searched := MerkleTreeWithHistory.Good.isKnownRoot
    (p := ⟨{ storage := p.env.storage.pool.merkle, hashed := p.env.hashed }, p.leaves, indices⟩)
    ⟨good.canonical, good.holds, good.indices, good.current, good.ring⟩ root
  have answered : (merkle (MerkleTreeWithHistory.isKnownRoot root)).run p.env = _ := Host.run_zoom_ok searched
  rw [isKnownRoot, answered, Except.ok.injEq, Prod.mk.injEq, decide_eq_true_iff] at known
  exact List.mem_reverse.mp (List.mem_of_mem_take known.1.2)

end Run

end PrivatePayments.Pool
