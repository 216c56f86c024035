import PrivatePayments.Soroban.Triple

/-!
The social prediction market: anyone votes with a proof, closes the market and resolves it.
-/

namespace PrivatePayments.Spm
open Bn254 Soroban

/-- Curve points by their bytes, which the host functions decode. -/
abbrev G1Affine := BitVec 512

abbrev G2Affine := BitVec 1024

/-- The BN254 host functions; they trap on bytes that are no point of the curve. -/
structure Bn254Crypto where
  g1Neg : G1Affine → Option G1Affine
  g1Mul : G1Affine → Fr → Option G1Affine
  g1Add : G1Affine → G1Affine → Option G1Affine
  pairingCheck : List G1Affine → List G2Affine → Option Bool

inductive MarketStatus where
  | opened
  | closed
  | resolved
  deriving DecidableEq

structure VoteResult where
  votesYes : BitVec 32
  votesNo : BitVec 32
  totalVoters : BitVec 32
  minorityWins : Bool
  deriving DecidableEq

inductive ProofError where
  | invalidProof
  | malformedProof
  | nullifierAlreadyUsed
  | marketNotOpen
  deriving DecidableEq

/-- The panics of the contract that have a text. -/
inductive Panic where
  | marketNotOpen
  | nullifierAlreadyUsed
  | invalidZkProof (e : ProofError)
  deriving DecidableEq

structure VerificationKey where
  alpha : G1Affine
  beta : G2Affine
  gamma : G2Affine
  delta : G2Affine
  ic : List G1Affine
  deriving DecidableEq

structure ProofPoints where
  a : G1Affine
  b : G2Affine
  c : G1Affine
  deriving DecidableEq

/-- The arguments of `submit_vote`; 32 bytes are given as the number they spell. -/
structure Submission where
  voter : Address
  nullifier : U256
  voteCommitment : U256
  proof : ProofPoints
  vk : VerificationKey
  deriving DecidableEq

structure Storage where
  vk : Option U256
  nullifierRoot : Option U256
  totalVotes : Option Nat
  voterCnt : Option Nat
  status : Option MarketStatus
  result : Option VoteResult
  usedNullifiers : Option Bool
  deriving DecidableEq

namespace Storage

def empty : Storage where
  vk := none
  nullifierRoot := none
  totalVotes := none
  voterCnt := none
  status := none
  result := none
  usedNullifiers := none

def getStatus (s : Storage) : MarketStatus := s.status.getD .opened

def getTotalVotes (s : Storage) : Nat := s.totalVotes.getD 0

def getVoterCnt (s : Storage) : Nat := s.voterCnt.getD 0

def used (s : Storage) : Bool := s.usedNullifiers.getD false

end Storage

abbrev Contract := Host Storage Panic

def require (cond : Bool) (e : Panic) : Contract Unit := if cond then pure () else Host.fail e

/-- `vk_x` and the `for` loop that adds the public inputs to it. -/
def accumulate (K : Bn254Crypto) : G1Affine → List Fr → List G1Affine → Option G1Affine
  | vkX, s :: inputs, v :: ic => do
      let prod ← K.g1Mul v s
      accumulate K (← K.g1Add vkX prod) inputs ic
  | vkX, _, _ => some vkX

/-- Nothing where a host function traps. -/
def verifyGroth16 (K : Bn254Crypto) (proof : ProofPoints) (publicInputs : List Fr) (vk : VerificationKey) :
    Option (Except ProofError Bool) :=
  match vk.ic with
  | [] => some (.error .malformedProof)
  | first :: rest =>
      if publicInputs.length + 1 ≠ vk.ic.length then some (.error .malformedProof)
      else do
        let vkX ← accumulate K first publicInputs rest
        let negA ← K.g1Neg proof.a
        let valid ← K.pairingCheck [negA, vk.alpha, vkX, proof.c] [proof.b, vk.beta, vk.gamma, vk.delta]
        return if valid then .ok true else .error .invalidProof

/-- `initialize`. -/
def initializeMarket (vk nullifierRoot : U256) : Contract Unit :=
  Host.update fun s =>
    { s with vk := some vk, nullifierRoot := some nullifierRoot, totalVotes := some 0, voterCnt := some 0,
             status := some .opened }

/-- The public inputs `submit_vote` builds. The nullifier root it loads is not among them. -/
def voteInputs (vote : Submission) : List Fr := [ofU256 vote.nullifier, ofU256 vote.voteCommitment]

/-- `verify_groth16(..).expect("Invalid ZK proof")`. -/
def expectProof (verdict : Option (Except ProofError Bool)) : Contract Bool :=
  match verdict with
  | none => throw .trap
  | some (.error e) => Host.fail (.invalidZkProof e)
  | some (.ok valid) => pure valid

/-- `n + 1` on `u32`, which panics on overflow. -/
def increment (n : Nat) : Contract Nat := if n + 1 < 2 ^ 32 then pure (n + 1) else throw .trap

def submitVote (K : Bn254Crypto) (vote : Submission) : Contract Bool := do
  require ((← Host.storage).getStatus = .opened) .marketNotOpen
  require (!(← Host.storage).used) .nullifierAlreadyUsed
  let _ ← expectProof (verifyGroth16 K vote.proof (voteInputs vote) vote.vk)
  Host.update fun s => { s with usedNullifiers := some true }
  let total ← increment (← Host.storage).getTotalVotes
  Host.update fun s => { s with totalVotes := some total }
  let cnt ← increment (← Host.storage).getVoterCnt
  Host.update fun s => { s with voterCnt := some cnt }
  return true

/-- `minority` of `resolve`: the lesser count. -/
def minority (votesYes votesNo : BitVec 32) : Nat :=
  if votesYes.toNat < votesNo.toNat then votesYes.toNat else votesNo.toNat

def resolve (votesYes votesNo totalVoters minorityThreshold : BitVec 32) : Contract VoteResult := do
  require ((← Host.storage).getStatus = .opened) .marketNotOpen
  let minority := minority votesYes votesNo
  if 2 ^ 32 ≤ minority * 100 then throw .trap
  let pct := minority * 100 / max totalVoters.toNat 1
  let result : VoteResult :=
    { votesYes := votesYes, votesNo := votesNo, totalVoters := totalVoters,
      minorityWins := minorityThreshold.toNat ≤ pct }
  Host.update fun s => { s with result := some result }
  Host.update fun s => { s with status := some .resolved }
  return result

def closeMarket : Contract Unit := Host.update fun s => { s with status := some .closed }

/-- The entry points that change the storage; none of them asks for an authorization. -/
inductive Call where
  | initializeMarket (vk nullifierRoot : U256)
  | submitVote (vote : Submission)
  | closeMarket
  | resolve (votesYes votesNo totalVoters minorityThreshold : BitVec 32)
  deriving DecidableEq

def Call.program (K : Bn254Crypto) : Call → Contract Unit
  | .initializeMarket vk nullifierRoot => Spm.initializeMarket vk nullifierRoot
  | .submitVote vote => do let _ ← Spm.submitVote K vote
  | .closeMarket => Spm.closeMarket
  | .resolve votesYes votesNo totalVoters minorityThreshold => do
      let _ ← Spm.resolve votesYes votesNo totalVoters minorityThreshold

/-- The calls of a run that returned, the latest last, and the storage they left. -/
structure Progress where
  storage : Storage
  done : List Call

namespace Progress

def fresh : Progress := { storage := Storage.empty, done := [] }

/-- The environment of an invocation. The contract asks for no Poseidon2 hash. -/
def env (p : Progress) : Env Storage := { storage := p.storage, hashed := [] }

def advance (K : Bn254Crypto) (p : Progress) (call : Call) : Progress :=
  match (call.program K).run p.env with
  | .ok (_, next) => { storage := next.storage, done := p.done ++ [call] }
  | .error _ => p

end Progress

def run (K : Bn254Crypto) (calls : List Call) : Progress := calls.foldl (Progress.advance K) Progress.fresh

theorem run_concat (K : Bn254Crypto) (calls : List Call) (call : Call) :
    run K (calls ++ [call]) = (run K calls).advance K call := by
  unfold run
  rw [List.foldl_append]
  rfl

def Valid (K : Bn254Crypto) (vote : Submission) : Prop :=
  verifyGroth16 K vote.proof (voteInputs vote) vote.vk = some (.ok true)

instance (K : Bn254Crypto) (vote : Submission) : Decidable (Valid K vote) :=
  inferInstanceAs (Decidable (_ = _))

def Accepts (K : Bn254Crypto) (s : Storage) : Call → Prop
  | .initializeMarket _ _ => True
  | .submitVote vote =>
      s.getStatus = .opened ∧ s.used = false ∧ Valid K vote ∧ s.getTotalVotes + 1 < 2 ^ 32 ∧
        s.getVoterCnt + 1 < 2 ^ 32
  | .closeMarket => True
  | .resolve votesYes votesNo _ _ => s.getStatus = .opened ∧ minority votesYes votesNo * 100 < 2 ^ 32

def Storage.after (s : Storage) : Call → Storage
  | .initializeMarket vk nullifierRoot =>
      { s with vk := some vk, nullifierRoot := some nullifierRoot, totalVotes := some 0, voterCnt := some 0,
               status := some .opened }
  | .submitVote _ =>
      { s with usedNullifiers := some true, totalVotes := some (s.getTotalVotes + 1),
               voterCnt := some (s.getVoterCnt + 1) }
  | .closeMarket => { s with status := some .closed }
  | .resolve votesYes votesNo totalVoters minorityThreshold =>
      { s with
        result := some { votesYes := votesYes, votesNo := votesNo, totalVoters := totalVoters,
                         minorityWins := minorityThreshold.toNat ≤
                           minority votesYes votesNo * 100 / max totalVoters.toNat 1 }
        status := some .resolved }

section Calls

variable {K : Bn254Crypto} {env : Env Storage} {vote : Submission}

theorem run_require {cond : Bool} {e : Panic} :
    (require cond e).run env = if cond then .ok ((), env) else .error (.error e) := by
  cases cond <;> rfl

theorem run_increment {n : Nat} :
    (increment n).run env = if n + 1 < 2 ^ 32 then .ok (n + 1, env) else .error .trap := by
  unfold increment
  split <;> rfl

theorem verifyGroth16_ok {proof : ProofPoints} {inputs : List Fr} {vk : VerificationKey} {valid : Bool}
    (verdict : verifyGroth16 K proof inputs vk = some (.ok valid)) : valid = true := by
  unfold verifyGroth16 at verdict
  split at verdict
  next => cases verdict
  next =>
    split at verdict
    next => cases verdict
    next =>
      simp only [Option.bind_eq_bind, Option.bind_eq_some_iff] at verdict
      obtain ⟨vkX, -, negA, -, check, -, last⟩ := verdict
      cases check with
      | false => cases last
      | true =>
        cases last
        rfl

theorem run_submitVote_closed (closed : env.storage.getStatus ≠ .opened) :
    (submitVote K vote).run env = .error (.error .marketNotOpen) := by
  simp only [submitVote, StateT.run_bind, Host.run_storage, Library.ok_bind, run_require, closed, decide_false,
    Bool.false_eq_true, if_false, Library.error_bind]

theorem run_submitVote_used (opened : env.storage.getStatus = .opened) (used : env.storage.used = true) :
    (submitVote K vote).run env = .error (.error .nullifierAlreadyUsed) := by
  simp only [submitVote, StateT.run_bind, Host.run_storage, Library.ok_bind, run_require, opened, decide_true,
    if_true, used, Bool.not_true, Bool.false_eq_true, if_false, Library.error_bind]

theorem run_submitVote_unused (K : Bn254Crypto) (vote : Submission) (opened : env.storage.getStatus = .opened)
    (unused : env.storage.used = false) :
    (submitVote K vote).run env =
      match verifyGroth16 K vote.proof (voteInputs vote) vote.vk with
      | none => .error .trap
      | some (.error e) => .error (.error (.invalidZkProof e))
      | some (.ok _) =>
          if env.storage.getTotalVotes + 1 < 2 ^ 32 ∧ env.storage.getVoterCnt + 1 < 2 ^ 32 then
            .ok (true, env.update (·.after (.submitVote vote)))
          else .error .trap := by
  simp only [submitVote, StateT.run_bind, Host.run_storage, Library.ok_bind, run_require, opened, decide_true,
    if_true, unused, Bool.not_false]
  cases verifyGroth16 K vote.proof (voteInputs vote) vote.vk with
  | none => rfl
  | some verdict =>
    cases verdict with
    | error e => rfl
    | ok valid =>
      simp only [expectProof, Host.run_pure, Library.ok_bind, Host.run_update, run_increment,
        Env.storage_update, Storage.getTotalVotes, Storage.getVoterCnt]
      by_cases total : env.storage.totalVotes.getD 0 + 1 < 2 ^ 32
      · by_cases cnt : env.storage.voterCnt.getD 0 + 1 < 2 ^ 32
        · simp only [total, cnt, and_self, if_true, Library.ok_bind, Env.storage_update]
          rfl
        · simp only [total, cnt, and_false, if_true, if_false, Library.ok_bind, Library.error_bind, Env.storage_update]
      · simp only [total, false_and, if_false, Library.error_bind]

theorem run_program_ok (env : Env Storage) {call : Call} (accepts : Accepts K env.storage call) :
    (call.program K).run env = .ok ((), env.update (·.after call)) := by
  cases call with
  | initializeMarket vk nullifierRoot => rfl
  | submitVote vote =>
    obtain ⟨opened, unused, valid, counters⟩ := accepts
    have ran := run_submitVote_unused K vote opened unused
    rw [show verifyGroth16 K vote.proof (voteInputs vote) vote.vk = some (.ok true) from valid,
      if_pos counters] at ran
    rw [Call.program, Host.run_bind_ok ran]
    rfl
  | closeMarket => rfl
  | resolve votesYes votesNo totalVoters minorityThreshold =>
    obtain ⟨opened, fits⟩ := accepts
    simp only [Call.program, resolve, StateT.run_bind, Host.run_storage, Library.ok_bind, run_require, opened,
      decide_true, if_true]
    rw [if_neg (Nat.not_le.mpr fits)]
    rfl

theorem run_program_error (env : Env Storage) {call : Call} (refuses : ¬Accepts K env.storage call) :
    ∃ f, (call.program K).run env = .error f := by
  cases call with
  | initializeMarket vk nullifierRoot => exact absurd trivial refuses
  | submitVote vote =>
    by_cases opened : env.storage.getStatus = .opened
    · cases used : env.storage.used with
      | true => exact ⟨_, Host.run_bind_error (run_submitVote_used opened used)⟩
      | false =>
        have ran := run_submitVote_unused K vote opened used
        cases verdict : verifyGroth16 K vote.proof (voteInputs vote) vote.vk with
        | none =>
          rw [verdict] at ran
          exact ⟨_, Host.run_bind_error ran⟩
        | some answer =>
          rw [verdict] at ran
          cases answer with
          | error e => exact ⟨_, Host.run_bind_error ran⟩
          | ok valid =>
            have valid : Valid K vote := by rw [Valid, verdict, verifyGroth16_ok verdict]
            have full : ¬(env.storage.getTotalVotes + 1 < 2 ^ 32 ∧ env.storage.getVoterCnt + 1 < 2 ^ 32) :=
              fun counters => refuses ⟨opened, used, valid, counters⟩
            rw [if_neg full] at ran
            exact ⟨_, Host.run_bind_error ran⟩
    · exact ⟨_, Host.run_bind_error (run_submitVote_closed opened)⟩
  | closeMarket => exact absurd trivial refuses
  | resolve votesYes votesNo totalVoters minorityThreshold =>
    simp only [Call.program, resolve, StateT.run_bind, Host.run_storage, Library.ok_bind, run_require]
    by_cases opened : env.storage.getStatus = .opened
    · have large : 2 ^ 32 ≤ minority votesYes votesNo * 100 := by
        rw [← Nat.not_lt]
        exact fun fits => refuses ⟨opened, fits⟩
      simp only [opened, decide_true, if_true, Library.ok_bind]
      rw [if_pos large]
      exact ⟨.trap, rfl⟩
    · simp only [opened, decide_false, Bool.false_eq_true, if_false]
      exact ⟨_, rfl⟩

end Calls

theorem advance_accepted {K : Bn254Crypto} {p : Progress} {call : Call} (accepts : Accepts K p.storage call) :
    p.advance K call = { storage := p.storage.after call, done := p.done ++ [call] } := by
  unfold Progress.advance
  rw [run_program_ok p.env accepts]
  rfl

theorem advance_refused {K : Bn254Crypto} {p : Progress} {call : Call} (refuses : ¬Accepts K p.storage call) :
    p.advance K call = p := by
  obtain ⟨f, aborted⟩ := run_program_error p.env refuses
  unfold Progress.advance
  rw [aborted]

end PrivatePayments.Spm
