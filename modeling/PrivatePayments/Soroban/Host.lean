import PrivatePayments.Library.Outcome
import PrivatePayments.Poseidon2.Hasher

/-!
The Soroban host as one contract sees it. An invocation runs on the contract's
storage and either returns or aborts; an aborted invocation leaves no trace.
The environment also records the Poseidon2 queries made so far, so that "the
values in play" of a run is the log at its end.
-/

namespace PrivatePayments.Soroban
open Bn254 Poseidon2

structure Address where
  id : Nat
  deriving DecidableEq

/-- Why an invocation aborts: an error of the contract, or a host trap
(a `panic!` or a missing authorization). -/
inductive Failure (ε : Type) where
  | error (e : ε)
  | trap
  deriving DecidableEq

structure Env (σ : Type) where
  storage : σ
  hashed : List Query

def Env.logged {σ : Type} (env : Env σ) (q : Query) : Env σ := { env with hashed := q :: env.hashed }

@[simp] theorem Env.storage_logged {σ : Type} (env : Env σ) (q : Query) :
    (env.logged q).storage = env.storage := rfl

@[simp] theorem Env.hashed_logged {σ : Type} (env : Env σ) (q : Query) :
    (env.logged q).hashed = q :: env.hashed := rfl

def Env.update {σ : Type} (env : Env σ) (f : σ → σ) : Env σ := { env with storage := f env.storage }

@[simp] theorem Env.storage_update {σ : Type} (env : Env σ) (f : σ → σ) :
    (env.update f).storage = f env.storage := rfl

@[simp] theorem Env.hashed_update {σ : Type} (env : Env σ) (f : σ → σ) :
    (env.update f).hashed = env.hashed := rfl

abbrev Host (σ ε : Type) := StateT (Env σ) (Except (Failure ε))

variable {σ ε α β : Type}

namespace Host

def fail (e : ε) : Host σ ε α := throw (.error e)

/-- `x.ok_or(e)?`. -/
def okOr (x : Option α) (e : ε) : Host σ ε α :=
  match x with
  | some a => pure a
  | none => fail e

/-- `x?` of a function that only reads. -/
def lift (x : Except ε α) : Host σ ε α :=
  match x with
  | .ok a => pure a
  | .error e => fail e

/-- `require_auth`; `auths` are the addresses that authorized the invocation. -/
def requireAuth (auths : List Address) (a : Address) : Host σ ε Unit :=
  if a ∈ auths then pure () else throw .trap

def storage : Host σ ε σ := return (← get).storage

def update (f : σ → σ) : Host σ ε Unit := modify (·.update f)

def query (H : Hasher) (q : Query) : Host σ ε U256 := do
  modify (·.logged q)
  return toU256 (H.answer q)

/-- `poseidon2_compress`, which panics outside the field range. -/
def poseidon2Compress (H : Hasher) (left right : U256) : Host σ ε U256 :=
  if bn256Modulus ≤ left.toNat ∨ bn256Modulus ≤ right.toNat then throw .trap
  else query H (.compress (ofU256 left) (ofU256 right))

/-- `poseidon2_hash2` with the domain separation given. -/
def poseidon2Hash2 (H : Hasher) (a b sep : U256) : Host σ ε U256 :=
  if bn256Modulus ≤ a.toNat ∨ bn256Modulus ≤ b.toNat ∨ bn256Modulus ≤ sep.toNat then throw .trap
  else query H (.hash2 (ofU256 a) (ofU256 b) (ofU256 sep))

/-- `for i in (0..n).rev()` over loop variables `α`. -/
def forDown (body : Nat → α → Host σ ε α) : Nat → α → Host σ ε α
  | 0, vars => pure vars
  | n + 1, vars => do forDown body n (← body n vars)

/-- `for i in first..first + n` over loop variables `α`. -/
def forUp (body : Nat → α → Host σ ε α) : Nat → Nat → α → Host σ ε α
  | 0, _, vars => pure vars
  | n + 1, first, vars => do forUp body n (first + 1) (← body first vars)

/-- A program over a part of the storage, with its own errors. -/
def zoom {τ δ : Type} (get : σ → τ) (set : τ → σ → σ) (onError : δ → ε) (program : Host τ δ α) :
    Host σ ε α := fun env =>
  match program.run { storage := get env.storage, hashed := env.hashed } with
  | .ok (a, next) => .ok (a, { storage := set next.storage env.storage, hashed := next.hashed })
  | .error (.error e) => .error (.error (onError e))
  | .error .trap => .error .trap

def invoke (program : Host σ ε α) (env : Env σ) : Env σ :=
  match program.run env with
  | .ok (_, next) => next
  | .error _ => env

def value? (program : Host σ ε α) (env : Env σ) : Option α :=
  match program.run env with
  | .ok (a, _) => some a
  | .error _ => none

def Succeeds (program : Host σ ε α) (env : Env σ) : Prop :=
  ∃ a next, program.run env = .ok (a, next)

theorem run_bind_ok {program : Host σ ε α} {rest : α → Host σ ε β} {env env' : Env σ} {a : α}
    (first : program.run env = .ok (a, env')) :
    (program >>= rest).run env = (rest a).run env' := by
  rw [StateT.run_bind, first, Library.ok_bind]

theorem run_bind_error {program : Host σ ε α} {rest : α → Host σ ε β} {env : Env σ} {f : Failure ε}
    (first : program.run env = .error f) : (program >>= rest).run env = .error f := by
  rw [StateT.run_bind, first, Library.error_bind]

@[simp] theorem run_pure (a : α) (env : Env σ) :
    (pure a : Host σ ε α).run env = .ok (a, env) := rfl

@[simp] theorem run_fail (e : ε) (env : Env σ) :
    (fail e : Host σ ε α).run env = .error (.error e) := rfl

@[simp] theorem run_okOr_some (a : α) (e : ε) (env : Env σ) :
    (okOr (some a) e : Host σ ε α).run env = .ok (a, env) := rfl

@[simp] theorem run_okOr_none (e : ε) (env : Env σ) :
    (okOr none e : Host σ ε α).run env = .error (.error e) := rfl

@[simp] theorem run_lift_ok (a : α) (env : Env σ) :
    (lift (.ok a) : Host σ ε α).run env = .ok (a, env) := rfl

@[simp] theorem run_lift_error (e : ε) (env : Env σ) :
    (lift (.error e) : Host σ ε α).run env = .error (.error e) := rfl

@[simp] theorem run_storage (env : Env σ) :
    (storage : Host σ ε σ).run env = .ok (env.storage, env) := rfl

@[simp] theorem run_update (f : σ → σ) (env : Env σ) :
    (update f : Host σ ε Unit).run env = .ok ((), env.update f) := rfl

theorem run_requireAuth_ok {auths : List Address} {a : Address} (member : a ∈ auths) (env : Env σ) :
    (requireAuth auths a : Host σ ε Unit).run env = .ok ((), env) := by
  rw [requireAuth, if_pos member]
  rfl

theorem run_requireAuth_trap {auths : List Address} {a : Address} (absent : a ∉ auths) (env : Env σ) :
    (requireAuth auths a : Host σ ε Unit).run env = .error .trap := by
  rw [requireAuth, if_neg absent]
  rfl

theorem run_query (H : Hasher) (q : Query) (env : Env σ) :
    (query H q : Host σ ε U256).run env = .ok (toU256 (H.answer q), env.logged q) := rfl

@[simp] theorem run_poseidon2Compress (H : Hasher) (left right : Fr) (env : Env σ) :
    (poseidon2Compress H (toU256 left) (toU256 right) : Host σ ε U256).run env =
      .ok (toU256 (H.compress left right), env.logged (.compress left right)) := by
  have small (x : Fr) := Nat.not_le.mpr (canonical_toU256 x)
  rw [poseidon2Compress, if_neg (by simp only [small, or_self, not_false_eq_true])]
  simp only [ofU256_toU256, run_query, answer_compress]

@[simp] theorem run_poseidon2Hash2 (H : Hasher) (a b sep : Fr) (env : Env σ) :
    (poseidon2Hash2 H (toU256 a) (toU256 b) (toU256 sep) : Host σ ε U256).run env =
      .ok (toU256 (H.hash2 a b sep), env.logged (.hash2 a b sep)) := by
  have small (x : Fr) := Nat.not_le.mpr (canonical_toU256 x)
  rw [poseidon2Hash2, if_neg (by simp only [small, or_self, not_false_eq_true])]
  simp only [ofU256_toU256, run_query, answer_hash2]

/-- The invariant rule of a downward loop that never aborts. -/
theorem run_forDown {body : Nat → α → Host σ ε α} {Inv : Nat → α → Env σ → Prop} {n : Nat} {vars : α}
    {env : Env σ} (start : Inv n vars env)
    (step : ∀ i, i < n → ∀ vars env, Inv (i + 1) vars env →
      ∃ vars' env', (body i vars).run env = .ok (vars', env') ∧ Inv i vars' env') :
    ∃ vars' env', (forDown body n vars).run env = .ok (vars', env') ∧ Inv 0 vars' env' := by
  induction n generalizing vars env with
  | zero => exact ⟨vars, env, rfl, start⟩
  | succ n ih =>
    obtain ⟨vars', env', turn, inv⟩ := step n (by omega) vars env start
    rw [forDown, run_bind_ok turn]
    exact ih inv (fun i below => step i (by omega))

/-- The invariant rule of an upward loop that never aborts. -/
theorem run_forUp (Inv : Nat → α → Env σ → Prop) {body : Nat → α → Host σ ε α} {n first : Nat}
    {vars : α} {env : Env σ} (start : Inv first vars env)
    (step : ∀ i, first ≤ i → i < first + n → ∀ vars env, Inv i vars env →
      ∃ vars' env', (body i vars).run env = .ok (vars', env') ∧ Inv (i + 1) vars' env') :
    ∃ vars' env', (forUp body n first vars).run env = .ok (vars', env') ∧
      Inv (first + n) vars' env' := by
  induction n generalizing first vars env with
  | zero => exact ⟨vars, env, rfl, start⟩
  | succ n ih =>
    obtain ⟨vars', env', turn, inv⟩ := step first (Nat.le_refl _) (by omega) vars env start
    obtain ⟨vars'', env'', rest, last⟩ :=
      ih inv (fun i low high => step i (by omega) (by omega))
    rw [Nat.add_assoc, Nat.add_comm 1 n] at last
    refine ⟨vars'', env'', ?_, last⟩
    rw [forUp, run_bind_ok turn]
    exact rest

section Zoom

variable {τ δ : Type} {get : σ → τ} {set : τ → σ → σ} {onError : δ → ε} {program : Host τ δ α}
  {env : Env σ}

theorem run_zoom_ok {a : α} {next : Env τ}
    (inner : program.run { storage := get env.storage, hashed := env.hashed } = .ok (a, next)) :
    (zoom get set onError program).run env =
      .ok (a, { storage := set next.storage env.storage, hashed := next.hashed }) := by
  change zoom get set onError program env = _
  rw [zoom, inner]

theorem run_zoom_trap
    (inner : program.run { storage := get env.storage, hashed := env.hashed } = .error .trap) :
    (zoom get set onError program).run env = .error .trap := by
  change zoom get set onError program env = _
  rw [zoom, inner]

end Zoom

theorem invoke_ok {program : Host σ ε α} {env next : Env σ} {a : α}
    (run : program.run env = .ok (a, next)) : invoke program env = next := by
  rw [invoke, run]

theorem invoke_failed {program : Host σ ε α} {env : Env σ} (failed : ¬Succeeds program env) :
    invoke program env = env := by
  unfold invoke
  split
  next a next run => exact absurd ⟨a, next, run⟩ failed
  next => rfl

theorem value?_eq_some {program : Host σ ε α} {env : Env σ} {a : α} :
    value? program env = some a ↔ ∃ next, program.run env = .ok (a, next) := by
  unfold value?
  split
  next b next run => simp [run]
  next f run => simp [run]

theorem succeeds_of_ok {program : Host σ ε α} {env next : Env σ} {a : α}
    (run : program.run env = .ok (a, next)) : Succeeds program env := ⟨a, next, run⟩

theorem not_succeeds_of_error {program : Host σ ε α} {env : Env σ} {f : Failure ε}
    (run : program.run env = .error f) : ¬Succeeds program env := by
  rintro ⟨a, next, ok⟩
  rw [run] at ok
  cases ok

theorem isOk_iff_succeeds {program : Host σ ε α} {env : Env σ} :
    (program.run env).isOk = true ↔ Succeeds program env := by
  unfold Succeeds
  cases program.run env with
  | error f => exact ⟨fun ok => (by cases ok), fun ⟨a, next, ok⟩ => (by cases ok)⟩
  | ok result => exact ⟨fun _ => ⟨result.1, result.2, rfl⟩, fun _ => rfl⟩

instance (program : Host σ ε α) (env : Env σ) : Decidable (Succeeds program env) :=
  decidable_of_iff _ isOk_iff_succeeds

end Host

end PrivatePayments.Soroban
