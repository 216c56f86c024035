import PrivatePayments.Soroban.Host

/-!
Partial correctness of host programs: what holds after an invocation that returned.
Aborted invocations leave no state behind, so nothing is said of them.
-/

namespace PrivatePayments.Soroban
open Bn254 Poseidon2

variable {σ ε α β : Type}

namespace Host

/-- Started where `P` holds, the program returns only where `Q` does. -/
def Triple (P : Env σ → Prop) (program : Host σ ε α) (Q : α → Env σ → Prop) : Prop :=
  ∀ env, P env → ∀ a next, program.run env = .ok (a, next) → Q a next

theorem run_tryCatch_ok {program : Host σ ε α} (handler : Failure ε → Host σ ε α) {env : Env σ} {result : α × Env σ}
    (returned : program.run env = .ok result) : (MonadExcept.tryCatch program handler).run env = .ok result := by
  change tryCatchThe (Failure ε) (program.run env) (fun f => (handler f).run env) = _
  rw [returned]
  rfl

theorem run_tryCatch_error {program : Host σ ε α} (handler : Failure ε → Host σ ε α) {env : Env σ} {f : Failure ε}
    (failed : program.run env = .error f) :
    (MonadExcept.tryCatch program handler).run env = (handler f).run env := by
  change tryCatchThe (Failure ε) (program.run env) (fun f => (handler f).run env) = _
  rw [failed]
  rfl

namespace Triple

variable {P : Env σ → Prop} {Q : α → Env σ → Prop} {R : β → Env σ → Prop}

theorem consequence {P' : Env σ → Prop} {Q' : α → Env σ → Prop} {program : Host σ ε α}
    (triple : Triple P program Q) (pre : ∀ env, P' env → P env)
    (post : ∀ a env, Q a env → Q' a env) : Triple P' program Q' :=
  fun env holds a next run => post a next (triple env (pre env holds) a next run)

theorem bind {program : Host σ ε α} {rest : α → Host σ ε β} (first : Triple P program Q)
    (second : ∀ a, Triple (Q a) (rest a) R) : Triple P (program >>= rest) R := by
  intro env holds b last run
  rw [StateT.run_bind] at run
  cases middle : program.run env with
  | error f =>
    rw [middle] at run
    cases run
  | ok pair =>
    rw [middle] at run
    exact second pair.1 pair.2 (first env holds pair.1 pair.2 middle) b last run

theorem pure {a : α} (holds : ∀ env, P env → Q a env) :
    Triple P (Pure.pure a : Host σ ε α) Q := by
  intro env start b next run
  cases run
  exact holds env start

theorem fail (e : ε) : Triple P (Host.fail e : Host σ ε α) Q := by
  intro env _ a next run
  cases run

theorem trap : Triple P (throw .trap : Host σ ε α) Q := by
  intro env _ a next run
  cases run

theorem okOr {x : Option α} {e : ε} (holds : ∀ a, x = some a → ∀ env, P env → Q a env) :
    Triple P (Host.okOr x e : Host σ ε α) Q := by
  cases x with
  | none => exact fail e
  | some a => exact pure (holds a rfl)

theorem lift {x : Except ε α} (holds : ∀ a, x = .ok a → ∀ env, P env → Q a env) :
    Triple P (Host.lift x : Host σ ε α) Q := by
  cases x with
  | error e => exact fail e
  | ok a => exact pure (holds a rfl)

theorem requireAuth {auths : List Address} {a : Address} {Q : Unit → Env σ → Prop}
    (holds : a ∈ auths → ∀ env, P env → Q () env) :
    Triple P (Host.requireAuth auths a : Host σ ε Unit) Q := by
  by_cases member : a ∈ auths
  · rw [Host.requireAuth, if_pos member]
    exact pure (holds member)
  · rw [Host.requireAuth, if_neg member]
    exact trap

theorem storage {Q : σ → Env σ → Prop} (holds : ∀ env, P env → Q env.storage env) :
    Triple P (Host.storage : Host σ ε σ) Q := by
  intro env start s next run
  cases run
  exact holds env start

theorem update {f : σ → σ} {Q : Unit → Env σ → Prop} (holds : ∀ env, P env → Q () (env.update f)) :
    Triple P (Host.update f : Host σ ε Unit) Q := by
  intro env start u next run
  cases run
  exact holds env start

theorem ite {c : Prop} [Decidable c] {x y : Host σ ε α} (positive : c → Triple P x Q)
    (negative : ¬c → Triple P y Q) : Triple P (if c then x else y) Q := by
  split
  next holds => exact positive holds
  next fails => exact negative fails

/-- `if c { return Err(e); }` before the rest. -/
theorem guard {c : Prop} [Decidable c] {e : ε} {rest : Unit → Host σ ε α} (passed : ¬c → Triple P (rest ()) Q) :
    Triple P (if c then Host.fail e >>= rest else rest ()) Q :=
  ite (fun _ => bind (R := Q) (Q := fun _ _ => False) (fail e) fun _ _ never => never.elim) passed

theorem poseidon2Compress {H : Hasher} {left right : U256} {Q : U256 → Env σ → Prop}
    (holds : Canonical left → Canonical right → ∀ env, P env →
      Q (toU256 (H.compress (ofU256 left) (ofU256 right)))
        (env.logged (.compress (ofU256 left) (ofU256 right)))) :
    Triple P (Host.poseidon2Compress H left right : Host σ ε U256) Q := by
  apply ite
  · exact fun _ => trap
  · intro inside
    rw [not_or, Nat.not_le, Nat.not_le] at inside
    intro env start a next run
    cases run
    exact holds inside.1 inside.2 env start

theorem poseidon2Hash2 {H : Hasher} {a b sep : U256} {Q : U256 → Env σ → Prop}
    (holds : Canonical a → Canonical b → Canonical sep → ∀ env, P env →
      Q (toU256 (H.hash2 (ofU256 a) (ofU256 b) (ofU256 sep)))
        (env.logged (.hash2 (ofU256 a) (ofU256 b) (ofU256 sep)))) :
    Triple P (Host.poseidon2Hash2 H a b sep : Host σ ε U256) Q := by
  apply ite
  · exact fun _ => trap
  · intro inside
    rw [not_or, not_or, Nat.not_le, Nat.not_le, Nat.not_le] at inside
    intro env start h next run
    cases run
    exact holds inside.1 inside.2.1 inside.2.2 env start

theorem zoom {τ δ : Type} {get : σ → τ} {set : τ → σ → σ} {onError : δ → ε} {program : Host τ δ α}
    (holds : ∀ env, P env → ∀ a next, program.run { storage := get env.storage, hashed := env.hashed } = .ok (a, next) →
      Q a { storage := set next.storage env.storage, hashed := next.hashed }) :
    Triple P (Host.zoom get set onError program) Q := by
  intro env start a next run
  rw [StateT.run, Host.zoom] at run
  cases returned : program.run { storage := get env.storage, hashed := env.hashed } with
  | ok result =>
    rw [returned] at run
    cases run
    exact holds env start _ _ returned
  | error f =>
    rw [returned] at run
    cases f <;> cases run

/-- The handler starts from where the program did. -/
theorem tryCatch {program : Host σ ε α} {handler : Failure ε → Host σ ε α} (triple : Triple P program Q)
    (handled : ∀ f, Triple P (handler f) Q) : Triple P (MonadExcept.tryCatch program handler) Q := by
  intro env start a next run
  cases returned : program.run env with
  | ok result =>
    cases (run_tryCatch_ok handler returned).symm.trans run
    exact triple env start a next returned
  | error f => exact handled f env start a next ((run_tryCatch_error handler returned).symm.trans run)

/-- The invariant rule of a downward loop. -/
theorem forDown (Inv : Nat → α → Env σ → Prop) {body : Nat → α → Host σ ε α} {n : Nat} {vars : α}
    (step : ∀ i, i < n → ∀ vars, Triple (Inv (i + 1) vars) (body i vars) (Inv i)) :
    Triple (Inv n vars) (Host.forDown body n vars) (Inv 0) := by
  induction n generalizing vars with
  | zero => exact pure fun env holds => holds
  | succ n ih =>
    exact bind (step n (Nat.lt_succ_self n) vars) fun next =>
      ih (fun i below => step i (Nat.lt_succ_of_lt below))

end Triple

/-- The program preserves `I`. -/
abbrev Keeps (I : Env σ → Prop) (program : Host σ ε α) : Prop := Triple I program (fun _ => I)

/-- What a returning invocation preserves, an invocation preserves. -/
theorem Keeps.invoke {I : Env σ → Prop} {program : Host σ ε α} (keeps : Keeps I program)
    {env : Env σ} (holds : I env) : I (invoke program env) := by
  unfold Host.invoke
  split
  next a next run => exact keeps env holds a next run
  next => exact holds

section Reading

variable {I : Env σ → Prop}

theorem keeps_pure (a : α) : Keeps I (pure a : Host σ ε α) := Triple.pure fun _ holds => holds

theorem keeps_storage : Keeps I (storage : Host σ ε σ) := Triple.storage fun _ holds => holds

theorem keeps_okOr (x : Option α) (e : ε) : Keeps I (okOr x e : Host σ ε α) :=
  Triple.okOr fun _ _ _ holds => holds

theorem keeps_lift (x : Except ε α) : Keeps I (lift x : Host σ ε α) :=
  Triple.lift fun _ _ _ holds => holds

theorem keeps_requireAuth (auths : List Address) (a : Address) :
    Keeps I (requireAuth auths a : Host σ ε Unit) :=
  Triple.requireAuth fun _ _ holds => holds

theorem keeps_forDown {body : Nat → α → Host σ ε α} {n : Nat} {vars : α}
    (step : ∀ i, i < n → ∀ vars, Keeps I (body i vars)) : Keeps I (forDown body n vars) :=
  Triple.forDown (fun _ _ => I) step

end Reading

abbrev Logs (q : Query) : Env σ → Prop := fun env => q ∈ env.hashed

section Logs

variable {q : Query}

theorem logs_update (f : σ → σ) : Keeps (Logs q) (update f : Host σ ε Unit) :=
  Triple.update fun _ member => member

theorem logs_poseidon2Compress (H : Hasher) (left right : U256) :
    Keeps (Logs q) (poseidon2Compress H left right : Host σ ε U256) :=
  Triple.poseidon2Compress fun _ _ _ member => List.mem_cons_of_mem _ member

theorem logs_poseidon2Hash2 (H : Hasher) (a b sep : U256) :
    Keeps (Logs q) (poseidon2Hash2 H a b sep : Host σ ε U256) :=
  Triple.poseidon2Hash2 fun _ _ _ _ member => List.mem_cons_of_mem _ member

end Logs

end Host

end PrivatePayments.Soroban
