import PrivatePayments.Soroban.Triple

/-!
Total correctness of host programs: where an invocation does return, and what holds after it.
-/

namespace PrivatePayments.Soroban
open Bn254

variable {σ ε α β : Type}

namespace Host

/-- Started where `P` holds, the program returns, and only where `Q` does. -/
def Returns (P : Env σ → Prop) (program : Host σ ε α) (Q : α → Env σ → Prop) : Prop :=
  ∀ env, P env → ∃ a next, program.run env = .ok (a, next) ∧ Q a next

namespace Returns

variable {P : Env σ → Prop} {Q : α → Env σ → Prop} {R : β → Env σ → Prop}

theorem succeeds {program : Host σ ε α} (returns : Returns P program Q) {env : Env σ} (holds : P env) :
    Succeeds program env := by
  obtain ⟨a, next, run, -⟩ := returns env holds
  exact ⟨a, next, run⟩

/-- Partial correctness is made total by the runs that return. -/
theorem of_triple {program : Host σ ε α} (triple : Triple P program Q) (runs : ∀ env, P env → Succeeds program env) :
    Returns P program Q := by
  intro env holds
  obtain ⟨a, next, run⟩ := runs env holds
  exact ⟨a, next, run, triple env holds a next run⟩

theorem consequence {P' : Env σ → Prop} {Q' : α → Env σ → Prop} {program : Host σ ε α}
    (returns : Returns P program Q) (pre : ∀ env, P' env → P env) (post : ∀ a env, Q a env → Q' a env) :
    Returns P' program Q' := by
  intro env holds
  obtain ⟨a, next, run, after⟩ := returns env (pre env holds)
  exact ⟨a, next, run, post a next after⟩

theorem bind {program : Host σ ε α} {rest : α → Host σ ε β} (first : Returns P program Q)
    (second : ∀ a, Returns (Q a) (rest a) R) : Returns P (program >>= rest) R := by
  intro env holds
  obtain ⟨a, middle, run, between⟩ := first env holds
  obtain ⟨b, next, after, last⟩ := second a middle between
  exact ⟨b, next, (run_bind_ok run).trans after, last⟩

theorem pure {a : α} (holds : ∀ env, P env → Q a env) : Returns P (Pure.pure a : Host σ ε α) Q :=
  fun env start => ⟨a, env, rfl, holds env start⟩

theorem okOr {a : α} {x : Option α} {e : ε} (found : x = some a) (holds : ∀ env, P env → Q a env) :
    Returns P (Host.okOr x e : Host σ ε α) Q := by
  rw [found]
  exact pure holds

theorem requireAuth {auths : List Address} {a : Address} {Q : Unit → Env σ → Prop} (member : a ∈ auths)
    (holds : ∀ env, P env → Q () env) : Returns P (Host.requireAuth auths a : Host σ ε Unit) Q := by
  rw [Host.requireAuth, if_pos member]
  exact pure holds

theorem storage {Q : σ → Env σ → Prop} (holds : ∀ env, P env → Q env.storage env) :
    Returns P (Host.storage : Host σ ε σ) Q := fun env start => ⟨env.storage, env, rfl, holds env start⟩

theorem update {f : σ → σ} {Q : Unit → Env σ → Prop} (holds : ∀ env, P env → Q () (env.update f)) :
    Returns P (Host.update f : Host σ ε Unit) Q := fun env start => ⟨(), env.update f, rfl, holds env start⟩

theorem ite {c : Prop} [Decidable c] {x y : Host σ ε α} (positive : c → Returns P x Q)
    (negative : ¬c → Returns P y Q) : Returns P (if c then x else y) Q := by
  split
  next holds => exact positive holds
  next fails => exact negative fails

/-- `if c { return Err(e); }` that is passed. -/
theorem guard {c : Prop} [Decidable c] {e : ε} {rest : Unit → Host σ ε α} (passes : ¬c)
    (returns : Returns P (rest ()) Q) : Returns P (if c then Host.fail e >>= rest else rest ()) Q := by
  rw [if_neg passes]
  exact returns

theorem zoom {τ δ : Type} {get : σ → τ} {set : τ → σ → σ} {onError : δ → ε} {program : Host τ δ α}
    (holds : ∀ env, P env → ∃ a next,
      program.run { storage := get env.storage, hashed := env.hashed } = .ok (a, next) ∧
        Q a { storage := set next.storage env.storage, hashed := next.hashed }) :
    Returns P (Host.zoom get set onError program) Q := by
  intro env start
  obtain ⟨a, next, run, after⟩ := holds env start
  exact ⟨a, _, run_zoom_ok run, after⟩

end Returns

end Host

end PrivatePayments.Soroban
