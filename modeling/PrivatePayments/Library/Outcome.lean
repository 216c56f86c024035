/-!
Fallible computations, taken apart where they returned; and those whose errors all have one
explanation: a computation ends well or the explanation holds. The rules follow the way such
computations are composed.
-/

namespace PrivatePayments.Library

section Compositions

variable {ε α β : Type} {x : Except ε α}

@[simp] theorem ok_bind (a : α) (f : α → Except ε β) : (Except.ok a >>= f) = f a := rfl

@[simp] theorem error_bind (e : ε) (f : α → Except ε β) : (Except.error e >>= f) = .error e := rfl

theorem bind_of_ok {a : α} (done : x = .ok a) (f : α → Except ε β) : (x >>= f) = f a := by
  rw [done, ok_bind]

theorem bind_ok_iff {f : α → Except ε β} {b : β} : (x >>= f) = .ok b ↔ ∃ a, x = .ok a ∧ f a = .ok b := by
  constructor
  · intro done
    cases x with
    | ok a => exact ⟨a, rfl, done⟩
    | error e => cases done
  · rintro ⟨a, first, second⟩
    rw [bind_of_ok first, second]

theorem of_bind_ok {f : α → Except ε β} {b : β} (done : (x >>= f) = .ok b) : ∃ a, x = .ok a ∧ f a = .ok b :=
  bind_ok_iff.mp done

theorem of_map_ok {f : α → β} {b : β} (done : (f <$> x) = .ok b) : ∃ a, x = .ok a ∧ f a = b := by
  cases x with
  | ok a => exact ⟨a, rfl, Except.ok.inj done⟩
  | error e => cases done

end Compositions

/-- The result satisfies `post`, or the computation failed and `blocked` holds. -/
def Ends {ε α : Type} (blocked : Prop) (x : Except ε α) (post : α → Prop) : Prop :=
  match x with
  | .ok a => post a
  | .error _ => blocked

namespace Ends

variable {ε α β σ : Type} {blocked : Prop} {x : Except ε α} {post : α → Prop}

@[simp] theorem ok_iff {a : α} : Ends blocked (Except.ok a : Except ε α) post ↔ post a := Iff.rfl

@[simp] theorem error_iff {e : ε} : Ends blocked (Except.error e : Except ε α) post ↔ blocked := Iff.rfl

theorem ret {a : α} (holds : post a) : Ends blocked (pure a : Except ε α) post := holds

theorem mono (ends : Ends blocked x post) {weaker : α → Prop} (step : ∀ a, post a → weaker a) :
    Ends blocked x weaker := by
  cases x with
  | ok a => exact step a ends
  | error e => exact ends

theorem bind (ends : Ends blocked x post) {f : α → Except ε β} {next : β → Prop}
    (step : ∀ a, post a → Ends blocked (f a) next) : Ends blocked (x >>= f) next := by
  cases x with
  | ok a => exact step a ends
  | error e => exact ends

theorem returns (ends : Ends blocked x post) (free : ¬blocked) : ∃ a, x = .ok a ∧ post a := by
  cases x with
  | ok a => exact ⟨a, rfl, ends⟩
  | error e => exact absurd ends free

/-- A loop over a list, with an invariant that knows what is done. -/
theorem foldlM {f : σ → α → Except ε σ} (invariant : List α → σ → Prop) {items : List α} {s : σ}
    (start : invariant [] s)
    (step : ∀ done item rest s, items = done ++ item :: rest → invariant done s →
      Ends blocked (f s item) (invariant (done ++ [item]))) :
    Ends blocked (items.foldlM f s) (invariant items) := by
  have walk (rest done : List α) (s : σ) (split : items = done ++ rest) (holds : invariant done s) :
      Ends blocked (rest.foldlM f s) (invariant items) := by
    induction rest generalizing done s with
    | nil =>
      rw [List.append_nil] at split
      rw [split]
      exact holds
    | cons item rest ih =>
      rw [List.foldlM_cons]
      refine (step done item rest s split holds).bind fun next after => ?_
      exact ih (done ++ [item]) next (by rw [split, List.append_assoc]; rfl) after
  exact walk items [] s rfl start

end Ends

end PrivatePayments.Library
