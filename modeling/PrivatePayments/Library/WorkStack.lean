import Mathlib.Algebra.GroupWithZero.Nat
import Mathlib.Data.List.Basic

/-!
Loops over a work stack: an item is popped and visited, and what the visit leaves to do is
pushed. Such a loop computes the recursion that its visits unfold.
-/

namespace PrivatePayments.Library.WorkStack

variable {ι σ ε : Type}

/-- A visit returns the items it pushes, the one to be popped next first, and the state behind it; what it
pushes is together smaller than the item, by some measure. -/
structure Visit (ι σ ε : Type) where
  visit : ι → σ → Except ε (List ι × σ)
  shrinks : ∃ size : ι → Nat, ∀ i s pushed s', visit i s = .ok (pushed, s') → (pushed.map size).sum < size i

/-- `while let Some(item) = stack.pop()`, the top of the stack first. -/
def drain (v : Visit ι σ ε) : List ι → σ → Except ε σ
  | [], s => .ok s
  | i :: rest, s =>
    match _visited : v.visit i s with
    | .error e => .error e
    | .ok (pushed, s') => drain v (pushed ++ rest) s'
termination_by stack => (stack.map v.shrinks.choose).sum
decreasing_by
  have less := v.shrinks.choose_spec _ _ _ _ _visited
  simp only [List.map_append, List.sum_append, List.map_cons, List.sum_cons]
  omega

def Unfolds (v : Visit ι σ ε) (spec : σ → ι → Except ε σ) : Prop :=
  ∀ i s, spec s i = v.visit i s >>= fun next => next.1.foldlM spec next.2

theorem drain_eq {v : Visit ι σ ε} {spec : σ → ι → Except ε σ} (unfolds : Unfolds v spec) (stack : List ι) (s : σ) :
    drain v stack s = stack.foldlM spec s := by
  induction stack, s using drain.induct v with
  | case1 s =>
    rw [drain]
    rfl
  | case2 i rest s e visited =>
    rw [drain, List.foldlM_cons, unfolds i s, visited]
    dsimp only
    rfl
  | case3 i rest s pushed s' visited ih =>
    rw [drain, List.foldlM_cons, unfolds i s, visited]
    dsimp only
    rw [ih, List.foldlM_append]
    rfl

end PrivatePayments.Library.WorkStack
