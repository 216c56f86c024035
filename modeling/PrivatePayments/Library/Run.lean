/-!
Runs of a state machine: a function that takes one action, a condition that every step of a
run meets, and the induction from the step to the run.
-/

namespace PrivatePayments.Library

variable {σ α : Type}

/-- Every step of the run meets the condition in the state it starts from. -/
def Along (next : σ → α → σ) (meets : σ → α → Prop) : σ → List α → Prop
  | _, [] => True
  | s, action :: actions => meets s action ∧ Along next meets (next s action) actions

namespace Along

variable {next : σ → α → σ} {meets : σ → α → Prop}

theorem and {also : σ → α → Prop} {actions : List α} {s : σ} (first : Along next meets s actions)
    (second : Along next also s actions) : Along next (fun s action => meets s action ∧ also s action) s actions := by
  induction actions generalizing s with
  | nil => trivial
  | cons action actions ih => exact ⟨⟨first.1, second.1⟩, ih first.2 second.2⟩

theorem invariant {inv : σ → Prop} (step : ∀ s action, inv s → meets s action → inv (next s action))
    {actions : List α} {s : σ} (along : Along next meets s actions) (start : inv s) :
    inv (actions.foldl next s) := by
  induction actions generalizing s with
  | nil => exact start
  | cons action actions ih => exact ih along.2 (step s action start along.1)

theorem append {first second : List α} {s : σ} :
    Along next meets s (first ++ second) ↔
      Along next meets s first ∧ Along next meets (first.foldl next s) second := by
  induction first generalizing s with
  | nil => exact (and_iff_right trivial).symm
  | cons action first ih => exact (and_congr_right fun _ => ih).trans and_assoc.symm

/-- The rule where a step may use that its action is one of the run. -/
theorem invariant_mem (inv : σ → Prop) {actions : List α} {s : σ}
    (step : ∀ s, ∀ action ∈ actions, inv s → meets s action → inv (next s action))
    (along : Along next meets s actions) (start : inv s) : inv (actions.foldl next s) := by
  induction actions generalizing s with
  | nil => exact start
  | cons action actions ih =>
    refine ih (fun s action member => step s action (List.mem_cons_of_mem _ member)) along.2 ?_
    exact step s action List.mem_cons_self start along.1

end Along

end PrivatePayments.Library
