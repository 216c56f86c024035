import Mathlib.Algebra.Order.BigOperators.Group.List
import Mathlib.Algebra.Order.Ring.Nat
import Mathlib.Data.List.Sort

/-!
The sum of the largest elements of a list: no choice of as many elements sums to more, and
it grows with the number of elements.
-/

namespace PrivatePayments.Library

def largestSum (k : Nat) (values : List Nat) : Nat :=
  ((values.mergeSort fun a b => decide (b ≤ a)).take k).sum

section Descending

variable {α : Type} {weight : α → Nat}

abbrev Descending (weight : α → Nat) (xs : List α) : Prop := xs.Pairwise fun a b => weight b ≤ weight a

abbrev total (weight : α → Nat) (xs : List α) : Nat := (xs.map weight).sum

theorem total_append (weight : α → Nat) (xs ys : List α) :
    total weight (xs ++ ys) = total weight xs + total weight ys := by
  rw [total, List.map_append, List.sum_append]

theorem total_perm (weight : α → Nat) {xs ys : List α} (perm : xs.Perm ys) : total weight xs = total weight ys :=
  (perm.map weight).sum_eq

theorem total_sublist (weight : α → Nat) {xs ys : List α} (sub : xs.Sublist ys) : total weight xs ≤ total weight ys :=
  (sub.map weight).sum_le_sum fun _ _ => Nat.zero_le _

theorem total_take_succ_le {xs : List α} {bound : Nat} (below : ∀ x ∈ xs, weight x ≤ bound) (k : Nat) :
    total weight (xs.take (k + 1)) ≤ bound + total weight (xs.take k) := by
  rw [List.take_add_one, total_append, Nat.add_comm]
  refine Nat.add_le_add_right ?_ _
  cases here : xs[k]? with
  | none => exact Nat.zero_le _
  | some x =>
    have member : x ∈ xs := List.mem_of_getElem? here
    simpa [total] using below x member

theorem total_sublist_le_take {xs picks : List α} (sub : picks.Sublist xs) (desc : Descending weight xs) :
    total weight picks ≤ total weight (xs.take picks.length) := by
  induction sub with
  | slnil => exact le_refl _
  | @cons picks xs x sub ih =>
    obtain ⟨first, rest⟩ := List.pairwise_cons.mp desc
    cases picks with
    | nil => exact Nat.zero_le _
    | cons pick picks =>
      calc total weight (pick :: picks)
          ≤ total weight (xs.take (picks.length + 1)) := ih rest
        _ ≤ weight x + total weight (xs.take picks.length) := total_take_succ_le first _
        _ = total weight ((x :: xs).take (pick :: picks).length) := rfl
  | @cons_cons picks xs x sub ih =>
    have rest := (List.pairwise_cons.mp desc).2
    calc total weight (x :: picks) = weight x + total weight picks := rfl
      _ ≤ weight x + total weight (xs.take picks.length) := Nat.add_le_add_left (ih rest) _
      _ = total weight ((x :: xs).take (x :: picks).length) := rfl

theorem total_take_mono (weight : α → Nat) (xs : List α) {k l : Nat} (le : k ≤ l) :
    total weight (xs.take k) ≤ total weight (xs.take l) :=
  total_sublist weight (List.take_sublist_take_left le)

theorem descending_mergeSort (weight : α → Nat) (xs : List α) :
    Descending weight (xs.mergeSort fun a b => decide (weight b ≤ weight a)) := by
  have sorted : (xs.mergeSort fun a b => decide (weight b ≤ weight a)).Pairwise
      (fun a b => decide (weight b ≤ weight a) = true) := by
    apply List.pairwise_mergeSort
    · intro a b c first second
      rw [decide_eq_true_eq] at *
      exact second.trans first
    · intro a b
      simpa only [Bool.or_eq_true, decide_eq_true_eq] using Nat.le_total (weight b) (weight a)
  exact sorted.imp of_decide_eq_true

/-- Any order from the largest to the smallest gives the same sum. -/
theorem largestSum_eq {xs ys : List α} (perm : xs.Perm ys) (desc : Descending weight xs) (k : Nat) :
    largestSum k (ys.map weight) = total weight (xs.take k) := by
  have same : (ys.map weight).mergeSort (fun a b => decide (b ≤ a)) = xs.map weight := by
    have one_order : ∀ a b : Nat, a ∈ (ys.map weight).mergeSort (fun a b => decide (b ≤ a)) → b ∈ xs.map weight →
        b ≤ a → a ≤ b → a = b := fun a b _ _ first second => Nat.le_antisymm second first
    refine List.Perm.eq_of_pairwise one_order (descending_mergeSort id (ys.map weight)) (List.pairwise_map.mpr desc) ?_
    exact (List.mergeSort_perm _ _).trans (perm.map weight).symm
  rw [largestSum, same, total, List.map_take]

theorem total_le_largestSum (weight : α → Nat) {picks xs : List α} (sub : picks.Subperm xs) :
    total weight picks ≤ largestSum picks.length (xs.map weight) := by
  have perm := List.mergeSort_perm xs fun a b => decide (weight b ≤ weight a)
  obtain ⟨inOrder, same, within⟩ := sub.trans perm.symm.subperm
  rw [largestSum_eq perm (descending_mergeSort weight xs), ← total_perm weight same, ← same.length_eq]
  exact total_sublist_le_take within (descending_mergeSort weight xs)

theorem largestSum_mono (values : List Nat) {k l : Nat} (le : k ≤ l) : largestSum k values ≤ largestSum l values :=
  (List.take_sublist_take_left le).sum_le_sum fun _ _ => Nat.zero_le _

theorem largestSum_le (k : Nat) (values : List Nat) : largestSum k values ≤ values.sum := by
  rw [largestSum, ← (List.mergeSort_perm values fun a b => decide (b ≤ a)).sum_eq]
  exact (List.take_sublist k _).sum_le_sum fun _ _ => Nat.zero_le _

end Descending

end PrivatePayments.Library
