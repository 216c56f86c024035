import Mathlib.Data.List.Basic
import Mathlib.Data.Nat.ModEq
import Mathlib.Logic.Function.Basic
import Mathlib.Tactic.Common

/-!
A ring of slots that is written one slot after the other and keeps the most recent
items: the item number `j` goes to the slot `j % capacity`.
-/

namespace PrivatePayments.Library.RingBuffer

variable {α : Type} {capacity : Nat} {items : List α} {slots : Nat → Option α}

/-- The slots after the items have been written in order. -/
structure Ring (capacity : Nat) (items : List α) (slots : Nat → Option α) : Prop where
  recent : ∀ j, j < items.length → items.length ≤ j + capacity → slots (j % capacity) = items[j]?
  fresh : ∀ i, items.length ≤ i → i < capacity → slots i = none

theorem ring_singleton (capacity : Nat) (item : α) :
    Ring capacity [item] (Function.update (fun _ => none) 0 (some item)) where
  recent j low _ := by
    have zero : j = 0 := by simpa using low
    subst zero
    rw [Nat.zero_mod, Function.update_self]
    rfl
  fresh i high _ := by
    have apart : i ≠ 0 := by
      rintro rfl
      simp at high
    simp [apart]

theorem Ring.push (ring : Ring capacity items slots) (item : α) :
    Ring capacity (items ++ [item])
      (Function.update slots (items.length % capacity) (some item)) where
  recent j low near := by
    rw [List.length_append, List.length_singleton] at low near
    by_cases last : j = items.length
    · subst last
      simp
    · have apart : j % capacity ≠ items.length % capacity := by
        intro same
        obtain ⟨turns, gap⟩ : capacity ∣ items.length - j := (Nat.modEq_iff_dvd' (by omega)).mp same
        have none : turns = 0 := by
          by_contra some
          have one : capacity * 1 ≤ capacity * turns := Nat.mul_le_mul_left _ (by omega)
          omega
        rw [none] at gap
        omega
      rw [Function.update_of_ne apart, ring.recent j (by omega) (by omega),
        List.getElem?_append_left (by omega)]
  fresh i high low := by
    rw [List.length_append, List.length_singleton] at high
    have apart : i ≠ items.length % capacity := by
      rw [Nat.mod_eq_of_lt (by omega)]
      omega
    rw [Function.update_of_ne apart]
    exact ring.fresh i (by omega) low

/-- What the slots hold is what was written most recently. -/
theorem Ring.mem_iff (ring : Ring capacity items slots) (item : α) :
    (∃ i, i < capacity ∧ slots i = some item) ↔ item ∈ items.reverse.take capacity := by
  constructor
  · rintro ⟨i, low, holds⟩
    -- the last item that went to the slot
    have written : i < items.length := by
      by_contra beyond
      rw [ring.fresh i (by omega) low] at holds
      cases holds
    have turns := Nat.div_add_mod (items.length - 1 - i) capacity
    have rest := Nat.mod_lt (items.length - 1 - i) (show 0 < capacity by omega)
    have slot : (i + capacity * ((items.length - 1 - i) / capacity)) % capacity = i := by
      rw [Nat.add_mul_mod_self_left, Nat.mod_eq_of_lt low]
    have found := ring.recent (i + capacity * ((items.length - 1 - i) / capacity)) (by omega) (by omega)
    rw [slot, holds] at found
    rw [List.mem_iff_getElem?]
    refine ⟨items.length - 1 - (i + capacity * ((items.length - 1 - i) / capacity)), ?_⟩
    rw [List.getElem?_take_of_lt (by omega), List.getElem?_reverse (by omega), found]
    congr 1
    omega
  · intro member
    obtain ⟨k, found⟩ := List.mem_iff_getElem?.mp member
    have inside := (List.getElem?_eq_some_iff.mp found).1
    rw [List.length_take, List.length_reverse] at inside
    rw [List.getElem?_take_of_lt (by omega), List.getElem?_reverse (by omega)] at found
    refine ⟨(items.length - 1 - k) % capacity, Nat.mod_lt _ (by omega), ?_⟩
    rw [ring.recent _ (by omega) (by omega), found]

end PrivatePayments.Library.RingBuffer
