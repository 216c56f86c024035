import Mathlib.Algebra.BigOperators.Group.Finset.Basic
import Mathlib.Algebra.BigOperators.Group.List.Basic
import Mathlib.Algebra.GroupWithZero.Nat
import Mathlib.Algebra.Order.Group.Int
import Mathlib.Algebra.Ring.Int.Defs
import Mathlib.Data.List.GetD
import PrivatePayments.Library.Run

/-!
A ledger of notes. Transactions spend notes by their positions, append new ones and bring an
amount in from outside or take it out; what is not spent adds up to what came in.
-/

namespace PrivatePayments.Library

/-- The amounts of all notes, in the order they were made, and the positions that are spent. -/
structure NoteLedger where
  notes : List Nat
  spent : List Nat

namespace NoteLedger

structure Transaction where
  inputs : List Nat
  outputs : List Nat
  external : Int

def empty : NoteLedger := { notes := [], spent := [] }

def amountAt (L : NoteLedger) (position : Nat) : Nat := L.notes.getD position 0

/-- What may be asked of the ledger: existing notes, none of them spent, and a balance. -/
structure Accepts (L : NoteLedger) (t : Transaction) : Prop where
  exist : ∀ p ∈ t.inputs, p < L.notes.length
  distinct : t.inputs.Nodup
  unspent : ∀ p ∈ t.inputs, p ∉ L.spent
  balanced : ((t.inputs.map L.amountAt).sum : Int) + t.external = t.outputs.sum

def apply (L : NoteLedger) (t : Transaction) : NoteLedger where
  notes := L.notes ++ t.outputs
  spent := L.spent ++ t.inputs

def unspentTotal (L : NoteLedger) : Nat :=
  ∑ p ∈ (Finset.range L.notes.length).filter (· ∉ L.spent), L.amountAt p

/-- Every spent position holds a note and is spent once. -/
structure WellFormed (L : NoteLedger) : Prop where
  exist : ∀ p ∈ L.spent, p < L.notes.length
  distinct : L.spent.Nodup

variable {L : NoteLedger} {t : Transaction}

theorem wellFormed_empty : empty.WellFormed := ⟨fun _ none => absurd none List.not_mem_nil, List.nodup_nil⟩

@[simp] theorem unspentTotal_empty : empty.unspentTotal = 0 := rfl

theorem WellFormed.apply (formed : L.WellFormed) (accepts : L.Accepts t) : (L.apply t).WellFormed where
  exist p member := by
    change p < (L.notes ++ t.outputs).length
    rw [List.length_append]
    rcases List.mem_append.mp member with old | new
    · exact Nat.lt_add_right _ (formed.exist p old)
    · exact Nat.lt_add_right _ (accepts.exist p new)
  distinct := by
    apply List.nodup_append.mpr
    exact ⟨formed.distinct, accepts.distinct, fun p old q new same => accepts.unspent q new (same ▸ old)⟩

theorem sum_amountAt_range (notes : List Nat) : ∑ p ∈ Finset.range notes.length, notes.getD p 0 = notes.sum := by
  induction notes with
  | nil => rfl
  | cons a notes ih =>
    rw [List.length_cons, Finset.sum_range_succ', List.sum_cons, Nat.add_comm]
    congr 1

theorem WellFormed.unspentTotal_add (formed : L.WellFormed) :
    L.unspentTotal + (L.spent.map L.amountAt).sum = L.notes.sum := by
  have spent : (Finset.range L.notes.length).filter (· ∈ L.spent) = L.spent.toFinset := by
    ext p
    rw [Finset.mem_filter, Finset.mem_range, List.mem_toFinset, and_iff_right_iff_imp]
    exact formed.exist p
  calc L.unspentTotal + (L.spent.map L.amountAt).sum
      = L.unspentTotal + ∑ p ∈ (Finset.range L.notes.length).filter (· ∈ L.spent), L.amountAt p := by
        rw [spent, List.sum_toFinset _ formed.distinct]
    _ = ∑ p ∈ Finset.range L.notes.length, L.amountAt p := by
        rw [Nat.add_comm, unspentTotal, Finset.sum_filter_add_sum_filter_not]
    _ = L.notes.sum := sum_amountAt_range L.notes

theorem amountAt_apply {p : Nat} (low : p < L.notes.length) : (L.apply t).amountAt p = L.amountAt p :=
  List.getD_append L.notes t.outputs 0 p low

theorem WellFormed.unspentTotal_apply (formed : L.WellFormed) (accepts : L.Accepts t) :
    ((L.apply t).unspentTotal : Int) = L.unspentTotal + t.external := by
  have before := formed.unspentTotal_add
  have after := (formed.apply accepts).unspentTotal_add
  have kept : L.spent.map (L.apply t).amountAt = L.spent.map L.amountAt :=
    List.map_congr_left fun p member => amountAt_apply (formed.exist p member)
  have taken : t.inputs.map (L.apply t).amountAt = t.inputs.map L.amountAt :=
    List.map_congr_left fun p member => amountAt_apply (accepts.exist p member)
  have spent : ((L.apply t).spent.map (L.apply t).amountAt).sum =
      (L.spent.map L.amountAt).sum + (t.inputs.map L.amountAt).sum := by
    change ((L.spent ++ t.inputs).map (L.apply t).amountAt).sum = _
    rw [List.map_append, List.sum_append, kept, taken]
  have notes : (L.apply t).notes.sum = L.notes.sum + t.outputs.sum := List.sum_append
  have balanced := accepts.balanced
  omega

/-- A history whose transactions the ledger accepts, each after the ones before it. -/
abbrev Legal (history : List Transaction) : Prop := Along NoteLedger.apply Accepts .empty history

def after (history : List Transaction) : NoteLedger := history.foldl NoteLedger.apply .empty

theorem after_concat (history : List Transaction) (t : Transaction) :
    after (history ++ [t]) = (after history).apply t := by
  rw [after, List.foldl_append]
  rfl

theorem Legal.concat {history : List Transaction} (legal : Legal history) (accepts : (after history).Accepts t) :
    Legal (history ++ [t]) :=
  Along.append.mpr ⟨legal, accepts, trivial⟩

theorem Legal.init {history : List Transaction} (legal : Legal (history ++ [t])) :
    Legal history ∧ (after history).Accepts t := by
  obtain ⟨first, last⟩ := Along.append.mp legal
  exact ⟨first, last.1⟩

theorem Legal.wellFormed {history : List Transaction} (legal : Legal history) : (after history).WellFormed :=
  legal.invariant (fun _ _ formed accepts => formed.apply accepts) wellFormed_empty

/-- What is not spent adds up to what came in. -/
theorem Legal.unspentTotal {history : List Transaction} (legal : Legal history) :
    ((after history).unspentTotal : Int) = (history.map (·.external)).sum := by
  induction history using List.reverseRecOn with
  | nil => rfl
  | append_singleton history t ih =>
    obtain ⟨before, accepts⟩ := legal.init
    rw [after_concat, before.wellFormed.unspentTotal_apply accepts, ih before, List.map_append, List.sum_append,
      List.map_singleton, List.sum_singleton]

end NoteLedger

end PrivatePayments.Library
