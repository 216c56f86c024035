import Mathlib.Data.List.Induction
import Mathlib.Data.Set.Function
import Mathlib.Logic.Function.Basic
import Mathlib.Tactic.Common

/-!
Content-addressed stores. An item is filed under a key computed from its content,
and a program edits the store by filing and dropping items. As long as the items
in play have distinct keys, the store can be followed as a set of items.
-/

namespace PrivatePayments.Library.ContentStore

variable {ι κ ν : Type} [DecidableEq κ]

inductive Edit (ι : Type) where
  | add (item : ι)
  | drop (item : ι)

def Edit.item : Edit ι → ι
  | .add item => item
  | .drop item => item

variable (key : ι → κ) (data : ι → ν)

def Edit.apply (store : κ → Option ν) : Edit ι → κ → Option ν
  | .add item => Function.update store (key item) (some (data item))
  | .drop item => Function.update store (key item) none

def applyAll (store : κ → Option ν) (edits : List (Edit ι)) : κ → Option ν :=
  edits.foldl (fun current edit => edit.apply key data current) store

theorem applyAll_append (store : κ → Option ν) (front back : List (Edit ι)) :
    applyAll key data store (front ++ back) = applyAll key data (applyAll key data store front) back := by
  simp [applyAll]

theorem apply_of_ne {store : κ → Option ν} {edit : Edit ι} {h : κ} (different : h ≠ key edit.item) :
    edit.apply key data store h = store h := by
  cases edit with
  | add item => exact Function.update_of_ne different _ _
  | drop item => exact Function.update_of_ne different _ _

theorem applyAll_untouched {store : κ → Option ν} {edits : List (Edit ι)} {h : κ}
    (different : ∀ edit ∈ edits, h ≠ key edit.item) : applyAll key data store edits h = store h := by
  induction edits using List.reverseRecOn with
  | nil => rfl
  | append_singleton edits edit ih =>
    rw [applyAll_append]
    have last := different edit (by simp)
    rw [show ∀ s, applyAll key data s [edit] = edit.apply key data s from fun _ => rfl,
      apply_of_ne key data last]
    exact ih (fun e member => different e (List.mem_append_left _ member))

/-- The items of the edits and `item` have pairwise distinct keys. -/
def Distinct (edits : List (Edit ι)) (item : ι) : Prop :=
  ∀ edit ∈ edits, key edit.item = key item → edit.item = item

theorem applyAll_touched {store : κ → Option ν} {edits : List (Edit ι)} {touch : Edit ι} {left : Option ν}
    (distinct : Distinct key edits touch.item) (edited : touch ∈ edits)
    (only : ∀ edit ∈ edits, edit.item = touch.item → edit = touch)
    (leaves : ∀ s, touch.apply key data s (key touch.item) = left) :
    applyAll key data store edits (key touch.item) = left := by
  induction edits using List.reverseRecOn with
  | nil => exact absurd edited List.not_mem_nil
  | append_singleton edits edit ih =>
    rw [applyAll_append]
    change edit.apply key data (applyAll key data store edits) (key touch.item) = _
    by_cases same : key edit.item = key touch.item
    · rw [only edit (by simp) (distinct edit (by simp) same)]
      exact leaves _
    · rw [apply_of_ne key data (Ne.symm same)]
      refine ih (fun e member => distinct e (List.mem_append_left _ member)) ?_
        (fun e member => only e (List.mem_append_left _ member))
      refine (List.mem_append.mp edited).resolve_right fun last => same ?_
      rw [List.mem_singleton.mp last]

theorem applyAll_added {store : κ → Option ν} {edits : List (Edit ι)} {item : ι}
    (distinct : Distinct key edits item) (added : .add item ∈ edits) (kept : .drop item ∉ edits) :
    applyAll key data store edits (key item) = some (data item) := by
  refine applyAll_touched key data (show Distinct key edits (Edit.add item).item from distinct) added
    (fun edit inEdits same => ?_)
    fun s => Function.update_self ..
  cases edit with
  | add other => exact congrArg Edit.add same
  | drop other =>
    change other = item at same
    exact absurd (same ▸ inEdits) kept

theorem applyAll_dropped {store : κ → Option ν} {edits : List (Edit ι)} {item : ι}
    (distinct : Distinct key edits item) (dropped : .drop item ∈ edits) (unset : .add item ∉ edits) :
    applyAll key data store edits (key item) = none := by
  refine applyAll_touched key data (show Distinct key edits (Edit.drop item).item from distinct) dropped
    (fun edit inEdits same => ?_)
    fun s => Function.update_self ..
  cases edit with
  | add other =>
    change other = item at same
    exact absurd (same ▸ inEdits) unset
  | drop other => exact congrArg Edit.drop same

/-- Every live item is on file. -/
def Holds (store : κ → Option ν) (live : Set ι) : Prop :=
  ∀ item ∈ live, store (key item) = some (data item)

/-- The live items are on file, and nothing else is. -/
def Exact (store : κ → Option ν) (live : Set ι) : Prop :=
  Holds key data store live ∧ ∀ h, store h ≠ none → ∃ item ∈ live, key item = h

variable {key data} {store : κ → Option ν} {edits : List (Edit ι)} {live live' inPlay : Set ι}

omit [DecidableEq κ] in
theorem Distinct.of_injOn (inj : Set.InjOn key inPlay) (touched : ∀ edit ∈ edits, edit.item ∈ inPlay)
    {item : ι} (member : item ∈ inPlay) : Distinct key edits item :=
  fun edit inEdits same => inj (touched edit inEdits) member same

theorem Holds.applyAll (holds : Holds key data store live) (inj : Set.InjOn key inPlay)
    (touched : ∀ edit ∈ edits, edit.item ∈ inPlay) (within : live' ⊆ inPlay)
    (source : ∀ item ∈ live', .add item ∈ edits ∨ item ∈ live)
    (kept : ∀ item ∈ live', .drop item ∉ edits) :
    Holds key data (applyAll key data store edits) live' := by
  intro item member
  have distinct := Distinct.of_injOn inj touched (within member)
  by_cases added : .add item ∈ edits
  · exact applyAll_added key data distinct added (kept item member)
  · rw [applyAll_untouched key data, holds item ((source item member).resolve_left added)]
    intro edit inEdits same
    have equal := distinct edit inEdits same.symm
    cases edit with
    | add other =>
      change other = item at equal
      exact added (equal ▸ inEdits)
    | drop other =>
      change other = item at equal
      exact kept item member (equal ▸ inEdits)

theorem Exact.applyAll (whole : Exact key data store live) (inj : Set.InjOn key inPlay)
    (touched : ∀ edit ∈ edits, edit.item ∈ inPlay) (within : live' ⊆ inPlay)
    (source : ∀ item ∈ live', .add item ∈ edits ∨ item ∈ live)
    (kept : ∀ item ∈ live', .drop item ∉ edits)
    (filed : ∀ item, .add item ∈ edits → item ∈ live')
    (retired : ∀ item ∈ live, item ∉ live' → .drop item ∈ edits) :
    Exact key data (applyAll key data store edits) live' := by
  refine ⟨whole.1.applyAll inj touched within source kept, ?_⟩
  intro h present
  by_cases some_edit : ∃ edit ∈ edits, key edit.item = h
  · obtain ⟨edit, inEdits, rfl⟩ := some_edit
    have distinct := Distinct.of_injOn inj touched (touched edit inEdits)
    by_cases added : .add edit.item ∈ edits
    · exact ⟨edit.item, filed _ added, rfl⟩
    · cases edit with
      | add item => exact absurd inEdits added
      | drop item => exact absurd (applyAll_dropped key data distinct inEdits added) present
  · push Not at some_edit
    rw [applyAll_untouched key data (fun edit inEdits => (some_edit edit inEdits).symm)] at present
    obtain ⟨item, member, rfl⟩ := whole.2 h present
    refine ⟨item, ?_, rfl⟩
    by_contra gone
    exact some_edit _ (retired item member gone) rfl

end PrivatePayments.Library.ContentStore
