import PrivatePayments.Witness.Expansion

/-!
The lists the flattening builds against the lists of the plain recursion, key by key.
-/

namespace PrivatePayments.Witness
open Bn254

variable (parseBytes : String → Nat → Option Int)

def Number.integer : Number → Option Int
  | .posInt n => some n.toNat
  | .negInt n => some n.toInt
  | .float _ => none

/-- The field element of a scalar, if it is an integer of absolute value below the modulus. -/
def Value.element : Value → Option Int
  | .number n => n.integer.bind fieldElement
  | .string s => (parseText parseBytes s).bind fieldElement
  | .bool b => some (if b then 1 else 0)
  | .null => some 0
  | .array _ => none
  | .object _ => none

theorem toFieldElement_iff {i x : Int} : toFieldElement i = .ok x ↔ fieldElement i = some x := by
  unfold toFieldElement fieldElement
  by_cases negative : i < 0
  · have abs : |i| = i * -1 := by rw [abs_of_neg negative]; omega
    simp only [if_pos negative, abs]
    split <;> simp
  · have abs : |i| = i := abs_of_nonneg (by omega)
    simp only [if_neg negative, abs]
    split <;> simp

theorem toFieldElement_error {i : Int} : (∃ e, toFieldElement i = .error e) ↔ fieldElement i = none := by
  cases run : toFieldElement i with
  | ok x => simp [toFieldElement_iff.mp run]
  | error e =>
    refine iff_of_true ⟨e, rfl⟩ (Option.eq_none_iff_forall_ne_some.mpr fun x found => ?_)
    rw [toFieldElement_iff.mpr found] at run
    cases run

/-- A write succeeds just for a scalar with a field element, and pushes it. -/
theorem write_eq (inputs : Inputs) (w : Write) :
    (∃ x, w.2.element parseBytes = some x ∧ write parseBytes inputs w = .ok (inputs.push w.1 x)) ∨
      (w.2.element parseBytes = none ∧ ∃ e, write parseBytes inputs w = .error e) := by
  have pushed (bi : Int) : (∃ x, fieldElement bi = some x ∧
      (do return inputs.push w.1 (← toFieldElement bi) : Except FlattenError Inputs) = .ok (inputs.push w.1 x)) ∨
      (fieldElement bi = none ∧
        ∃ e, (do return inputs.push w.1 (← toFieldElement bi) : Except FlattenError Inputs) = .error e) := by
    cases run : toFieldElement bi with
    | ok x => exact .inl ⟨x, toFieldElement_iff.mp run, rfl⟩
    | error e => exact .inr ⟨toFieldElement_error.mp ⟨e, run⟩, e, rfl⟩
  obtain ⟨key, v⟩ := w
  cases v with
  | null => exact .inl ⟨0, rfl, rfl⟩
  | bool b => exact .inl ⟨_, rfl, rfl⟩
  | array items => exact .inr ⟨rfl, _, rfl⟩
  | object fields => exact .inr ⟨rfl, _, rfl⟩
  | number n =>
    cases n with
    | posInt n => exact pushed n.toNat
    | negInt n => exact pushed n.toInt
    | float bits => exact .inr ⟨rfl, _, rfl⟩
  | string s =>
    change (∃ x, (parseText parseBytes s).bind fieldElement = some x ∧
      flattenString parseBytes key s inputs = .ok (inputs.push key x)) ∨
      ((parseText parseBytes s).bind fieldElement = none ∧ ∃ e, flattenString parseBytes key s inputs = .error e)
    unfold flattenString
    cases parseText parseBytes s with
    | none => exact .inr ⟨rfl, _, rfl⟩
    | some bi => exact pushed bi

def written (ws : List Write) (key : String) : List Int :=
  (ws.filter fun w => w.1 = key).filterMap fun w => w.2.element parseBytes

theorem written_cons (w : Write) (ws : List Write) (key : String) : written parseBytes (w :: ws) key =
    (if w.1 = key then (w.2.element parseBytes).toList else []) ++ written parseBytes ws key := by
  rw [written, List.filter_cons]
  by_cases same : w.1 = key
  · rw [if_pos same, if_pos (decide_eq_true same), List.filterMap_cons]
    cases w.2.element parseBytes with
    | none => rfl
    | some x => rfl
  · rw [if_neg same, if_neg (by simpa using same)]
    rfl

theorem written_append (ws ws' : List Write) (key : String) :
    written parseBytes (ws ++ ws') key = written parseBytes ws key ++ written parseBytes ws' key := by
  rw [written, List.filter_append, List.filterMap_append]
  rfl

theorem written_flatten (parts : List (List Write)) (key : String) :
    written parseBytes parts.flatten key = (parts.map fun ws => written parseBytes ws key).flatten := by
  induction parts with
  | nil => rfl
  | cons ws parts ih => rw [List.flatten_cons, written_append, ih, List.map_cons, List.flatten_cons]

def extended (old : Option (List Int)) (elements : List Int) : Option (List Int) :=
  if elements = [] then old else some (old.getD [] ++ elements)

theorem extended_append (old : Option (List Int)) (xs ys : List Int) :
    extended (extended old xs) ys = extended old (xs ++ ys) := by
  unfold extended
  by_cases noX : xs = []
  · simp [noX]
  · by_cases noY : ys = []
    · simp [noX, noY]
    · simp [noX, noY]

theorem push_apply (inputs : Inputs) (key k : String) (x : Int) :
    inputs.push k x key = extended (inputs key) (if k = key then [x] else []) := by
  unfold Inputs.push extended
  by_cases same : k = key
  · rw [same, Function.update_self, if_pos rfl, if_neg (List.cons_ne_nil _ _)]
  · rw [Function.update_of_ne (Ne.symm same), if_neg same, if_pos rfl]

/-- A run of writes: it fails at a scalar without a field element, and else extends every list. -/
theorem foldlM_write (ws : List Write) (inputs : Inputs) :
    ((∀ w ∈ ws, (w.2.element parseBytes).isSome) ∧ ∃ m, ws.foldlM (write parseBytes) inputs = .ok m ∧
      ∀ key, m key = extended (inputs key) (written parseBytes ws key)) ∨
    ((∃ w ∈ ws, w.2.element parseBytes = none) ∧ ∃ e, ws.foldlM (write parseBytes) inputs = .error e) := by
  induction ws generalizing inputs with
  | nil => exact .inl ⟨by simp, inputs, rfl, fun key => rfl⟩
  | cons w ws ih =>
    rw [List.foldlM_cons]
    rcases write_eq parseBytes inputs w with ⟨x, element, run⟩ | ⟨element, e, run⟩
    · rw [run]
      rcases ih (inputs.push w.1 x) with ⟨valid, m, rest, lists⟩ | ⟨⟨w', member, invalid⟩, e, rest⟩
      · refine .inl ⟨List.forall_mem_cons.mpr ⟨by rw [element]; rfl, valid⟩, m, rest, fun key => ?_⟩
        rw [lists key, push_apply, extended_append, written_cons, element, Option.toList_some]
      · exact .inr ⟨⟨w', List.mem_cons_of_mem w member, invalid⟩, e, rest⟩
    · rw [run]
      exact .inr ⟨⟨w, List.mem_cons_self, element⟩, e, rfl⟩

section Order

mutual

/-- The objects that are in no other object, with the keys they stand under. -/
def Value.outerObjects (key : String) : Value → List (String × List (String × Value))
  | .array items => if isPureAll items then [] else outerObjectsAll key 0 items
  | .object fields => [(key, fields)]
  | .null => []
  | .bool _ => []
  | .number _ => []
  | .string _ => []

def outerObjectsAll (key : String) : Nat → List Value → List (String × List (String × Value))
  | _, [] => []
  | idx, v :: vs => v.outerObjects (indexedKey key idx) ++ outerObjectsAll key (idx + 1) vs

end

mutual

/-- The order of the fields does not change what is written. -/
theorem expand_perm (key : String) : (v : Value) → (expand List.reverse key v).Perm (expand id key v)
  | .array items => by
    rw [expand, expand]
    split
    · exact .refl _
    · exact expandItems_perm key 0 items
  | .object fields => by
    rw [expand, expand]
    exact (List.reverse_perm _).flatten.trans (expandFields_perm key fields)
  | .null => .refl _
  | .bool _ => .refl _
  | .number _ => .refl _
  | .string _ => .refl _

theorem expandItems_perm (key : String) : (idx : Nat) → (items : List Value) →
    (expandItems List.reverse key idx items).Perm (expandItems id key idx items)
  | _, [] => .refl _
  | idx, v :: vs => (expand_perm (indexedKey key idx) v).append (expandItems_perm key (idx + 1) vs)

theorem expandFields_perm (key : String) : (fields : List (String × Value)) →
    (expandFields List.reverse key fields).flatten.Perm (expandFields id key fields).flatten
  | [] => .refl _
  | (field, v) :: fields => (expand_perm (nestedKey key field) v).append (expandFields_perm key fields)

end

theorem written_perm {ws ws' : List Write} (perm : ws.Perm ws') (key : String) :
    (written parseBytes ws key).Perm (written parseBytes ws' key) :=
  (perm.filter _).filterMap _

def Agree (ws ws' : List Write) : Prop := ∀ key, written parseBytes ws key = written parseBytes ws' key

theorem agree_append {ws ws' rest rest' : List Write} (perm : ws.Perm ws') :
    Agree parseBytes (ws ++ rest) (ws' ++ rest') ↔ Agree parseBytes ws ws' ∧ Agree parseBytes rest rest' := by
  simp only [Agree, written_append]
  constructor
  · intro same
    have parts (key : String) := List.append_inj (same key) (written_perm parseBytes perm key).length_eq
    exact ⟨fun key => (parts key).1, fun key => (parts key).2⟩
  · rintro ⟨first, second⟩ key
    rw [first key, second key]

/-- The fields of the object, from the last to the first and from the first to the last. -/
def ObjectAgrees (o : String × List (String × Value)) : Prop :=
  Agree parseBytes (expand List.reverse o.1 (.object o.2)) (expand id o.1 (.object o.2))

mutual

theorem expand_agree_iff (key : String) : (v : Value) →
    (Agree parseBytes (expand List.reverse key v) (expand id key v) ↔
      ∀ o ∈ v.outerObjects key, ObjectAgrees parseBytes o)
  | .array items => by
    rw [expand, expand, Value.outerObjects]
    split
    · exact iff_of_true (fun key => rfl) (by simp)
    · exact expandItems_agree_iff key 0 items
  | .object fields => by
    rw [Value.outerObjects, List.forall_mem_singleton]
    rfl
  | .null => iff_of_true (fun key => rfl) (by simp [Value.outerObjects])
  | .bool _ => iff_of_true (fun key => rfl) (by simp [Value.outerObjects])
  | .number _ => iff_of_true (fun key => rfl) (by simp [Value.outerObjects])
  | .string _ => iff_of_true (fun key => rfl) (by simp [Value.outerObjects])

theorem expandItems_agree_iff (key : String) : (idx : Nat) → (items : List Value) →
    (Agree parseBytes (expandItems List.reverse key idx items) (expandItems id key idx items) ↔
      ∀ o ∈ outerObjectsAll key idx items, ObjectAgrees parseBytes o)
  | _, [] => iff_of_true (fun key => rfl) (by simp [outerObjectsAll])
  | idx, v :: vs => by
    rw [expandItems, expandItems, outerObjectsAll, agree_append parseBytes (expand_perm _ v),
      expand_agree_iff (indexedKey key idx) v, expandItems_agree_iff key (idx + 1) vs]
    simp only [List.mem_append, or_imp, forall_and]

end

/-- The objects below the top level that are in no other object. -/
def nestedObjects (fields : List (String × Value)) : List (String × List (String × Value)) :=
  fields.flatMap fun field => field.2.outerObjects field.1

theorem inputWrites_perm (fields : List (String × Value)) :
    (inputWrites List.reverse fields).Perm (inputWrites id fields) := by
  induction fields with
  | nil => exact .refl _
  | cons field fields ih => exact (expand_perm field.1 field.2).append ih

theorem inputWrites_agree_iff (fields : List (String × Value)) :
    Agree parseBytes (inputWrites List.reverse fields) (inputWrites id fields) ↔
      ∀ o ∈ nestedObjects fields, ObjectAgrees parseBytes o := by
  induction fields with
  | nil => exact iff_of_true (fun key => rfl) (by simp [nestedObjects])
  | cons field fields ih =>
    rw [inputWrites, List.flatMap_cons, inputWrites, List.flatMap_cons,
      agree_append parseBytes (expand_perm field.1 field.2), expand_agree_iff, nestedObjects, List.flatMap_cons]
    simp only [List.mem_append, or_imp, forall_and]
    exact and_congr_right fun _ => ih

end Order

end PrivatePayments.Witness
