import PrivatePayments.Bn254
import PrivatePayments.Library.WorkStack

/-!
How the witness calculator's inputs are made of JSON: nested values are flattened to lists of
field elements under the keys of the circuit, by loops over work stacks. Parsing big integers
is the big integer library's.
-/

namespace PrivatePayments.Witness
open Bn254 Library.WorkStack

/-- `serde_json::Number`. What is no integer of 64 bits is a float for the JSON library. -/
inductive Number where
  | posInt (n : BitVec 64)
  | negInt (n : BitVec 64)
  | float (bits : BitVec 64)
  deriving DecidableEq

/-- `serde_json::Value`; the fields of an object in the order they are iterated in. -/
inductive Value where
  | null
  | bool (b : Bool)
  | number (n : Number)
  | string (s : String)
  | array (items : List Value)
  | object (fields : List (String × Value))

def Number.asU64 : Number → Option Nat
  | posInt n => some n.toNat
  | _ => none

def Number.asI64 : Number → Option Int
  | posInt n => if n.toNat < 2 ^ 63 then some n.toNat else none
  | negInt n => some n.toInt
  | float _ => none

/-- `HashMap<String, Vec<BigInt>>`. -/
abbrev Inputs := String → Option (List Int)

/-- `inputs.entry(key).or_default().push(element)`. -/
def Inputs.push (inputs : Inputs) (key : String) (element : Int) : Inputs :=
  Function.update inputs key (some ((inputs key).getD [] ++ [element]))

inductive FlattenError where
  | notAnObject
  | invalidNumber (key : String)
  | invalidBigint (key text : String)
  | unexpectedObject (key : String)
  | exceedsModulus (value : Int)
  | negativeExceedsModulus (value : Int)
  | indexOutOfBounds
  deriving DecidableEq

/-- The texts of the errors, and of the panics of the last three. -/
def FlattenError.message : FlattenError → String
  | notAnObject => "Inputs must be a JSON object"
  | invalidNumber key => s!"Invalid number for {key}"
  | invalidBigint key text => s!"Invalid bigint for {key}: {text}"
  | unexpectedObject key => s!"Unexpected object in pure array: {key}"
  | exceedsModulus value => s!"Value {value} exceeds field modulus"
  | negativeExceedsModulus value => s!"Negative value {value} exceeds field modulus"
  | indexOutOfBounds => "index out of bounds"

def toFieldElement (bi : Int) : Except FlattenError Int :=
  if bi < 0 then
    let absValue := bi * -1
    if absValue < bn256Modulus then .ok (bn256Modulus - absValue) else .error (.negativeExceedsModulus bi)
  else
    if bi < bn256Modulus then .ok bi else .error (.exceedsModulus bi)

section Flattening

variable (parseBytes : String → Nat → Option Int)

/-- The arm for numbers, of either loop. -/
def flattenNumber (key : String) (n : Number) (inputs : Inputs) : Except FlattenError Inputs :=
  match n.asU64 with
  | some i => do return inputs.push key (← toFieldElement i)
  | none =>
    match n.asI64 with
    | some i => do return inputs.push key (← toFieldElement i)
    | none => .error (.invalidNumber key)

/-- `BigInt::parse_bytes` behind an optional `0x`. -/
def parseText (s : String) : Option Int :=
  match s.toList with
  | '0' :: 'x' :: hex => parseBytes (String.ofList hex) 16
  | _ => parseBytes s 10

def flattenString (key s : String) (inputs : Inputs) : Except FlattenError Inputs :=
  match parseText parseBytes s with
  | some bi => do return inputs.push key (← toFieldElement bi)
  | none => .error (.invalidBigint key s)

def flattenBool (key : String) (b : Bool) (inputs : Inputs) : Except FlattenError Inputs :=
  .ok (inputs.push key (if b then 1 else 0))

def flattenNull (key : String) (inputs : Inputs) : Except FlattenError Inputs :=
  .ok (inputs.push key 0)

/-- A turn of `is_pure_array`; an object ends the loop. -/
def visitPure (value : Value) (pure : Bool) : Except Bool (List Value × Bool) :=
  match value with
  | .array items => .ok (items.reverse, pure)
  | .object _ => .error false
  | _ => .ok ([], pure)

theorem sum_sizeOf_le (items : List Value) : (items.map sizeOf).sum < sizeOf items := by
  induction items with
  | nil => simp
  | cons item items ih =>
    simp only [List.map_cons, List.sum_cons, List.cons.sizeOf_spec]
    omega

theorem sum_sizeOf_fields_le (fields : List (String × Value)) :
    (fields.map fun field => sizeOf field.2).sum < sizeOf fields := by
  induction fields with
  | nil => simp
  | cons field fields ih =>
    obtain ⟨name, value⟩ := field
    simp only [List.map_cons, List.sum_cons, List.cons.sizeOf_spec, Prod.mk.sizeOf_spec]
    omega

def pureLoop : Visit Value Bool Bool where
  visit := visitPure
  shrinks := by
    refine ⟨sizeOf, fun v s pushed s' visited => ?_⟩
    cases v with
    | array items =>
      cases visited
      have less := sum_sizeOf_le items
      rw [List.map_reverse, List.sum_reverse, Value.array.sizeOf_spec]
      omega
    | object fields => cases visited
    | null => cases visited; simp
    | bool b => cases visited; simp
    | number n => cases visited; simp
    | string text => cases visited; simp

def isPureArray (value : Value) : Bool := 
  match drain pureLoop [value] true with
  | .ok pure => pure
  | .error returned => returned

/-- What the loop of `flatten_pure_array` has left to do. -/
inductive WorkItem where
  | value (v : Value)
  | arrayIter (arr : List Value) (idx : Nat)

def visitWorkItem (key : String) : WorkItem → Inputs → Except FlattenError (List WorkItem × Inputs)
  | .value (.number n), inputs => do return ([], ← flattenNumber key n inputs)
  | .value (.string s), inputs => do return ([], ← flattenString parseBytes key s inputs)
  | .value (.array arr), inputs => .ok (if arr.isEmpty then [] else [.arrayIter arr 0], inputs)
  | .value (.bool b), inputs => do return ([], ← flattenBool key b inputs)
  | .value .null, inputs => do return ([], ← flattenNull key inputs)
  | .value (.object _), _ => .error (.unexpectedObject key)
  | .arrayIter arr idx, inputs =>
    let nextIdx := idx + 1
    let continuation := if nextIdx < arr.length then [WorkItem.arrayIter arr nextIdx] else []
    match arr[idx]? with
    | some v => .ok (.value v :: continuation, inputs)
    | none => .error .indexOutOfBounds

private theorem pushed_nil {α : Type} {written : Except FlattenError Inputs} {pushed : List α} {inputs : Inputs}
    (visited : (do return ([], ← written) : Except FlattenError (List α × Inputs)) = .ok (pushed, inputs)) :
    pushed = [] := by
  cases written with
  | error e => cases visited
  | ok s => cases visited; rfl

/-- The measure of the work items: what an iterator has left is a part of its array. -/
theorem visitWorkItem_shrinks (key : String) : ∃ size : WorkItem → Nat, ∀ i s pushed s',
    visitWorkItem parseBytes key i s = .ok (pushed, s') → (pushed.map size).sum < size i := by
  refine ⟨fun
    | .value v => sizeOf v
    | .arrayIter arr idx => sizeOf (arr.drop idx), fun i s pushed s' visited => ?_⟩
  cases i with
  | value v =>
    cases v with
    | array arr =>
      cases visited
      cases arr with
      | nil => simp
      | cons v arr => simp
    | object fields => cases visited
    | null => rw [pushed_nil visited]; simp
    | bool b => rw [pushed_nil visited]; simp
    | number n => rw [pushed_nil visited]; simp
    | string text => rw [pushed_nil visited]; simp
  | arrayIter arr idx =>
    simp only [visitWorkItem] at visited
    cases at_ : arr[idx]? with
    | none => rw [at_] at visited; cases visited
    | some v =>
      rw [at_] at visited
      cases visited
      obtain ⟨inside, item⟩ := List.getElem?_eq_some_iff.mp at_
      have split : arr.drop idx = v :: arr.drop (idx + 1) := by
        rw [← item]
        exact List.drop_eq_getElem_cons inside
      change _ < sizeOf (arr.drop idx)
      rw [split, List.cons.sizeOf_spec]
      split
      · simp only [List.map_cons, List.map_nil, List.sum_cons, List.sum_nil]
        omega
      · simp only [List.map_cons, List.map_nil, List.sum_cons, List.sum_nil]
        omega

def workItemLoop (key : String) : Visit WorkItem Inputs FlattenError where
  visit := visitWorkItem parseBytes key
  shrinks := visitWorkItem_shrinks parseBytes key

def flattenPureArray (key : String) (value : Value) (inputs : Inputs) : Except FlattenError Inputs :=
  drain (workItemLoop parseBytes key) [.value value] inputs

/-- `{}[{}]`. -/
def indexedKey (key : String) (idx : Nat) : String := key ++ "[" ++ toString idx ++ "]"

/-- `{}.{}`. -/
def nestedKey (key field : String) : String := key ++ "." ++ field

/-- A turn of `flatten_input`. Items of an array are pushed from the last to the first, fields of an object
from the first to the last. -/
def visitInput : String × Value → Inputs → Except FlattenError (List (String × Value) × Inputs)
  | (key, .number n), inputs => do return ([], ← flattenNumber key n inputs)
  | (key, .string s), inputs => do return ([], ← flattenString parseBytes key s inputs)
  | (key, .array arr), inputs =>
    if isPureArray (.array arr) then do return ([], ← flattenPureArray parseBytes key (.array arr) inputs)
    else .ok (arr.zipIdx.map fun item => (indexedKey key item.2, item.1), inputs)
  | (key, .object obj), inputs => .ok ((obj.map fun field => (nestedKey key field.1, field.2)).reverse, inputs)
  | (key, .bool b), inputs => do return ([], ← flattenBool key b inputs)
  | (key, .null), inputs => do return ([], ← flattenNull key inputs)

theorem visitInput_shrinks : ∃ size : String × Value → Nat, ∀ i s pushed s',
    visitInput parseBytes i s = .ok (pushed, s') → (pushed.map size).sum < size i := by
  refine ⟨fun i => sizeOf i.2, fun i s pushed s' visited => ?_⟩
  obtain ⟨key, v⟩ := i
  cases v with
  | array arr =>
    simp only [visitInput] at visited
    split at visited
    · rw [pushed_nil visited]
      simp
    · cases visited
      have less := sum_sizeOf_le arr
      change _ < sizeOf (Value.array arr)
      have items : (arr.zipIdx.map fun item => (indexedKey key item.2, item.1)).map (fun i => sizeOf i.2) =
          arr.map sizeOf := by
        rw [List.map_map]
        change arr.zipIdx.map (sizeOf ∘ Prod.fst) = _
        rw [← List.map_map, List.zipIdx_map_fst]
      rw [items, Value.array.sizeOf_spec]
      omega
  | object obj =>
    cases visited
    have less := sum_sizeOf_fields_le obj
    change _ < sizeOf (Value.object obj)
    rw [List.map_reverse, List.sum_reverse, List.map_map, Value.object.sizeOf_spec]
    change (obj.map fun field => sizeOf field.2).sum < _
    omega
  | null => rw [pushed_nil visited]; simp
  | bool b => rw [pushed_nil visited]; simp
  | number n => rw [pushed_nil visited]; simp
  | string text => rw [pushed_nil visited]; simp

def inputLoop : Visit (String × Value) Inputs FlattenError where
  visit := visitInput parseBytes
  shrinks := visitInput_shrinks parseBytes

def flattenInput (key : String) (value : Value) (inputs : Inputs) : Except FlattenError Inputs :=
  drain (inputLoop parseBytes) [(key, value)] inputs

/-- The map that `compute_witness` hands to the calculator. -/
def inputsHashmap : Value → Except FlattenError Inputs
  | .object inputsMap =>
    inputsMap.foldlM (fun inputs field => flattenInput parseBytes field.1 field.2 inputs) fun _ => none
  | _ => .error .notAnObject

end Flattening

end PrivatePayments.Witness
