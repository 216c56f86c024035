import PrivatePayments.Witness.Flatten

/-!
The plain recursive reading of JSON inputs as writes of scalars under keys, and the loops of
the flattening as that recursion with the fields of nested objects from the last to the first.
-/

namespace PrivatePayments.Witness
open Bn254 Library.WorkStack

/-- An integer of absolute value below the modulus as a field element: a negative one as the modulus
minus its absolute value. -/
def fieldElement (i : Int) : Option Int :=
  if |i| < bn256Modulus then some (if i < 0 then bn256Modulus - |i| else i) else none

mutual

def Value.isPure : Value → Bool
  | .array items => isPureAll items
  | .object _ => false
  | .null => true
  | .bool _ => true
  | .number _ => true
  | .string _ => true

def isPureAll : List Value → Bool
  | [] => true
  | v :: vs => v.isPure && isPureAll vs

end

mutual

def Value.scalars : Value → List Value
  | .array items => scalarsAll items
  | .object fields => [.object fields]
  | .null => [.null]
  | .bool b => [.bool b]
  | .number n => [.number n]
  | .string s => [.string s]

def scalarsAll : List Value → List Value
  | [] => []
  | v :: vs => v.scalars ++ scalarsAll vs

end

abbrev Write := String × Value

mutual

/-- The writes of a value: an array without objects under one key, an array with objects under indexed keys,
an object under dotted keys. In an object the writes of the fields are arranged by `turn`. -/
def expand (turn : List (List Write) → List (List Write)) (key : String) : Value → List Write
  | .array items =>
    if isPureAll items then (scalarsAll items).map fun v => (key, v) else expandItems turn key 0 items
  | .object fields => (turn (expandFields turn key fields)).flatten
  | .null => [(key, .null)]
  | .bool b => [(key, .bool b)]
  | .number n => [(key, .number n)]
  | .string s => [(key, .string s)]

def expandItems (turn : List (List Write) → List (List Write)) (key : String) : Nat → List Value → List Write
  | _, [] => []
  | idx, v :: vs => expand turn (indexedKey key idx) v ++ expandItems turn key (idx + 1) vs

def expandFields (turn : List (List Write) → List (List Write)) (key : String) :
    List (String × Value) → List (List Write)
  | [] => []
  | (field, v) :: fields => expand turn (nestedKey key field) v :: expandFields turn key fields

end

theorem isPureAll_eq (items : List Value) : isPureAll items = items.all Value.isPure := by
  induction items with
  | nil => rfl
  | cons v vs ih => rw [isPureAll, ih, List.all_cons]

theorem scalarsAll_eq (items : List Value) : scalarsAll items = items.flatMap Value.scalars := by
  induction items with
  | nil => rfl
  | cons v vs ih => rw [scalarsAll, ih, List.flatMap_cons]

theorem expandItems_eq (turn : List (List Write) → List (List Write)) (key : String) (idx : Nat)
    (items : List Value) : expandItems turn key idx items =
      (items.zipIdx idx).flatMap fun item => expand turn (indexedKey key item.2) item.1 := by
  induction items generalizing idx with
  | nil => rfl
  | cons v vs ih => rw [expandItems, ih, List.zipIdx_cons, List.flatMap_cons]

theorem expandFields_eq (turn : List (List Write) → List (List Write)) (key : String)
    (fields : List (String × Value)) : expandFields turn key fields =
      fields.map fun field => expand turn (nestedKey key field.1) field.2 := by
  induction fields with
  | nil => rfl
  | cons field fields ih =>
    obtain ⟨name, v⟩ := field
    rw [expandFields, ih, List.map_cons]

example : expand id "k" (.object [("a", .bool true), ("b", .array [.null, .bool false])]) =
    [("k.a", .bool true), ("k.b", .null), ("k.b", .bool false)] := rfl

section Loops

variable {σ ε α β : Type}

theorem foldlM_check {check : α → Bool} {e : ε} (s : σ) (items : List α) :
    items.foldlM (fun s a => if check a then .ok s else .error e) s =
      (if items.all check then .ok s else .error e : Except ε σ) := by
  induction items with
  | nil => rfl
  | cons a items ih =>
    rw [List.foldlM_cons, List.all_cons]
    cases check a with
    | false => rfl
    | true => exact ih

theorem foldlM_flatMap {f : α → List β} {step : σ → β → Except ε σ} (items : List α) (s : σ) :
    (items.flatMap f).foldlM step s = items.foldlM (fun s a => (f a).foldlM step s) s := by
  induction items generalizing s with
  | nil => rfl
  | cons a items ih =>
    rw [List.flatMap_cons, List.foldlM_append, List.foldlM_cons]
    exact congrArg _ (funext fun s => ih s)

theorem isPureArray_eq (v : Value) : isPureArray v = v.isPure := by
  have unfolds : Unfolds pureLoop fun pure v => if v.isPure then .ok pure else .error false := by
    intro v pure
    cases v with
    | array items =>
      change (if isPureAll items then Except.ok pure else .error false) = items.reverse.foldlM _ pure
      rw [foldlM_check, List.all_reverse, isPureAll_eq]
    | object fields => rfl
    | null => rfl
    | bool b => rfl
    | number n => rfl
    | string s => rfl
  rw [isPureArray, drain_eq unfolds, List.foldlM_cons]
  cases v.isPure with
  | false => rfl
  | true => rfl

variable (parseBytes : String → Nat → Option Int)

/-- One write: the arms of the loops for what is neither an array nor an object. -/
def write (inputs : Inputs) (w : Write) : Except FlattenError Inputs :=
  match w.2 with
  | .number n => flattenNumber w.1 n inputs
  | .string s => flattenString parseBytes w.1 s inputs
  | .bool b => flattenBool w.1 b inputs
  | .null => flattenNull w.1 inputs
  | .object _ => .error (.unexpectedObject w.1)
  | .array _ => .error (.unexpectedObject w.1)

def workSpec (key : String) (inputs : Inputs) : WorkItem → Except FlattenError Inputs
  | .value v => (v.scalars.map fun v => (key, v)).foldlM (write parseBytes) inputs
  | .arrayIter arr idx =>
    if idx < arr.length then ((scalarsAll (arr.drop idx)).map fun v => (key, v)).foldlM (write parseBytes) inputs
    else .error .indexOutOfBounds

theorem write_visit (key : String) {v : Value} {inputs : Inputs} (written : Except FlattenError Inputs)
    (same : write parseBytes inputs (key, v) = written) {step : Inputs → α → Except FlattenError Inputs} :
    [(key, v)].foldlM (write parseBytes) inputs =
      (do return ([], ← written) : Except FlattenError (List α × Inputs)) >>= fun next =>
      next.1.foldlM step next.2 := by
  rw [List.foldlM_cons, same]
  cases written with
  | error e => rfl
  | ok s => rfl

theorem workItemLoop_unfolds (key : String) : Unfolds (workItemLoop parseBytes key) (workSpec parseBytes key) := by
  intro i inputs
  cases i with
  | value v =>
    cases v with
    | array arr =>
      cases arr with
      | nil => rfl
      | cons v arr =>
        change workSpec parseBytes key inputs (.arrayIter (v :: arr) 0) =
          [WorkItem.arrayIter (v :: arr) 0].foldlM _ inputs
        rw [List.foldlM_cons]
        cases workSpec parseBytes key inputs (.arrayIter (v :: arr) 0) with
        | error e => rfl
        | ok s => rfl
    | object fields => rfl
    | null => exact write_visit parseBytes key _ rfl
    | bool b => exact write_visit parseBytes key _ rfl
    | number n => exact write_visit parseBytes key _ rfl
    | string s => exact write_visit parseBytes key _ rfl
  | arrayIter arr idx =>
    change workSpec parseBytes key inputs (.arrayIter arr idx) =
      visitWorkItem parseBytes key (.arrayIter arr idx) inputs >>= _
    rw [workSpec, visitWorkItem]
    by_cases inside : idx < arr.length
    · have split : arr.drop idx = arr[idx] :: arr.drop (idx + 1) := List.drop_eq_getElem_cons inside
      rw [if_pos inside, List.getElem?_eq_getElem inside, split, scalarsAll, List.map_append, List.foldlM_append]
      change _ = (WorkItem.value arr[idx] :: _).foldlM _ inputs
      rw [List.foldlM_cons]
      refine congrArg _ (funext fun s => ?_)
      by_cases more : idx + 1 < arr.length
      · rw [if_pos more, List.foldlM_cons, workSpec, if_pos more]
        cases ((scalarsAll (arr.drop (idx + 1))).map fun v => (key, v)).foldlM (write parseBytes) s with
        | error e => rfl
        | ok s => rfl
      · rw [if_neg more, List.drop_eq_nil_of_le (by omega)]
        rfl
    · rw [if_neg inside, List.getElem?_eq_none (by omega)]
      rfl

theorem flattenPureArray_eq (key : String) (v : Value) (inputs : Inputs) :
    flattenPureArray parseBytes key v inputs = (v.scalars.map fun v => (key, v)).foldlM (write parseBytes) inputs := by
  rw [flattenPureArray, drain_eq (workItemLoop_unfolds parseBytes key), List.foldlM_cons, workSpec]
  cases (v.scalars.map fun v => (key, v)).foldlM (write parseBytes) inputs with
  | error e => rfl
  | ok s => rfl

theorem inputLoop_unfolds : Unfolds (inputLoop parseBytes) fun inputs i =>
    (expand List.reverse i.1 i.2).foldlM (write parseBytes) inputs := by
  rintro ⟨key, v⟩ inputs
  cases v with
  | array arr =>
    change (expand List.reverse key (.array arr)).foldlM (write parseBytes) inputs =
      visitInput parseBytes (key, .array arr) inputs >>= _
    rw [expand, visitInput, isPureArray_eq, Value.isPure]
    cases isPureAll arr with
    | true =>
      rw [if_pos rfl, if_pos rfl, flattenPureArray_eq, Value.scalars]
      cases ((scalarsAll arr).map fun v => (key, v)).foldlM (write parseBytes) inputs with
      | error e => rfl
      | ok s => rfl
    | false =>
      rw [if_neg (by decide), if_neg (by decide), expandItems_eq, foldlM_flatMap]
      change _ = (arr.zipIdx.map _).foldlM _ inputs
      rw [List.foldlM_map]
  | object obj =>
    change (expandFields List.reverse key obj).reverse.flatten.foldlM (write parseBytes) inputs =
      ((obj.map fun field => (nestedKey key field.1, field.2)).reverse).foldlM _ inputs
    rw [expandFields_eq, ← List.map_reverse, ← List.map_reverse, ← List.flatMap_def, foldlM_flatMap, List.foldlM_map]
  | null => exact write_visit parseBytes key _ rfl
  | bool b => exact write_visit parseBytes key _ rfl
  | number n => exact write_visit parseBytes key _ rfl
  | string s => exact write_visit parseBytes key _ rfl

/-- The loop writes what the recursion writes, with the fields of every object from the last to the first. -/
theorem flattenInput_eq (key : String) (v : Value) (inputs : Inputs) :
    flattenInput parseBytes key v inputs = (expand List.reverse key v).foldlM (write parseBytes) inputs := by
  rw [flattenInput, drain_eq (inputLoop_unfolds parseBytes), List.foldlM_cons]
  cases (expand List.reverse key v).foldlM (write parseBytes) inputs with
  | error e => rfl
  | ok s => rfl

def inputWrites (turn : List (List Write) → List (List Write)) (fields : List (String × Value)) : List Write :=
  fields.flatMap fun field => expand turn field.1 field.2

theorem inputsHashmap_eq (fields : List (String × Value)) : inputsHashmap parseBytes (.object fields) =
    (inputWrites List.reverse fields).foldlM (write parseBytes) fun _ => none := by
  rw [inputWrites, foldlM_flatMap, inputsHashmap]
  simp only [flattenInput_eq]

end Loops

end PrivatePayments.Witness
