import Mathlib.Tactic.Linarith
import PrivatePayments.Library.HexText
import PrivatePayments.Witness.Agreement

/-!
The inputs of a circuit on their way from the builder to the witness calculator: field elements
as hexadecimal texts, the texts under the names of the signals, and the map as JSON.
-/

namespace PrivatePayments.Prover
open Bn254 Library Library.LittleEndian HexText Witness

abbrev Bytes := List UInt8

def fieldSize : Nat := 32

/-- `bytes_to_prime_field`. -/
def bytesToScalar (bytes : Bytes) : Except String Fr :=
  let got := bytes.length
  if got ≠ fieldSize then .error s!"Expected {fieldSize} bytes, got {got}" else .ok (fromLeBytes bytes : Fr)

def scalarToBytes (scalar : Fr) : Bytes := toLeBytes fieldSize scalar.val

/-- The most significant byte is written first. -/
def scalarToHex (scalar : Fr) : String := String.ofList ('0' :: 'x' :: hexText (scalarToBytes scalar).reverse)

def fieldBytesToHex (bytes : Bytes) : Except String String := do
  return scalarToHex (← bytesToScalar bytes)

def fieldToCircuitHex (field : Fr) : Except String String := fieldBytesToHex (toLeBytes 32 field.val)

def be32To0xHex (be : Bytes) : String := String.ofList ('0' :: 'x' :: hexText be)

inductive InputValue where
  | single (value : String)
  | array (values : List String)

structure CircuitInputs where
  signals : Std.TreeMap String InputValue

namespace CircuitInputs

def new : CircuitInputs := ⟨∅⟩

/-- `set_single` and `set_array`. -/
def set (circuit : CircuitInputs) (call : String × InputValue) : CircuitInputs :=
  ⟨circuit.signals.insert call.1 call.2⟩

def ofCalls (calls : List (String × InputValue)) : CircuitInputs := calls.foldl set new

end CircuitInputs

/-- An `untagged` value. -/
def InputValue.toJson : InputValue → Value
  | .single value => .string value
  | .array values => .array (values.map .string)

/-- The map is flattened into the object. -/
def CircuitInputs.toJson (circuit : CircuitInputs) : Value :=
  .object (circuit.signals.toList.map fun entry => (entry.1, entry.2.toJson))

def InputValue.texts : InputValue → List String
  | .single value => [value]
  | .array values => values

/-- `BigInt::parse_bytes` reads hexadecimal digits. -/
def ReadsHex (parseBytes : String → Nat → Option Int) : Prop :=
  ∀ digits n, digits ≠ [] → spelled digits = some n → parseBytes (String.ofList digits) 16 = some (n : Int)

def InputValue.Spells (value : InputValue) (elements : List Fr) : Prop := value.texts = elements.map scalarToHex

/-- Calls that set the elements of signals, in this order. -/
def Sets (calls : List (String × InputValue)) (signals : List (String × List Fr)) : Prop :=
  calls.map (fun call => (call.1, call.2.texts)) = signals.map fun signal => (signal.1, signal.2.map scalarToHex)

section Scalars

variable {parseBytes : String → Nat → Option Int}

theorem fromLeBytes_scalarToBytes (scalar : Fr) : fromLeBytes (scalarToBytes scalar) = scalar.val := by
  have small := ZMod.val_lt scalar
  have bound := bn256Modulus_lt
  exact fromLeBytes_toLeBytes (by rw [fieldSize]; omega)

theorem bytesToScalar_toLeBytes (field : Fr) : bytesToScalar (toLeBytes 32 field.val) = .ok field := by
  have read : fromLeBytes (toLeBytes 32 field.val) = field.val := fromLeBytes_scalarToBytes field
  rw [bytesToScalar, length_toLeBytes, if_neg (show ¬32 ≠ fieldSize from not_not.mpr rfl), read, ZMod.natCast_zmod_val]

theorem fieldToCircuitHex_eq (field : Fr) : fieldToCircuitHex field = .ok (scalarToHex field) := by
  rw [fieldToCircuitHex, fieldBytesToHex, bytesToScalar_toLeBytes]
  rfl

theorem element_scalarToHex (reads : ReadsHex parseBytes) (scalar : Fr) :
    (Value.string (scalarToHex scalar)).element parseBytes = some (scalar.val : Int) := by
  have digits : hexText (scalarToBytes scalar).reverse ≠ [] := by
    apply hexText_ne_nil
    rw [← List.length_pos_iff, List.length_reverse, scalarToBytes, length_toLeBytes]
    decide
  have parsed : parseText parseBytes (scalarToHex scalar) = some (scalar.val : Int) := by
    have number := reads _ _ digits (spelled_reverse (scalarToBytes scalar))
    rw [fromLeBytes_scalarToBytes] at number
    rw [parseText, scalarToHex, String.toList_ofList]
    exact number
  have small : (scalar.val : Int) < bn256Modulus := by exact_mod_cast ZMod.val_lt scalar
  have positive : 0 ≤ (scalar.val : Int) := Int.natCast_nonneg _
  rw [Value.element, parsed, Option.bind_some, fieldElement, if_pos (by rw [abs_of_nonneg positive]; exact small),
    if_neg (not_lt.mpr positive)]

end Scalars

section Calls

variable {calls : List (String × InputValue)} {name : String} {value : InputValue}

theorem CircuitInputs.getElem?_set (circuit : CircuitInputs) (call : String × InputValue) (name : String) :
    (circuit.set call).signals[name]? = if call.1 = name then some call.2 else circuit.signals[name]? := by
  rw [CircuitInputs.set, Std.TreeMap.getElem?_insert]
  by_cases same : call.1 = name
  · rw [if_pos same, if_pos (Std.LawfulEqCmp.compare_eq_iff_eq.mpr same)]
  · rw [if_neg same, if_neg (fun equal => same (Std.LawfulEqCmp.compare_eq_iff_eq.mp equal))]

theorem CircuitInputs.getElem?_ofCalls (distinct : (calls.map Prod.fst).Nodup) :
    (ofCalls calls).signals[name]? = some value ↔ (name, value) ∈ calls := by
  induction calls using List.reverseRecOn with
  | nil =>
    refine iff_of_false (fun found => ?_) List.not_mem_nil
    rw [ofCalls, List.foldl_nil, new, Std.TreeMap.getElem?_emptyc] at found
    cases found
  | append_singleton calls call ih =>
    rw [List.map_append, List.map_singleton, List.nodup_append] at distinct
    have last : ofCalls (calls ++ [call]) = (ofCalls calls).set call := by
      rw [ofCalls, List.foldl_append]
      rfl
    rw [last, getElem?_set, List.mem_append, List.mem_singleton]
    by_cases same : call.1 = name
    · rw [if_pos same, Option.some.injEq]
      constructor
      · rintro rfl
        exact Or.inr (Prod.ext same.symm rfl)
      · rintro (early | rfl)
        · exact absurd same.symm (distinct.2.2 name (List.mem_map_of_mem early) call.1 (List.mem_singleton.mpr rfl))
        · rfl
    · rw [if_neg same, ih distinct.1]
      exact (or_iff_left fun equal => same (congrArg Prod.fst equal).symm).symm

end Calls

section Reading

variable {parseBytes : String → Nat → Option Int}

theorem isPureAll_strings (texts : List String) : isPureAll (texts.map Value.string) = true := by
  induction texts with
  | nil => rfl
  | cons text texts ih => rw [List.map_cons, isPureAll, ih]; rfl

theorem scalarsAll_strings (texts : List String) : scalarsAll (texts.map Value.string) = texts.map Value.string := by
  induction texts with
  | nil => rfl
  | cons text texts ih => rw [List.map_cons, scalarsAll, ih]; rfl

/-- A value is written as its texts under one key. -/
theorem expand_toJson (turn : List (List Write) → List (List Write)) (key : String) (value : InputValue) :
    expand turn key value.toJson = value.texts.map fun text => (key, Value.string text) := by
  cases value with
  | single text => rfl
  | array texts =>
    change expand turn key (.array (texts.map Value.string)) = texts.map _
    rw [expand, isPureAll_strings, if_pos rfl, scalarsAll_strings, List.map_map]
    rfl

def entryWrites (entries : List (String × InputValue)) : List Write :=
  entries.flatMap fun entry => entry.2.texts.map fun text => (entry.1, Value.string text)

theorem inputWrites_toJson (turn : List (List Write) → List (List Write)) (circuit : CircuitInputs) :
    inputWrites turn (circuit.signals.toList.map fun entry => (entry.1, entry.2.toJson)) =
      entryWrites circuit.signals.toList := by
  rw [inputWrites, List.flatMap_map, entryWrites]
  exact congrArg (List.flatMap · _) (funext fun entry => expand_toJson turn entry.1 entry.2)

theorem written_texts (key : String) (texts : List String) (name : String) :
    written parseBytes (texts.map fun text => (key, Value.string text)) name =
      if key = name then texts.filterMap fun text => (Value.string text).element parseBytes else [] := by
  induction texts with
  | nil => exact (ite_self _).symm
  | cons text texts ih =>
    rw [List.map_cons, written_cons, ih]
    by_cases same : key = name
    · simp only [if_pos same, List.filterMap_cons]
      cases (Value.string text).element parseBytes with
      | none => rfl
      | some element => rfl
    · simp only [if_neg same]
      rfl

theorem written_entryWrites (reads : ReadsHex parseBytes) {entries : List (String × InputValue)}
    (distinct : entries.Pairwise fun a b => a.1 ≠ b.1) {name : String} {value : InputValue}
    (member : (name, value) ∈ entries) {elements : List Fr} (spells : value.Spells elements) :
    written parseBytes (entryWrites entries) name = elements.map fun x => (x.val : Int) := by
  have absent (rest : List (String × InputValue)) (other : ∀ entry ∈ rest, name ≠ entry.1) :
      written parseBytes (entryWrites rest) name = [] := by
    induction rest with
    | nil => rfl
    | cons entry rest ih =>
      rw [List.forall_mem_cons] at other
      rw [entryWrites, List.flatMap_cons, written_append, written_texts, if_neg (Ne.symm other.1)]
      exact ih other.2
  induction entries with
  | nil => exact absurd member List.not_mem_nil
  | cons entry rest ih =>
    rw [List.pairwise_cons] at distinct
    rw [entryWrites, List.flatMap_cons, written_append, written_texts]
    rcases List.mem_cons.mp member with rfl | later
    · rw [if_pos rfl]
      change _ ++ written parseBytes (entryWrites rest) name = _
      rw [absent rest distinct.1, List.append_nil, spells, List.filterMap_map]
      have values : (fun text => (Value.string text).element parseBytes) ∘ scalarToHex =
          fun x : Fr => some (x.val : Int) := by
        funext x
        rw [Function.comp_apply, element_scalarToHex reads]
      rw [values]
      exact congrFun (List.filterMap_eq_map (f := fun x : Fr => (x.val : Int))) elements
    · rw [if_neg (distinct.1 _ later)]
      exact ih distinct.2 later

/-- The calculator reads a map of texts of field elements without an error, and finds the elements of every
signal under its name. -/
theorem CircuitInputs.inputsHashmap_eq (reads : ReadsHex parseBytes) (circuit : CircuitInputs)
    (spelt : ∀ (name : String) (value : InputValue), circuit.signals[name]? = some value →
      ∃ elements, value.Spells elements) :
    ∃ m, inputsHashmap parseBytes circuit.toJson = .ok m ∧
      ∀ (name : String) (value : InputValue) (elements : List Fr), circuit.signals[name]? = some value →
        value.Spells elements → elements ≠ [] →
        m name = some (elements.map fun x => (x.val : Int)) := by
  rw [CircuitInputs.toJson, Witness.inputsHashmap_eq, inputWrites_toJson]
  rcases foldlM_write parseBytes (entryWrites circuit.signals.toList) fun _ => none with
    ⟨-, m, run, lists⟩ | ⟨⟨w, member, invalid⟩, -⟩
  · refine ⟨m, run, fun name value elements found spells some_ => ?_⟩
    have distinct : circuit.signals.toList.Pairwise fun a b => a.1 ≠ b.1 :=
      circuit.signals.distinct_keys_toList.imp fun apart same => apart (Std.LawfulEqCmp.compare_eq_iff_eq.mpr same)
    have inList := Std.TreeMap.mem_toList_iff_getElem?_eq_some.mpr found
    rw [lists name, written_entryWrites reads distinct inList spells, extended,
      if_neg (fun empty => some_ (List.map_eq_nil_iff.mp empty))]
    rfl
  · obtain ⟨entry, inList, written_⟩ := List.mem_flatMap.mp member
    obtain ⟨text, inTexts, rfl⟩ := List.mem_map.mp written_
    obtain ⟨elements, spells⟩ := spelt entry.1 entry.2 (Std.TreeMap.mem_toList_iff_getElem?_eq_some.mp inList)
    rw [spells] at inTexts
    obtain ⟨x, -, rfl⟩ := List.mem_map.mp inTexts
    rw [element_scalarToHex reads x] at invalid
    cases invalid

/-- The calculator finds the elements of every signal that is set, if no name is set twice. -/
theorem CircuitInputs.reads_ofCalls (reads : ReadsHex parseBytes) {calls : List (String × InputValue)}
    {signals : List (String × List Fr)} (sets : Sets calls signals) (distinct : (signals.map Prod.fst).Nodup) :
    ∃ m, inputsHashmap parseBytes (ofCalls calls).toJson = .ok m ∧
      ∀ (name : String) (elements : List Fr), (name, elements) ∈ signals → elements ≠ [] →
        m name = some (elements.map fun x => (x.val : Int)) := by
  have names : calls.map Prod.fst = signals.map Prod.fst := by
    have firsts := congrArg (List.map Prod.fst) sets
    rw [List.map_map, List.map_map] at firsts
    exact firsts
  have holds (name : String) (value : InputValue) :
      (ofCalls calls).signals[name]? = some value ↔ (name, value) ∈ calls := getElem?_ofCalls (names ▸ distinct)
  obtain ⟨m, run, lists⟩ := inputsHashmap_eq reads (ofCalls calls) fun name value found => by
    have member := List.mem_map_of_mem (f := fun call => (call.1, call.2.texts)) ((holds name value).mp found)
    rw [sets] at member
    obtain ⟨signal, -, same⟩ := List.mem_map.mp member
    exact ⟨signal.2, (congrArg Prod.snd same).symm⟩
  refine ⟨m, run, fun name elements member some_ => ?_⟩
  have called := List.mem_map_of_mem (f := fun signal : String × List Fr => (signal.1, signal.2.map scalarToHex)) member
  rw [← sets] at called
  obtain ⟨call, inCalls, same⟩ := List.mem_map.mp called
  obtain ⟨rfl, spells⟩ := Prod.mk.inj same
  exact lists call.1 call.2 elements ((holds call.1 call.2).mpr inCalls) spells some_

/-- The digits of a text, read as `BigInt::parse_bytes` reads them. -/
def parseDigits (text : String) (base : Nat) : Option Int :=
  if base = 16 then (spelled text.toList).map Int.ofNat else none

theorem readsHex_parseDigits : ReadsHex parseDigits := by
  intro digits n _ number
  rw [parseDigits, if_pos rfl, String.toList_ofList, number]
  rfl

end Reading

end PrivatePayments.Prover
