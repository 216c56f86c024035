import Mathlib.Logic.Function.Basic
import Mathlib.Data.List.Basic

/-!
Encodings whose end can be told from what follows: two encodings that start the same
string are encodings of one value. Sequences of such encodings are such encodings.
-/

namespace PrivatePayments.Library

variable {α β γ σ : Type}

/-- A value that is valid can be read off any string that starts with its encoding. -/
def Separates (valid : α → Prop) (encode : α → List σ) : Prop :=
  ∀ a a' rest rest', valid a → valid a' → encode a ++ rest = encode a' ++ rest' → a = a' ∧ rest = rest'

namespace Separates

variable {valid : α → Prop} {encode : α → List σ}

theorem of_length {n : Nat} (length : ∀ a, valid a → (encode a).length = n)
    (injective : ∀ a a', valid a → valid a' → encode a = encode a' → a = a') : Separates valid encode := by
  intro a a' rest rest' isValid isValid' same
  have lengths : (encode a).length = (encode a').length := by rw [length a isValid, length a' isValid']
  obtain ⟨codes, rests⟩ := List.append_inj same lengths
  exact ⟨injective a a' isValid isValid' codes, rests⟩

theorem after (separates : Separates valid encode) (text : List σ) :
    Separates valid fun a => text ++ encode a := by
  intro a a' rest rest' isValid isValid' same
  rw [List.append_assoc, List.append_assoc] at same
  exact separates a a' rest rest' isValid isValid' (List.append_cancel_left same)

theorem seq {valid' : β → Prop} {encode' : β → List σ} (first : Separates valid encode)
    (second : Separates valid' encode') :
    Separates (fun pair : α × β => valid pair.1 ∧ valid' pair.2) fun pair => encode pair.1 ++ encode' pair.2 := by
  rintro ⟨a, b⟩ ⟨a', b'⟩ rest rest' ⟨validA, validB⟩ ⟨validA', validB'⟩ same
  simp only [List.append_assoc] at same
  obtain ⟨rfl, tail⟩ := first a a' _ _ validA validA' same
  obtain ⟨rfl, rests⟩ := second b b' _ _ validB validB' tail
  exact ⟨rfl, rests⟩

/-- The part of the encoding that tells the value, before a part that follows from it. -/
theorem followed (separates : Separates valid encode) (padding : α → List σ) :
    Separates valid fun a => encode a ++ padding a := by
  intro a a' rest rest' isValid isValid' same
  rw [List.append_assoc, List.append_assoc] at same
  obtain ⟨rfl, tail⟩ := separates a a' _ _ isValid isValid' same
  exact ⟨rfl, List.append_cancel_left tail⟩

theorem comap (separates : Separates valid encode) {f : γ → α} (injective : Function.Injective f) :
    Separates (fun c => valid (f c)) fun c => encode (f c) := by
  intro c c' rest rest' isValid isValid' same
  obtain ⟨values, rests⟩ := separates (f c) (f c') rest rest' isValid isValid' same
  exact ⟨injective values, rests⟩

theorem eq_of_encode (separates : Separates valid encode) (a a' : α) (isValid : valid a) (isValid' : valid a')
    (same : encode a = encode a') : a = a' :=
  (separates a a' [] [] isValid isValid' (by rw [same])).1

theorem flatMap_injective {encode : α → List σ} (separates : Separates (fun _ => True) encode)
    (nonempty : ∀ a, encode a ≠ []) : Function.Injective (List.flatMap encode) := by
  intro as bs same
  induction as generalizing bs with
  | nil =>
    cases bs with
    | nil => rfl
    | cons b bs =>
      rw [List.flatMap_nil, List.flatMap_cons] at same
      exact absurd (List.append_eq_nil_iff.mp same.symm).1 (nonempty b)
  | cons a as ih =>
    cases bs with
    | nil =>
      rw [List.flatMap_nil, List.flatMap_cons] at same
      exact absurd (List.append_eq_nil_iff.mp same).1 (nonempty a)
    | cons b bs =>
      rw [List.flatMap_cons, List.flatMap_cons] at same
      obtain ⟨rfl, rests⟩ := separates a b _ _ trivial trivial same
      rw [ih rests]

end Separates

end PrivatePayments.Library
