import PrivatePayments.Library.LittleEndian

/-!
Bytes as text in hexadecimal digits, two for a byte, and the number a text of digits spells.
-/

namespace PrivatePayments.Library.HexText
open LittleEndian

def hexDigit (n : Nat) : Char := Char.ofNat (if n < 10 then 48 + n else 87 + n)

/-- The number of a digit, in either case. -/
def digitValue (c : Char) : Option Nat :=
  if 48 ≤ c.toNat ∧ c.toNat ≤ 57 then some (c.toNat - 48)
  else if 97 ≤ c.toNat ∧ c.toNat ≤ 102 then some (c.toNat - 87)
  else if 65 ≤ c.toNat ∧ c.toNat ≤ 70 then some (c.toNat - 55)
  else none

def bytePair (byte : UInt8) : List Char := [hexDigit (byte.toNat / 16), hexDigit (byte.toNat % 16)]

def hexText (bytes : List UInt8) : List Char := bytes.flatMap bytePair

/-- The number that digits spell after those already read, the most significant first. -/
def spelledFrom (n : Nat) : List Char → Option Nat
  | [] => some n
  | c :: rest =>
    match digitValue c with
    | some d => spelledFrom (16 * n + d) rest
    | none => none

def spelled (digits : List Char) : Option Nat := spelledFrom 0 digits

theorem digitValue_hexDigit {n : Nat} (small : n < 16) : digitValue (hexDigit n) = some n := by
  have table : ∀ n < 16, digitValue (hexDigit n) = some n := by decide
  exact table n small

theorem spelledFrom_append (n : Nat) (digits more : List Char) :
    spelledFrom n (digits ++ more) = (spelledFrom n digits).bind (spelledFrom · more) := by
  induction digits generalizing n with
  | nil => rfl
  | cons c digits ih =>
    rw [List.cons_append, spelledFrom, spelledFrom]
    cases digitValue c with
    | none => rfl
    | some d => exact ih (16 * n + d)

theorem spelledFrom_bytePair (n : Nat) (byte : UInt8) :
    spelledFrom n (bytePair byte) = some (256 * n + byte.toNat) := by
  have small : byte.toNat < 256 := byte.toNat_lt
  rw [bytePair, spelledFrom, digitValue_hexDigit (by omega)]
  change spelledFrom (16 * n + byte.toNat / 16) [hexDigit (byte.toNat % 16)] = _
  rw [spelledFrom, digitValue_hexDigit (by omega)]
  change some (16 * (16 * n + byte.toNat / 16) + byte.toNat % 16) = _
  rw [Option.some.injEq]
  omega

/-- A byte string written from its last byte to its first spells its number. -/
theorem spelled_reverse (bytes : List UInt8) : spelled (hexText bytes.reverse) = some (fromLeBytes bytes) := by
  induction bytes with
  | nil => rfl
  | cons byte rest ih =>
    have split : hexText (byte :: rest).reverse = hexText rest.reverse ++ bytePair byte := by
      rw [hexText, List.reverse_cons, List.flatMap_append, List.flatMap_singleton]
      rfl
    rw [split, spelled, spelledFrom_append]
    change (spelled (hexText rest.reverse)).bind _ = _
    rw [ih, Option.bind_some, spelledFrom_bytePair, fromLeBytes, Nat.add_comm]

theorem hexText_ne_nil {bytes : List UInt8} (some_ : bytes ≠ []) : hexText bytes ≠ [] := by
  cases bytes with
  | nil => exact absurd rfl some_
  | cons byte rest => exact List.cons_ne_nil _ _

end PrivatePayments.Library.HexText
