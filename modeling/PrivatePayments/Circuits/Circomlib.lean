import Mathlib.Algebra.BigOperators.Intervals
import Mathlib.Tactic.Ring
import PrivatePayments.Bn254

/-!
The circomlib templates the circuits include. They are fetched at build time, so they
enter as a parameter, with their published constraints as hypotheses. An array of signals
is a function on indices of which only those below its length are read.
-/

namespace PrivatePayments.Circuits
open Bn254

structure LevelState where
  top : Fr
  i0 : Fr
  iold : Fr
  inew : Fr
  na : Fr
  deriving DecidableEq

/-- For each template, which outputs satisfy its constraints on which inputs. -/
structure Circomlib where
  num2Bits : Nat → Fr → (Nat → Fr) → Prop
  num2BitsStrict : Fr → (Nat → Fr) → Prop
  isEqual : Fr → Fr → Fr → Prop
  multiAnd : List Fr → Fr → Prop
  switcher : (sel left right outL outR : Fr) → Prop
  forceEqualIfEnabled : (enabled a b : Fr) → Prop
  smtLevIns : Nat → (enabled : Fr) → (siblings levIns : Nat → Fr) → Prop
  smtVerifierSM : LevelState → (is0 levIns fnc : Fr) → LevelState → Prop

/-- The constraints of `Num2Bits(n)`: each output is a bit, and together they sum to the input. -/
def Bits (n : Nat) (input : Fr) (out : Nat → Fr) : Prop :=
  (∀ i, i < n → out i = 0 ∨ out i = 1) ∧ ∑ i ∈ Finset.range n, out i * 2 ^ i = input

def bitsValue (n : Nat) (out : Nat → Fr) : Nat := ∑ i ∈ Finset.range n, (out i).val * 2 ^ i

/-- The level of `SMTLevIns`: it and all below it have sibling zero, and the one above does not. -/
def InsertionLevel (n : Nat) (siblings : Nat → Fr) (i : Nat) : Prop :=
  (∀ j, i ≤ j → j < n → siblings j = 0) ∧ (0 < i → siblings (i - 1) ≠ 0)

/-- The templates as published. `SMTLevIns` is used enabled, and reads two levels at least. -/
structure Circomlib.Published (C : Circomlib) : Prop where
  num2Bits : ∀ n input out, C.num2Bits n input out ↔ Bits n input out
  num2BitsStrict : ∀ input out,
    C.num2BitsStrict input out ↔ Bits 254 input out ∧ bitsValue 254 out < bn256Modulus
  isEqual : ∀ a b out, C.isEqual a b out ↔ out = if a = b then 1 else 0
  multiAnd : ∀ inputs out, C.multiAnd inputs out ↔ out = inputs.prod
  switcher : ∀ sel left right outL outR, C.switcher sel left right outL outR ↔
    outL = (right - left) * sel + left ∧ outR = -((right - left) * sel) + right
  forceEqualIfEnabled : ∀ enabled a b,
    C.forceEqualIfEnabled enabled a b ↔ (enabled ≠ 0 → a = b)
  smtLevIns : ∀ n, 2 ≤ n → ∀ siblings levIns, C.smtLevIns n 1 siblings levIns ↔
    siblings (n - 1) = 0 ∧
      ∀ i, i < n → (InsertionLevel n siblings i ∧ levIns i = 1) ∨
        (¬InsertionLevel n siblings i ∧ levIns i = 0)
  smtVerifierSM : ∀ prev is0 levIns fnc st, C.smtVerifierSM prev is0 levIns fnc st ↔
    st.top = prev.top - prev.top * levIns ∧
    st.inew = prev.top * levIns - prev.top * levIns * fnc ∧
    st.iold = prev.top * levIns * fnc * (1 - is0) ∧
    st.i0 = prev.top * levIns * is0 ∧
    st.na = prev.na + prev.inew + prev.iold + prev.i0

/-- The templates by their published constraints. -/
def Circomlib.standard : Circomlib where
  num2Bits := Bits
  num2BitsStrict input out := Bits 254 input out ∧ bitsValue 254 out < bn256Modulus
  isEqual a b out := out = if a = b then 1 else 0
  multiAnd inputs out := out = inputs.prod
  switcher sel left right outL outR :=
    outL = (right - left) * sel + left ∧ outR = -((right - left) * sel) + right
  forceEqualIfEnabled enabled a b := enabled ≠ 0 → a = b
  smtLevIns n enabled siblings levIns :=
    (enabled ≠ 0 → siblings (n - 1) = 0) ∧
      ∀ i, i < n → (InsertionLevel n siblings i ∧ levIns i = 1) ∨
        (¬InsertionLevel n siblings i ∧ levIns i = 0)
  smtVerifierSM prev is0 levIns fnc st :=
    st.top = prev.top - prev.top * levIns ∧
    st.inew = prev.top * levIns - prev.top * levIns * fnc ∧
    st.iold = prev.top * levIns * fnc * (1 - is0) ∧
    st.i0 = prev.top * levIns * is0 ∧
    st.na = prev.na + prev.inew + prev.iold + prev.i0

theorem Circomlib.standard_published : Circomlib.standard.Published where
  num2Bits _ _ _ := Iff.rfl
  num2BitsStrict _ _ := Iff.rfl
  isEqual _ _ _ := Iff.rfl
  multiAnd _ _ := Iff.rfl
  switcher _ _ _ _ _ := Iff.rfl
  forceEqualIfEnabled _ _ _ := Iff.rfl
  smtLevIns _ _ _ _ := by simp [Circomlib.standard]
  smtVerifierSM _ _ _ _ _ := Iff.rfl

section Bits

variable {n : Nat} {input : Fr} {out : Nat → Fr}

theorem bitsValue_succ (n : Nat) (out : Nat → Fr) :
    bitsValue (n + 1) out = bitsValue n out + (out n).val * 2 ^ n :=
  Finset.sum_range_succ _ n

theorem val_bit {b : Fr} (bit : b = 0 ∨ b = 1) : b.val ≤ 1 := by
  rcases bit with rfl | rfl
  · decide
  · decide +kernel

theorem bitsValue_lt (bits : ∀ i, i < n → out i = 0 ∨ out i = 1) : bitsValue n out < 2 ^ n := by
  induction n with
  | zero => simp [bitsValue]
  | succ n ih =>
    have low := ih fun i below => bits i (by omega)
    have top := Nat.mul_le_mul_right (2 ^ n) (val_bit (bits n (by omega)))
    rw [bitsValue_succ, pow_succ]
    omega

theorem cast_bitsValue (n : Nat) (out : Nat → Fr) :
    (bitsValue n out : Fr) = ∑ i ∈ Finset.range n, out i * 2 ^ i := by
  simp only [bitsValue, Nat.cast_sum, Nat.cast_mul, Nat.cast_pow, Nat.cast_ofNat,
    ZMod.natCast_zmod_val]

theorem testBit_bitsValue (bits : ∀ i, i < n → out i = 0 ∨ out i = 1) {i : Nat} (below : i < n) :
    out i = if (bitsValue n out).testBit i then 1 else 0 := by
  induction n with
  | zero => omega
  | succ n ih =>
    have low := bitsValue_lt fun i below => bits i (Nat.lt_succ_of_lt below)
    rw [bitsValue_succ, Nat.add_comm, Nat.mul_comm, Nat.testBit_two_pow_mul_add _ low]
    by_cases last : i < n
    · rw [if_pos last]
      exact ih (fun i below => bits i (by omega)) last
    · have same : i = n := by omega
      subst same
      rw [if_neg last, Nat.sub_self]
      rcases bits i below with zero | one
      · simp [zero]
      · rw [one, show (1 : Fr).val = 1 by decide +kernel]
        simp

/-- A decomposition into as many bits as fit below the modulus is that of the least
representative. -/
theorem Bits.value_eq (bits : Bits n input out) (small : bitsValue n out < bn256Modulus) :
    bitsValue n out = input.val := by
  rw [← bits.2, ← cast_bitsValue, ZMod.val_cast_of_lt small]

theorem Bits.out_eq (bits : Bits n input out) (small : bitsValue n out < bn256Modulus) {i : Nat}
    (below : i < n) : out i = if input.val.testBit i then 1 else 0 := by
  rw [← bits.value_eq small]
  exact testBit_bitsValue bits.1 below

theorem bits_of_digits {n : Nat} {input : Fr} (small : input.val < 2 ^ n) :
    Bits n input (fun i => if input.val.testBit i then 1 else 0) ∧
      bitsValue n (fun i => if input.val.testBit i then 1 else 0) = input.val := by
  have value (m : Nat) : bitsValue m (fun i => if input.val.testBit i then 1 else 0) =
      input.val % 2 ^ m := by
    induction m with
    | zero => simp [bitsValue, Nat.mod_one]
    | succ m ih =>
      rw [bitsValue_succ, ih, Nat.mod_pow_succ, ← Nat.toNat_testBit]
      cases digit : input.val.testBit m
      · simp
      · simp only [if_true, Bool.toNat_true]
        rw [show (1 : Fr).val = 1 by decide +kernel]
        omega
  have whole := value n
  rw [Nat.mod_eq_of_lt small] at whole
  refine ⟨⟨fun i _ => ?_, ?_⟩, whole⟩
  · cases input.val.testBit i <;> simp
  · rw [← cast_bitsValue, whole, ZMod.natCast_zmod_val]

end Bits

end PrivatePayments.Circuits
