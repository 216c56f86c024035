import PrivatePayments.Pool.Contract

/-!
The public amount of a transaction on its two ways: the client maps the external amount into
the field, the contract decodes the encoded amount and computes the public input again.
-/

namespace PrivatePayments.Client
open Bn254 Soroban Pool

abbrev NoteAmount := BitVec 128

/-- An external amount, in two's complement. -/
abbrev ExtAmount := BitVec 128

/-- `Field::try_from(ExtAmount)`: `x` itself or `p - |x|`. -/
def fieldOfExtAmount (value : ExtAmount) : Except String U256 :=
  if 0 ≤ value.toInt then
    let v : U256 := BitVec.ofNat 256 value.toInt.toNat
    if fieldSize.toNat ≤ v.toNat then .error "ext amount out of field range" else .ok v
  else
    let abs : U256 := BitVec.ofNat 256 value.toInt.natAbs
    if fieldSize.toNat ≤ abs.toNat then .error "ext amount abs out of field range"
    else .ok (fieldSize - abs)

/-- `i128_to_i256_scval`: two limbs of sign and the two limbs of the number. -/
def i128ToI256Scval (n : ExtAmount) : ScVal :=
  let hi : BitVec 64 := if n.toInt < 0 then -1 else 0
  .i256 hi hi (n.extractLsb' 64 64) (n.extractLsb' 0 64)

/-- An argument of a call as the host's `I256`. -/
def decodeI256 : ScVal → Option I256
  | .i256 hiHi hiLo loHi loLo => some (ofLimbs hiHi hiLo loHi loLo)
  | _ => none

theorem getLsbD_sign {n : ExtAmount} {i : Nat} (small : i < 64) :
    (if n.toInt < 0 then (-1 : BitVec 64) else 0).getLsbD i = n.msb := by
  rw [BitVec.msb_eq_toInt]
  by_cases negative : n.toInt < 0
  · rw [if_pos negative, decide_eq_true negative, show (-1 : BitVec 64) = BitVec.allOnes 64 from rfl,
      BitVec.getLsbD_allOnes, decide_eq_true small]
  · rw [if_neg negative, decide_eq_false negative]
    exact BitVec.getLsbD_zero

theorem decodeI256_scval (n : ExtAmount) : decodeI256 (i128ToI256Scval n) = some (n.signExtend 256) := by
  rw [i128ToI256Scval, decodeI256, Option.some.injEq]
  apply BitVec.eq_of_getLsbD_eq
  intro i small
  rw [ofLimbs, BitVec.getLsbD_append, BitVec.getLsbD_append, BitVec.getLsbD_append, BitVec.getLsbD_signExtend,
    decide_eq_true small, Bool.true_and]
  by_cases first : i < 64
  · rw [if_pos first, if_pos (by omega), BitVec.getLsbD_extractLsb', decide_eq_true first, Bool.true_and,
      Nat.zero_add]
  · rw [if_neg first]
    by_cases second : i - 64 < 64
    · rw [if_pos second, if_pos (by omega), BitVec.getLsbD_extractLsb', decide_eq_true second, Bool.true_and]
      exact congrArg n.getLsbD (by omega)
    · rw [if_neg second, if_neg (show ¬i < 128 by omega)]
      split
      · exact getLsbD_sign (by omega)
      · exact getLsbD_sign (by omega)

def publicAmountValue (n : ExtAmount) : Nat :=
  if 0 ≤ n.toInt then n.toInt.toNat else bn256Modulus - n.toInt.natAbs

theorem toInt_bounds (n : ExtAmount) : -2 ^ 127 ≤ n.toInt ∧ n.toInt < 2 ^ 127 :=
  ⟨BitVec.le_toInt n, BitVec.toInt_lt⟩

theorem publicAmountValue_lt (n : ExtAmount) : publicAmountValue n < bn256Modulus := by
  have bounds := toInt_bounds n
  have large : 2 ^ 128 < bn256Modulus := by decide
  unfold publicAmountValue
  split <;> omega

theorem fieldOfExtAmount_eq (n : ExtAmount) :
    fieldOfExtAmount n = .ok (BitVec.ofNat 256 (publicAmountValue n)) := by
  have bounds := toInt_bounds n
  have large : 2 ^ 128 < bn256Modulus := by decide
  have below := bn256Modulus_lt
  unfold fieldOfExtAmount publicAmountValue
  by_cases positive : 0 ≤ n.toInt
  · have value : (BitVec.ofNat 256 n.toInt.toNat).toNat = n.toInt.toNat := by
      rw [BitVec.toNat_ofNat, Nat.mod_eq_of_lt (by omega)]
    rw [if_pos positive, if_pos positive]
    simp only [value, toNat_fieldSize]
    rw [if_neg (by omega)]
  · have value : (BitVec.ofNat 256 n.toInt.natAbs).toNat = n.toInt.natAbs := by
      rw [BitVec.toNat_ofNat, Nat.mod_eq_of_lt (by omega)]
    rw [if_neg positive, if_neg positive]
    simp only [value, toNat_fieldSize]
    rw [if_neg (by omega)]
    refine congrArg Except.ok (BitVec.eq_of_toNat_eq ?_)
    rw [BitVec.toNat_sub_of_le (by rw [BitVec.le_def, value, toNat_fieldSize]; omega), value, toNat_fieldSize,
      BitVec.toNat_ofNat, Nat.mod_eq_of_lt (by omega)]

theorem run_calculatePublicAmount (n : ExtAmount) (env : Env Ledger) :
    (calculatePublicAmount (n.signExtend 256)).run env = .ok (BitVec.ofNat 256 (publicAmountValue n), env) := by
  have bounds := toInt_bounds n
  have below := bn256Modulus_lt
  have extended : (n.signExtend 256).toInt = n.toInt := BitVec.toInt_signExtend_of_le (by decide)
  unfold calculatePublicAmount publicAmountValue i256AbsToU256
  by_cases positive : 0 ≤ n.toInt
  · have value : (n.signExtend 256).toNat = n.toInt.toNat := by
      have same : ((n.signExtend 256).toNat : Int) = n.toInt := by
        rw [← extended, BitVec.toInt_eq_toNat_of_msb]
        rw [BitVec.msb_eq_toInt, extended, decide_eq_false (Int.not_lt.mpr positive)]
      omega
    simp only [extended, positive, if_true, StateT.run_bind, Host.run_pure, Library.ok_bind, value]
    rw [if_neg (show ¬maxExtAmount ≤ n.toInt.toNat by unfold maxExtAmount; omega)]
    refine congrArg (fun v => Except.ok (v, env)) (BitVec.eq_of_toNat_eq ?_)
    rw [value, BitVec.toNat_ofNat, Nat.mod_eq_of_lt (by omega)]
  · have negatable : n.signExtend 256 ≠ BitVec.intMin 256 := by
      intro least
      have value := congrArg BitVec.toInt least
      rw [extended, BitVec.toInt_intMin] at value
      omega
    have value : (-(n.signExtend 256)).toNat = n.toInt.natAbs := by
      have same : ((-(n.signExtend 256)).toNat : Int) = -n.toInt := by
        rw [← extended, ← BitVec.toInt_neg_of_ne_intMin negatable, BitVec.toInt_eq_toNat_of_msb]
        rw [BitVec.msb_eq_toInt, BitVec.toInt_neg_of_ne_intMin negatable, extended,
          decide_eq_false (by omega)]
      omega
    simp only [extended, positive, if_false, StateT.run_bind, Host.run_i256Neg negatable, Library.ok_bind, value]
    rw [if_neg (show ¬maxExtAmount ≤ n.toInt.natAbs by unfold maxExtAmount; omega)]
    have large : 2 ^ 128 < bn256Modulus := by decide
    have enough : (-(n.signExtend 256)).toNat ≤ fieldSize.toNat := by
      rw [value, toNat_fieldSize]
      omega
    simp only [StateT.run_bind, Host.run_i256Neg negatable, Library.ok_bind, Host.run_u256Sub enough]
    refine congrArg (fun v => Except.ok (v, env)) (BitVec.eq_of_toNat_eq ?_)
    rw [BitVec.toNat_sub_of_le (BitVec.le_def.mpr enough), value, toNat_fieldSize, BitVec.toNat_ofNat,
      Nat.mod_eq_of_lt (by omega)]

/-- For every external amount, what the contract computes from the encoded amount is the field element of
the client, and the conversions do not fail. -/
theorem public_amount_agreement (n : ExtAmount) (env : Env Ledger) :
    ∃ amount field, decodeI256 (i128ToI256Scval n) = some amount ∧ amount.toInt = n.toInt ∧
      fieldOfExtAmount n = .ok field ∧ (calculatePublicAmount amount).run env = .ok (field, env) ∧
      Canonical field ∧
      field.toNat = if 0 ≤ n.toInt then n.toInt.toNat else bn256Modulus - n.toInt.natAbs := by
  have small := publicAmountValue_lt n
  have below := bn256Modulus_lt
  have value : (BitVec.ofNat 256 (publicAmountValue n)).toNat = publicAmountValue n := by
    rw [BitVec.toNat_ofNat, Nat.mod_eq_of_lt (by omega)]
  refine ⟨n.signExtend 256, BitVec.ofNat 256 (publicAmountValue n), decodeI256_scval n,
    BitVec.toInt_signExtend_of_le (by decide), fieldOfExtAmount_eq n, run_calculatePublicAmount n env, ?_, value⟩
  rw [Canonical, value]
  exact small

example : fieldOfExtAmount (-123) = .ok (BitVec.ofNat 256 (bn256Modulus - 123)) := by decide +kernel

end PrivatePayments.Client
