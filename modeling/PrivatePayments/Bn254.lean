import PrivatePayments.Library.ModularPower

/-!
The BN254 scalar field the circuits compute in, and the 256-bit host integers
the contracts store. A contract value is canonical when it lies below the
modulus; on canonical values the two types are in bijection.
-/

namespace PrivatePayments.Bn254
open Library.ModularPower

/-- `bn256_modulus` of `soroban-utils`, the order of the BN254 scalar field. -/
def bn256Modulus : Nat :=
  21888242871839275222246405745257275088548364400416034343698204186575808495617

def smallPrimes : List Nat :=
  [2, 3, 5, 7, 11, 13, 29, 83, 107, 229, 379, 661, 823, 853, 983, 1637, 3691, 4999, 11003, 93001, 237073, 1593227]

theorem smallPrimes_prime : ∀ q ∈ smallPrimes, q.Prime := by
  norm_num [smallPrimes]

/-- The modulus after the larger primes its certificate needs, each with a primitive root
and the prime factors of its predecessor. -/
def certificates : List (Nat × Nat × List Nat) :=
  [(639533339, 2, [2, 229, 1637, 853]),
    (65865678001877903, 5, [2, 379, 83, 1637, 639533339]),
    (12048837557, 2, [2, 2, 7, 7, 661, 93001]),
    (5156902474397, 2, [2, 2, 107, 12048837557]),
    (1670836401704629, 2, [2, 2, 3, 3, 3, 3, 5156902474397]),
    (405928799, 22, [2, 11, 3691, 4999]),
    (13818364434197438864469338081, 3, [2, 2, 2, 2, 2, 5, 823, 1593227, 65865678001877903]),
    (bn256Modulus, 5, List.replicate 28 2 ++
      [3, 3, 13, 29, 983, 11003, 237073, 405928799, 1670836401704629, 13818364434197438864469338081])]

theorem certificates_chained : Chained smallPrimes certificates := by decide +kernel

theorem bn256Modulus_prime : bn256Modulus.Prime :=
  certificates_chained.prime smallPrimes_prime _ (List.mem_of_getLast? rfl)

instance : Fact bn256Modulus.Prime := ⟨bn256Modulus_prime⟩

abbrev Fr := ZMod bn256Modulus

-- The numerals the circuits and the contracts write, under names of their own.
instance atLeastTwo_two : Nat.AtLeastTwo 2 := ⟨le_refl 2⟩
instance atLeastTwo_three : Nat.AtLeastTwo 3 := ⟨by decide⟩
instance atLeastTwo_four : Nat.AtLeastTwo 4 := ⟨by decide⟩
instance atLeastTwo_five : Nat.AtLeastTwo 5 := ⟨by decide⟩
instance atLeastTwo_seven : Nat.AtLeastTwo 7 := ⟨by decide⟩
instance atLeastTwo_nine : Nat.AtLeastTwo 9 := ⟨by decide⟩

instance : LawfulBEq Fr := inferInstance

abbrev U256 := BitVec 256

theorem bn256Modulus_lt : bn256Modulus < 2 ^ 254 := by decide

/-- The `U256` holding the least representative of a field element. -/
def toU256 (x : Fr) : U256 := BitVec.ofNat 256 x.val

/-- The field element a `U256` stands for in a circuit. -/
def ofU256 (x : U256) : Fr := (x.toNat : Fr)

abbrev Canonical (x : U256) : Prop := x.toNat < bn256Modulus

@[simp] theorem toNat_toU256 (x : Fr) : (toU256 x).toNat = x.val := by
  have small := ZMod.val_lt x
  have bound := bn256Modulus_lt
  rw [toU256, BitVec.toNat_ofNat, Nat.mod_eq_of_lt (by omega)]

theorem canonical_toU256 (x : Fr) : Canonical (toU256 x) := by
  simpa only [Canonical, toNat_toU256] using ZMod.val_lt x

@[simp] theorem ofU256_toU256 (x : Fr) : ofU256 (toU256 x) = x := by
  rw [ofU256, toNat_toU256, ZMod.natCast_zmod_val]

theorem val_ofU256 {x : U256} (canonical : Canonical x) : (ofU256 x).val = x.toNat :=
  ZMod.val_cast_of_lt canonical

theorem toU256_ofU256 {x : U256} (canonical : Canonical x) : toU256 (ofU256 x) = x := by
  apply BitVec.eq_of_toNat_eq
  rw [toNat_toU256, val_ofU256 canonical]

theorem toU256_injective : Function.Injective toU256 :=
  Function.LeftInverse.injective ofU256_toU256

@[simp] theorem toU256_inj {x y : Fr} : toU256 x = toU256 y ↔ x = y :=
  toU256_injective.eq_iff

@[simp] theorem toU256_zero : toU256 0 = 0 := by decide

@[simp] theorem toU256_eq_zero {x : Fr} : toU256 x = 0 ↔ x = 0 := by
  rw [← toU256_zero, toU256_inj]

theorem toU256_one : toU256 1 = 1 := by decide

end PrivatePayments.Bn254
