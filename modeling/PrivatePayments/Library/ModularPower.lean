import Mathlib.Data.ZMod.Basic
import Mathlib.NumberTheory.LucasPrimality
import Mathlib.Tactic.NormNum.Prime

/-!
Binary modular exponentiation as a structural recursion the kernel evaluates, and
Lucas certificates for primes checked with it.
-/

namespace PrivatePayments.Library.ModularPower

/-- Square and multiply; `fuel` bounds the number of exponent bits. -/
def powMod (modulus : Nat) : Nat → Nat → Nat → Nat → Nat
  | 0, _, _, acc => acc
  | fuel + 1, base, exponent, acc =>
      powMod modulus fuel (base * base % modulus) (exponent / 2)
        (if exponent % 2 = 1 then acc * base % modulus else acc)

theorem powMod_cast (modulus fuel base exponent acc : Nat) (bound : exponent < 2 ^ fuel) :
    (powMod modulus fuel base exponent acc : ZMod modulus) =
      acc * (base : ZMod modulus) ^ exponent := by
  induction fuel generalizing base exponent acc with
  | zero =>
    have none : exponent = 0 := by simpa using bound
    simp [powMod, none]
  | succ fuel ih =>
    have half : exponent / 2 < 2 ^ fuel := by
      rw [Nat.div_lt_iff_lt_mul (by decide), ← pow_succ]
      exact bound
    have split := Nat.div_add_mod exponent 2
    rw [powMod, ih _ _ _ half]
    by_cases odd : exponent % 2 = 1
    · rw [if_pos odd, ZMod.natCast_mod, ZMod.natCast_mod]
      conv_rhs => rw [← split, odd, pow_succ, pow_mul, sq]
      push_cast
      ring
    · have even : exponent % 2 = 0 := by omega
      rw [if_neg odd, ZMod.natCast_mod]
      conv_rhs => rw [← split, even, add_zero, pow_mul, sq]
      push_cast
      ring

/-- A Lucas certificate: `root` has order exactly `n - 1` modulo `n`. -/
structure Certificate (n root : Nat) (factors : List Nat) : Prop where
  large : 1 < n
  short : n < 2 ^ 256
  product : factors.prod = n - 1
  fermat : powMod n 256 root (n - 1) 1 % n = 1
  orders : ∀ q ∈ factors, powMod n 256 root ((n - 1) / q) 1 % n ≠ 1

instance {n root : Nat} {factors : List Nat} : Decidable (Certificate n root factors) :=
  decidable_of_iff (1 < n ∧ n < 2 ^ 256 ∧ factors.prod = n - 1 ∧ powMod n 256 root (n - 1) 1 % n = 1 ∧
      ∀ q ∈ factors, powMod n 256 root ((n - 1) / q) 1 % n ≠ 1)
    ⟨fun ⟨large, short, product, fermat, orders⟩ => ⟨large, short, product, fermat, orders⟩,
      fun ⟨large, short, product, fermat, orders⟩ => ⟨large, short, product, fermat, orders⟩⟩

theorem pow_eq_one_iff (n root e : Nat) (large : 1 < n) (bound : e < 2 ^ 256) :
    (root : ZMod n) ^ e = 1 ↔ powMod n 256 root e 1 % n = 1 := by
  have cast := powMod_cast n 256 root e 1 bound
  rw [Nat.cast_one, one_mul] at cast
  have one := ZMod.natCast_eq_natCast_iff' (powMod n 256 root e 1) 1 n
  rwa [cast, Nat.cast_one, Nat.mod_eq_of_lt large] at one

theorem Certificate.prime {n root : Nat} {factors : List Nat}
    (certificate : Certificate n root factors) (primes : ∀ q ∈ factors, q.Prime) : n.Prime := by
  have short := certificate.short
  apply lucas_primality n (root : ZMod n)
  · exact (pow_eq_one_iff n root _ certificate.large (by omega)).mpr certificate.fermat
  · intro q prime divides one
    rw [← certificate.product] at divides
    obtain ⟨factor, member, divides⟩ := (Prime.dvd_prod_iff prime.prime).mp divides
    have same := (Nat.prime_dvd_prime_iff_eq prime (primes factor member)).mp divides
    subst same
    have bound : (n - 1) / q < 2 ^ 256 := lt_of_le_of_lt (Nat.div_le_self _ _) (by omega)
    exact certificate.orders q member ((pow_eq_one_iff n root _ certificate.large bound).mp one)

/-- The factors in each certificate are proven already or have a certificate before it. -/
def Chained : List Nat → List (Nat × Nat × List Nat) → Prop
  | _, [] => True
  | proven, (n, root, factors) :: rest =>
      factors ⊆ proven ∧ Certificate n root factors ∧ Chained (n :: proven) rest

instance Chained.decidable : (proven : List Nat) → (chain : List (Nat × Nat × List Nat)) →
    Decidable (Chained proven chain)
  | _, [] => .isTrue trivial
  | proven, (n, root, factors) :: rest =>
      have := Chained.decidable (n :: proven) rest
      inferInstanceAs (Decidable (factors ⊆ proven ∧ Certificate n root factors ∧ Chained (n :: proven) rest))

theorem Chained.prime {proven : List Nat} {chain : List (Nat × Nat × List Nat)} (primes : ∀ q ∈ proven, q.Prime)
    (chained : Chained proven chain) : ∀ c ∈ chain, c.1.Prime := by
  induction chain generalizing proven with
  | nil => exact fun c none => absurd none List.not_mem_nil
  | cons first rest ih =>
    obtain ⟨n, root, factors⟩ := first
    obtain ⟨known, certificate, later⟩ := chained
    have prime := certificate.prime fun q member => primes q (known member)
    refine List.forall_mem_cons.mpr ⟨prime, ih ?_ later⟩
    exact List.forall_mem_cons.mpr ⟨prime, primes⟩

end PrivatePayments.Library.ModularPower
