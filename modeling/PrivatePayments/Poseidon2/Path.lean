import PrivatePayments.Poseidon2.Hasher

/-!
Recomputing a root from the hash at the end of a path, with the bits and the
siblings listed from the root down.
-/

namespace PrivatePayments.Poseidon2
open Bn254

variable {H : Hasher}

def climb (H : Hasher) : List Bool → List Fr → Fr → Fr
  | bit :: bits, s :: siblings, last =>
      if bit then H.compress s (climb H bits siblings last)
      else H.compress (climb H bits siblings last) s
  | _, _, last => last

def climbQueries (H : Hasher) : List Bool → List Fr → Fr → List Query
  | bit :: bits, s :: siblings, last =>
      (if bit then .compress s (climb H bits siblings last)
        else .compress (climb H bits siblings last) s) :: climbQueries H bits siblings last
  | _, _, _ => []

@[simp] theorem climb_nil (bits : List Bool) (last : Fr) : climb H bits [] last = last := by
  cases bits <;> rfl

@[simp] theorem climbQueries_nil (bits : List Bool) (last : Fr) : climbQueries H bits [] last = [] := by
  cases bits <;> rfl

theorem climb_injective {inPlay : Set Query} (free : CollisionFree H inPlay) {bits : List Bool}
    {siblings : List Fr} {x y : Fr} (left : ∀ q ∈ climbQueries H bits siblings x, q ∈ inPlay)
    (right : ∀ q ∈ climbQueries H bits siblings y, q ∈ inPlay)
    (same : climb H bits siblings x = climb H bits siblings y) : x = y := by
  induction bits generalizing siblings with
  | nil => simpa [climb] using same
  | cons bit bits ih =>
    cases siblings with
    | nil => simpa [climb] using same
    | cons s rest =>
      rw [climbQueries, List.forall_mem_cons] at left right
      refine ih left.2 right.2 ?_
      cases bit with
      | false =>
        have equal := free.eq_of_answer left.1 right.1 (by simpa [climb] using same)
        simpa using equal
      | true =>
        have equal := free.eq_of_answer left.1 right.1 (by simpa [climb] using same)
        simpa using equal

end PrivatePayments.Poseidon2
