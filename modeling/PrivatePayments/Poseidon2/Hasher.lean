import Mathlib.Data.Set.Function
import PrivatePayments.Bn254

/-!
Poseidon2 as the programs use it: three functions of fixed arity, the queries
made to them, and what it means that no two queries of a set collide.
-/

namespace PrivatePayments.Poseidon2
open Bn254

/-- The three arities in use. `sep` is the domain separation in the last state word. -/
structure Hasher where
  compress : Fr → Fr → Fr
  hash2 : Fr → Fr → Fr → Fr
  hash3 : Fr → Fr → Fr → Fr → Fr

inductive Query where
  | compress (left right : Fr)
  | hash2 (a b sep : Fr)
  | hash3 (a b c sep : Fr)
  deriving DecidableEq

def Hasher.answer (H : Hasher) : Query → Fr
  | .compress left right => H.compress left right
  | .hash2 a b sep => H.hash2 a b sep
  | .hash3 a b c sep => H.hash3 a b c sep

@[simp] theorem answer_compress (H : Hasher) (left right : Fr) :
    H.answer (.compress left right) = H.compress left right := rfl

@[simp] theorem answer_hash2 (H : Hasher) (a b sep : Fr) :
    H.answer (.hash2 a b sep) = H.hash2 a b sep := rfl

@[simp] theorem answer_hash3 (H : Hasher) (a b c sep : Fr) :
    H.answer (.hash3 a b c sep) = H.hash3 a b c sep := rfl

/-- No two queries in play collide, and none collides with the zero that stands
for an empty subtree. No function has this on all queries, so it is always
stated of the queries of one run. -/
structure CollisionFree (H : Hasher) (inPlay : Set Query) : Prop where
  injOn : Set.InjOn H.answer inPlay
  ne_zero : ∀ q ∈ inPlay, H.answer q ≠ 0

namespace CollisionFree

variable {H : Hasher} {inPlay : Set Query}

theorem mono {larger : Set Query} (free : CollisionFree H larger) (sub : inPlay ⊆ larger) :
    CollisionFree H inPlay :=
  ⟨free.injOn.mono sub, fun q member => free.ne_zero q (sub member)⟩

theorem eq_of_answer (free : CollisionFree H inPlay) {q r : Query} (hq : q ∈ inPlay)
    (hr : r ∈ inPlay) (same : H.answer q = H.answer r) : q = r :=
  free.injOn hq hr same

/-- A finite log is collision free when its distinct queries have distinct nonzero answers. -/
theorem of_log (log : List Query) (nodup : (0 :: log.dedup.map H.answer).Nodup) :
    CollisionFree H {q | q ∈ log} := by
  obtain ⟨nonzero, distinct⟩ := List.nodup_cons.mp nodup
  constructor
  · intro q hq r hr same
    exact List.inj_on_of_nodup_map distinct (List.mem_dedup.mpr hq) (List.mem_dedup.mpr hr) same
  · intro q hq zero
    exact nonzero (zero ▸ List.mem_map_of_mem (List.mem_dedup.mpr hq))

end CollisionFree

end PrivatePayments.Poseidon2
