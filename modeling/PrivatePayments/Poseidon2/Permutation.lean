import PrivatePayments.Poseidon2.Constants
import PrivatePayments.Poseidon2.Hasher

/-! The Poseidon2 permutation of the circuits, which the host shares with them. -/

namespace PrivatePayments.Poseidon2
open Bn254

def sBox (inp : Fr) : Fr :=
  let x2 := inp * inp
  let x4 := x2 * x2
  inp * x4

def matMulM4 : List Fr → List Fr
  | [a, b, c, d] =>
      let t0 := a + b
      let t1 := c + d
      let t2 := 2 * b + t1
      let t3 := 2 * d + t0
      let t4 := 4 * t1 + t3
      let t5 := 4 * t0 + t2
      let t6 := t3 + t5
      let t7 := t2 + t4
      [t6, t5, t7, t4]
  | _ => []

/-- `LinearLayer(t)`, also the second half of `ExternalRound`. -/
def linearLayer (t : Nat) (inp : List Fr) : List Fr :=
  if t = 4 then matMulM4 inp
  else
    let total := inp.sum
    inp.map (fun x => total + x)

def externalRound (t : Nat) (inp : List Fr) (roundConsts : List Nat) : List Fr :=
  linearLayer t (List.zipWith (fun x (c : Nat) => sBox (x + c)) inp roundConsts)

def internalRound (t : Nat) (inp : List Fr) (roundConst : Nat) : List Fr :=
  match inp with
  | [] => []
  | x :: rest =>
      let boxed := sBox (x + roundConst) :: rest
      let total := boxed.sum
      List.zipWith (fun y (m : Nat) => total + y * m) boxed (internalMatDiag t)

/-- Four external rounds, the 56 internal rounds and the last four external rounds. -/
def permutation (t : Nat) (inputs : List Fr) : List Fr :=
  let start := linearLayer t inputs
  let opened := ((fullRounds t).take 4).foldl (externalRound t) start
  let mixed := (partialRounds t).foldl (internalRound t) opened
  ((fullRounds t).drop 4).foldl (externalRound t) mixed

/-- `PoseidonCompress`, `Poseidon2(2)` and `Poseidon2(3)`; the contracts reach the
first two through `poseidon2_compress` and `poseidon2_hash2`. -/
def poseidon2 : Hasher where
  compress left right := (permutation 2 [left, right]).headD 0 + left
  hash2 a b sep := (permutation 3 [a, b, sep]).headD 0
  hash3 a b c sep := (permutation 4 [a, b, c, sep]).headD 0

/-- The root the non-membership tests expect for the single leaf `(1, 42)`. -/
example : poseidon2.hash2 1 42 1 =
    16367784008464358864143154554494062552082491393210070322357217564588163898018 := by
  decide +kernel

end PrivatePayments.Poseidon2
