import PrivatePayments.AspNonMembership.Refinement
import PrivatePayments.Circuits.SmtVerifier

/-!
A stored key cannot be proved absent in zero knowledge: the climb that a satisfied
`SMTVerifier` amounts to would leave the path of the key in the contract's tree.
-/

namespace PrivatePayments.AspNonMembership
open Bn254 Poseidon2 Soroban Library SparseTree TreePath KeyTree Circuits

variable {H : Hasher} {inPlay : Set Query}

theorem answer_branchQuery (b : Bool) (sibling t : KeyTree) :
    H.answer (branchQuery H b sibling t) = hash H (branch b sibling t) := by
  cases b <;> rfl

/-- What a non-inclusion check may start its climb from: an empty slot or another key's leaf. -/
def ForeignStart (H : Hasher) (inPlay : Set Query) (k last : Fr) : Prop :=
  last = 0 ∨ ∃ k' v', k' ≠ k ∧ last = H.hash2 k' v' 1 ∧ .hash2 k' v' 1 ∈ inPlay

/-- No climb along the bits of a key leads from a foreign start to a tree with the key at the
end of its path. -/
theorem climb_ne_hash (free : CollisionFree H inPlay) {k v : Fr} {siblings : List KeyTree}
    {d m : Nat} {ss : Nat → Fr} {last : Fr}
    (treeLogged : ∀ q ∈ queries H (plug (keyBit k) d siblings (.leaf k v)), q ∈ inPlay)
    (climbLogged : ∀ q ∈ climbQueries H (SMTVerifier.bitsFrom k d m)
      (SMTVerifier.siblingsFrom ss d m) last, q ∈ inPlay)
    (foreign : ForeignStart H inPlay k last) :
    climb H (SMTVerifier.bitsFrom k d m) (SMTVerifier.siblingsFrom ss d m) last ≠
      hash H (plug (keyBit k) d siblings (.leaf k v)) := by
  induction m generalizing d siblings with
  | zero =>
    intro same
    rw [SMTVerifier.climb_zero] at same
    have nonempty : plug (keyBit k) d siblings (.leaf k v) ≠ .empty := by
      intro none
      have has : (plug (keyBit k) d siblings (.leaf k v)).HasKey k :=
        (hasKey_plug ..).mpr (Or.inr ((hasKey_leaf ..).mpr rfl))
      rw [none] at has
      exact hasKey_empty k has
    rcases foreign with rfl | ⟨k', v', different, rfl, logged⟩
    · exact hash_ne_zero free nonempty treeLogged same.symm
    · cases siblings with
      | nil =>
        have equal := free.eq_of_answer logged (treeLogged (.hash2 k v 1) (List.mem_cons_self ..)) same
        rw [Query.hash2.injEq] at equal
        exact different equal.1
      | cons s rest =>
        have top := treeLogged _ ((mem_queries_branch ..).mpr (Or.inl rfl))
        rw [plug, ← answer_branchQuery] at same
        have equal := free.eq_of_answer logged top same
        cases turn : keyBit k d <;> simp [branchQuery, turn] at equal
  | succ m ih =>
    intro same
    rw [SMTVerifier.climb_succ] at same
    rw [SMTVerifier.climbQueries_succ, List.forall_mem_cons] at climbLogged
    have bit : k.val.testBit d = keyBit k d := rfl
    cases siblings with
    | nil =>
      have leafLogged := treeLogged (.hash2 k v 1) (List.mem_cons_self ..)
      rw [bit] at same climbLogged
      cases turn : keyBit k d with
      | false =>
        rw [turn] at same climbLogged
        have equal := free.eq_of_answer climbLogged.1 leafLogged same
        simp at equal
      | true =>
        rw [turn] at same climbLogged
        have equal := free.eq_of_answer climbLogged.1 leafLogged same
        simp at equal
    | cons s rest =>
      have top := treeLogged _ ((mem_queries_branch ..).mpr (Or.inl rfl))
      have below : ∀ q ∈ queries H (plug (keyBit k) (d + 1) rest (.leaf k v)), q ∈ inPlay :=
        fun q member => treeLogged q ((mem_queries_branch ..).mpr (Or.inr (Or.inr member)))
      rw [plug, ← answer_branchQuery] at same
      rw [bit] at same climbLogged
      cases turn : keyBit k d with
      | false =>
        rw [turn] at same climbLogged top
        have equal := free.eq_of_answer climbLogged.1 top same
        simp only [branchQuery, Bool.false_eq_true, if_false, Query.compress.injEq] at equal
        exact ih below climbLogged.2 equal.1
      | true =>
        rw [turn] at same climbLogged top
        have equal := free.eq_of_answer climbLogged.1 top same
        simp only [branchQuery, if_true, Query.compress.injEq] at equal
        exact ih below climbLogged.2 equal.2

/-- With a boolean `isOld0`, no assignment proves a key of a represented tree absent. -/
theorem Represents.not_satisfied {env : Env Storage} {t : KeyTree} (rep : Represents H env t)
    (free : CollisionFree H inPlay) (treeLogged : ∀ q ∈ env.hashed, q ∈ inPlay) {C : Circomlib}
    (lib : C.Published) {n : Nat} {x : SMTVerifier.Inputs} {w : SMTVerifier.Signals}
    (enabled : x.enabled = 1) (fnc : x.fnc = 1) (root : env.storage.root = some (toU256 x.root))
    (blocked : t.HasKey x.key) (boolean : x.isOld0 = 0 ∨ x.isOld0 = 1)
    (logged : ∀ q ∈ SMTVerifier.queries n x w, q ∈ inPlay) :
    ¬SMTVerifier.Satisfied C H n x w := by
  intro sat
  obtain ⟨L, -, -, isRoot, climbLogged, keys⟩ := sat.climbs lib enabled fnc
  obtain ⟨v, has⟩ := blocked
  obtain ⟨siblings, stop, cut, kind, -⟩ := rep.exists_path (toU256 x.key)
  rw [turns_toU256] at cut
  have isLeaf := rep.stop_eq_leaf cut has kind
  subst isLeaf
  have top : hash H t = x.root := by
    have same := rep.root.symm.trans root
    exact toU256_injective (Option.some.inj same)
  have within := rep.logged
  rw [cut] at within top
  refine climb_ne_hash free (fun q member => treeLogged q (within q member))
    (fun q member => logged q (climbLogged q member)) ?_ (isRoot.symm.trans top.symm)
  rcases boolean with zero | one
  · right
    refine ⟨x.oldKey, x.oldValue, ?_, by simp [SMTVerifier.startOf, zero],
      logged _ (List.mem_cons_self ..)⟩
    rcases keys with one | different
    · rw [zero] at one
      exact absurd one zero_ne_one
    · exact different
  · left
    simp [SMTVerifier.startOf, one]

/-- Whatever the run, the level count and the prover's signals, a key in the tree has no
satisfying assignment in which `isOld0` is a bit. -/
theorem blocked_key_not_satisfied {admin : Address} {calls : List Call}
    (free : CollisionFree H inPlay) (runLogged : ∀ q ∈ (run H admin calls).hashed, q ∈ inPlay)
    {C : Circomlib} (lib : C.Published) {n : Nat} {x : SMTVerifier.Inputs} {w : SMTVerifier.Signals}
    (enabled : x.enabled = 1) (fnc : x.fnc = 1)
    (root : (run H admin calls).storage.root = some (toU256 x.root)) {value : U256}
    (blocked : Blocks (run H admin calls).storage (toU256 x.key) value)
    (boolean : x.isOld0 = 0 ∨ x.isOld0 = 1)
    (logged : ∀ q ∈ SMTVerifier.queries n x w, q ∈ inPlay) :
    ¬SMTVerifier.Satisfied C H n x w := by
  have freeRun : CollisionFree H {q | q ∈ (run H admin calls).hashed} := free.mono runLogged
  obtain ⟨t, tracks⟩ := tracks_run freeRun
  obtain ⟨k, v, isKey, -, has⟩ := (tracks.toRepresents.blocks_iff freeRun _ _).mp blocked
  refine tracks.toRepresents.not_satisfied free runLogged lib enabled fnc root ?_ boolean logged
  rw [toU256_injective isKey]
  exact ⟨v, has⟩

def loneBlocked : List Call := [.insertLeaf [⟨0⟩] 1 5]

def emptySlotInputs : SMTVerifier.Inputs where
  enabled := 1
  root := poseidon2.hash2 1 5 1
  siblings _ := 0
  oldKey := 0
  oldValue := 0
  isOld0 := 1
  key := 1
  value := 1
  fnc := 1

theorem loneBlocked_blocks :
    Blocks (run poseidon2 ⟨0⟩ loneBlocked).storage (toU256 1) 5 := by
  have free : CollisionFree poseidon2 {q | q ∈ (run poseidon2 ⟨0⟩ loneBlocked).hashed} :=
    CollisionFree.of_log _ (by decide +kernel)
  obtain ⟨t, tracks⟩ := tracks_run free
  exact (tracks.blocks_iff free _ _).mpr (by decide +kernel)

theorem blocked_key_not_satisfied_sample :
    ¬SMTVerifier.Satisfied Circomlib.standard poseidon2 10 emptySlotInputs
      (SMTVerifier.honest poseidon2 10 emptySlotInputs 0) :=
  blocked_key_not_satisfied
    (CollisionFree.of_log ((run poseidon2 ⟨0⟩ loneBlocked).hashed ++
      SMTVerifier.queries 10 emptySlotInputs (SMTVerifier.honest poseidon2 10 emptySlotInputs 0))
      (by decide +kernel))
    (show ∀ q ∈ (run poseidon2 ⟨0⟩ loneBlocked).hashed, _ from
      fun _ member => List.mem_append_left _ member) Circomlib.standard_published rfl rfl
    (by decide +kernel) loneBlocked_blocks (Or.inr rfl)
    (fun _ member => List.mem_append_right _ member)

/-- An attempt whose `isOld0` is no bit: it scales the leaf of another key to the root. -/
def scaledInputs : SMTVerifier.Inputs where
  enabled := 1
  root := poseidon2.hash2 1 5 1
  siblings _ := 0
  oldKey := 2
  oldValue := 0
  isOld0 := 1 - poseidon2.hash2 1 5 1 / poseidon2.hash2 2 0 1
  key := 1
  value := 1
  fnc := 1

/-- `SMTVerifier` alone does not force `isOld0` to be a bit, and then proves a stored key absent. -/
theorem scaledInputs_satisfied : ∃ w inPlay, CollisionFree poseidon2 inPlay ∧
    (∀ q ∈ (run poseidon2 ⟨0⟩ loneBlocked).hashed, q ∈ inPlay) ∧
    (∀ q ∈ SMTVerifier.queries 10 scaledInputs w, q ∈ inPlay) ∧
    (run poseidon2 ⟨0⟩ loneBlocked).storage.root = some (toU256 scaledInputs.root) ∧
    Blocks (run poseidon2 ⟨0⟩ loneBlocked).storage (toU256 scaledInputs.key) 5 ∧
    scaledInputs.enabled = 1 ∧ scaledInputs.fnc = 1 ∧
    SMTVerifier.Satisfied Circomlib.standard poseidon2 10 scaledInputs w := by
  refine ⟨SMTVerifier.honest poseidon2 10 scaledInputs 0, {q | q ∈
      (run poseidon2 ⟨0⟩ loneBlocked).hashed ++ SMTVerifier.queries 10 scaledInputs
        (SMTVerifier.honest poseidon2 10 scaledInputs 0)},
    CollisionFree.of_log _ (by decide +kernel), fun _ member => List.mem_append_left _ member,
    fun _ member => List.mem_append_right _ member, by decide +kernel, loneBlocked_blocks, rfl, rfl, ?_⟩
  refine SMTVerifier.honest_satisfied Circomlib.standard_published poseidon2 (by decide) rfl rfl
    (by decide) ⟨fun _ _ _ => rfl, fun above => absurd above (by decide)⟩ ?_ (Or.inr (by decide +kernel))
  have nonzero : poseidon2.hash2 2 0 1 ≠ 0 := by decide +kernel
  rw [SMTVerifier.climb_zero, SMTVerifier.startOf]
  simp only [scaledInputs]
  rw [sub_sub_cancel, mul_div_cancel₀ _ nonzero]

end PrivatePayments.AspNonMembership
