import PrivatePayments.Circuits.Circomlib
import PrivatePayments.Poseidon2.Path

/-!
`SMTVerifier` as a system of constraints. When it checks non-inclusion, an assignment
that satisfies it is a climb from an insertion level to the root: from zero, or from
the leaf of another key.
-/

namespace PrivatePayments.Circuits
open Bn254 Poseidon2

namespace SMTVerifier

structure Inputs where
  enabled : Fr
  root : Fr
  siblings : Nat → Fr
  oldKey : Fr
  oldValue : Fr
  isOld0 : Fr
  key : Fr
  value : Fr
  fnc : Fr

structure Level where
  outL : Fr
  outR : Fr
  proofHash : Fr
  root : Fr

structure Signals where
  hash1Old : Fr
  hash1New : Fr
  n2bOld : Nat → Fr
  n2bNew : Nat → Fr
  levIns : Nat → Fr
  sm : Nat → LevelState
  levels : Nat → Level
  areKeyEquals : Fr
  keysOk : Fr

structure LevelSatisfied (C : Circomlib) (H : Hasher) (st : LevelState)
    (sibling old1leaf new1leaf lrbit child : Fr) (level : Level) : Prop where
  switcher : C.switcher lrbit child sibling level.outL level.outR
  proofHash : level.proofHash = H.compress level.outL level.outR
  root : level.root = level.proofHash * st.top + old1leaf * st.iold + new1leaf * st.inew

def startState (enabled : Fr) : LevelState :=
  { top := enabled, i0 := 0, iold := 0, inew := 0, na := 1 - enabled }

/-- The constraints of `SMTVerifier(nLevels)`. With fewer than two levels, or more than the bits
of a key, the template does not compile. -/
structure Satisfied (C : Circomlib) (H : Hasher) (nLevels : Nat) (x : Inputs) (w : Signals) :
    Prop where
  compiles : 2 ≤ nLevels ∧ nLevels ≤ 254
  hash1Old : w.hash1Old = H.hash2 x.oldKey x.oldValue 1
  hash1New : w.hash1New = H.hash2 x.key x.value 1
  n2bOld : C.num2BitsStrict x.oldKey w.n2bOld
  n2bNew : C.num2BitsStrict x.key w.n2bNew
  levIns : C.smtLevIns nLevels x.enabled x.siblings w.levIns
  smFirst : C.smtVerifierSM (startState x.enabled) x.isOld0 (w.levIns 0) x.fnc (w.sm 0)
  smNext : ∀ i, i + 1 < nLevels →
    C.smtVerifierSM (w.sm i) x.isOld0 (w.levIns (i + 1)) x.fnc (w.sm (i + 1))
  smLast : (w.sm (nLevels - 1)).na + (w.sm (nLevels - 1)).iold + (w.sm (nLevels - 1)).inew +
    (w.sm (nLevels - 1)).i0 = 1
  level : ∀ i, i < nLevels →
    LevelSatisfied C H (w.sm i) (x.siblings i) w.hash1Old w.hash1New (w.n2bNew i)
      (if i = nLevels - 1 then 0 else (w.levels (i + 1)).root) (w.levels i)
  areKeyEquals : C.isEqual x.oldKey x.key w.areKeyEquals
  multiAnd : C.multiAnd [x.fnc, 1 - x.isOld0, w.areKeyEquals, x.enabled] w.keysOk
  keysOk : w.keysOk = 0
  checkRoot : C.forceEqualIfEnabled x.enabled (w.levels 0).root x.root

def queries (nLevels : Nat) (x : Inputs) (w : Signals) : List Query :=
  .hash2 x.oldKey x.oldValue 1 :: .hash2 x.key x.value 1 ::
    (List.range nLevels).map fun i => .compress (w.levels i).outL (w.levels i).outR

/-- The state after a level when only the level `L` inserts. -/
def stateAt (isOld0 : Fr) (L i : Nat) : LevelState :=
  if i < L then { top := 1, i0 := 0, iold := 0, inew := 0, na := 0 }
  else if i = L then { top := 0, i0 := isOld0, iold := 1 - isOld0, inew := 0, na := 0 }
  else { top := 0, i0 := 0, iold := 0, inew := 0, na := 1 }

section Insertion

variable {siblings : Nat → Fr}

theorem exists_insertionLevel {n : Nat} (positive : 0 < n) (siblings : Nat → Fr)
    (last : siblings (n - 1) = 0) : ∃ L, L < n ∧ InsertionLevel n siblings L := by
  have some : ∃ L, ∀ j, L ≤ j → j < n → siblings j = 0 := ⟨n, fun j low high => by omega⟩
  classical
  have least := Nat.find_spec some
  refine ⟨Nat.find some, ?_, least, fun above zero => ?_⟩
  · have early : Nat.find some ≤ n - 1 := Nat.find_le fun j low high => by
      rw [show j = n - 1 by omega]
      exact last
    omega
  · refine Nat.find_min some (Nat.sub_lt above Nat.one_pos) fun j low high => ?_
    by_cases same : j = Nat.find some - 1
    · rw [same]
      exact zero
    · exact least j (by omega) high

theorem insertionLevel_unique {n L L' : Nat} (below : L < n) (below' : L' < n)
    (here : InsertionLevel n siblings L) (there : InsertionLevel n siblings L') : L = L' := by
  by_contra different
  rcases Nat.lt_or_gt_of_ne different with before | after
  · exact there.2 (by omega) (here.1 (L' - 1) (by omega) (by omega))
  · exact here.2 (by omega) (there.1 (L - 1) (by omega) (by omega))

end Insertion

variable {C : Circomlib} {H : Hasher} {n : Nat} {x : Inputs} {w : Signals}

theorem stateAt_before {isOld0 : Fr} {L i : Nat} (before : i < L) :
    stateAt isOld0 L i = { top := 1, i0 := 0, iold := 0, inew := 0, na := 0 } := if_pos before

theorem stateAt_here (isOld0 : Fr) (L : Nat) :
    stateAt isOld0 L L = { top := 0, i0 := isOld0, iold := 1 - isOld0, inew := 0, na := 0 } := by
  rw [stateAt, if_neg (Nat.lt_irrefl L), if_pos rfl]

theorem stateAt_after {isOld0 : Fr} {L i : Nat} (after : L < i) :
    stateAt isOld0 L i = { top := 0, i0 := 0, iold := 0, inew := 0, na := 1 } := by
  rw [stateAt, if_neg (by omega), if_neg (by omega)]

theorem stateAt_zero (lib : C.Published) (isOld0 : Fr) (L : Nat) (st : LevelState) :
    C.smtVerifierSM (startState 1) isOld0 (if 0 = L then 1 else 0) 1 st ↔
      st = stateAt isOld0 L 0 := by
  rw [lib.smtVerifierSM]
  obtain ⟨top, i0, iold, inew, na⟩ := st
  rcases Nat.eq_zero_or_pos L with rfl | before
  · rw [stateAt_here, if_pos rfl]
    simp only [startState, LevelState.mk.injEq]
    constructor
    · rintro ⟨h1, h2, h3, h4, h5⟩
      simp [h1, h2, h3, h4, h5]
    · rintro ⟨rfl, rfl, rfl, rfl, rfl⟩
      simp
  · rw [stateAt_before before, if_neg (by omega)]
    simp only [startState, LevelState.mk.injEq]
    constructor
    · rintro ⟨h1, h2, h3, h4, h5⟩
      simp [h1, h2, h3, h4, h5]
    · rintro ⟨rfl, rfl, rfl, rfl, rfl⟩
      simp

theorem stateAt_succ (lib : C.Published) (isOld0 : Fr) (L i : Nat) (st : LevelState) :
    C.smtVerifierSM (stateAt isOld0 L i) isOld0 (if i + 1 = L then 1 else 0) 1 st ↔
      st = stateAt isOld0 L (i + 1) := by
  rw [lib.smtVerifierSM]
  obtain ⟨top, i0, iold, inew, na⟩ := st
  have states : (stateAt isOld0 L i).top * (if i + 1 = L then 1 else 0) =
      (if i + 1 = L then (1 : Fr) else 0) := by
    by_cases here : i + 1 = L
    · rw [stateAt_before (by omega)]
      simp
    · simp [here]
  rw [states]
  rcases Nat.lt_trichotomy (i + 1) L with before | here | after
  · rw [stateAt_before (by omega), stateAt_before before, if_neg (by omega)]
    simp only [LevelState.mk.injEq]
    constructor
    · rintro ⟨h1, h2, h3, h4, h5⟩
      simp [h1, h2, h3, h4, h5]
    · rintro ⟨rfl, rfl, rfl, rfl, rfl⟩
      simp
  · rw [stateAt_before (by omega), if_pos here, here, stateAt_here]
    simp only [LevelState.mk.injEq]
    constructor
    · rintro ⟨h1, h2, h3, h4, h5⟩
      simp [h1, h2, h3, h4, h5]
    · rintro ⟨rfl, rfl, rfl, rfl, rfl⟩
      simp
  · have isNa : (stateAt isOld0 L i).top = 0 ∧ (stateAt isOld0 L i).na + (stateAt isOld0 L i).inew +
        (stateAt isOld0 L i).iold + (stateAt isOld0 L i).i0 = 1 := by
      by_cases here : i = L
      · subst here
        simp [stateAt_here]
      · simp [stateAt_after (show L < i by omega)]
    rw [stateAt_after after, if_neg (by omega), isNa.1, isNa.2]
    simp only [LevelState.mk.injEq]
    constructor
    · rintro ⟨h1, h2, h3, h4, h5⟩
      simp [h1, h2, h3, h4, h5]
    · rintro ⟨rfl, rfl, rfl, rfl, rfl⟩
      simp

/-- The path through the levels from `i` on, `m` of them. -/
abbrev bitsFrom (key : Fr) (i m : Nat) : List Bool := (List.range' i m).map key.val.testBit

abbrev siblingsFrom (siblings : Nat → Fr) (i m : Nat) : List Fr := (List.range' i m).map siblings

def startOf (H : Hasher) (x : Inputs) : Fr := H.hash2 x.oldKey x.oldValue 1 * (1 - x.isOld0)

theorem climb_zero (H : Hasher) (key : Fr) (siblings : Nat → Fr) (i : Nat) (last : Fr) :
    climb H (bitsFrom key i 0) (siblingsFrom siblings i 0) last = last := rfl

theorem climbQueries_zero (H : Hasher) (key : Fr) (siblings : Nat → Fr) (i : Nat) (last : Fr) :
    climbQueries H (bitsFrom key i 0) (siblingsFrom siblings i 0) last = [] := rfl

theorem climb_succ (H : Hasher) (key : Fr) (siblings : Nat → Fr) (i m : Nat) (last : Fr) :
    climb H (bitsFrom key i (m + 1)) (siblingsFrom siblings i (m + 1)) last =
      if key.val.testBit i then
        H.compress (siblings i) (climb H (bitsFrom key (i + 1) m) (siblingsFrom siblings (i + 1) m) last)
      else
        H.compress (climb H (bitsFrom key (i + 1) m) (siblingsFrom siblings (i + 1) m) last)
          (siblings i) := rfl

theorem climbQueries_succ (H : Hasher) (key : Fr) (siblings : Nat → Fr) (i m : Nat) (last : Fr) :
    climbQueries H (bitsFrom key i (m + 1)) (siblingsFrom siblings i (m + 1)) last =
      (if key.val.testBit i then
        .compress (siblings i) (climb H (bitsFrom key (i + 1) m) (siblingsFrom siblings (i + 1) m) last)
      else
        .compress (climb H (bitsFrom key (i + 1) m) (siblingsFrom siblings (i + 1) m) last)
          (siblings i)) ::
        climbQueries H (bitsFrom key (i + 1) m) (siblingsFrom siblings (i + 1) m) last := rfl

namespace Satisfied

theorem exists_states (lib : C.Published) (sat : Satisfied C H n x w) (enabled : x.enabled = 1)
    (fnc : x.fnc = 1) : ∃ L, L < n ∧ InsertionLevel n x.siblings L ∧
      ∀ i, i < n → w.sm i = stateAt x.isOld0 L i := by
  have levIns := sat.levIns
  rw [enabled, lib.smtLevIns n sat.compiles.1] at levIns
  have positive : 0 < n := by
    have two := sat.compiles.1
    omega
  obtain ⟨L, below, level⟩ := exists_insertionLevel positive x.siblings levIns.1
  have inserts (i : Nat) (small : i < n) : w.levIns i = if i = L then 1 else 0 := by
    rcases levIns.2 i small with ⟨here, one⟩ | ⟨elsewhere, zero⟩
    · rw [one, if_pos (insertionLevel_unique small below here level)]
    · rw [zero, if_neg]
      rintro rfl
      exact elsewhere level
  refine ⟨L, below, level, fun i => ?_⟩
  induction i with
  | zero =>
    intro small
    have first := sat.smFirst
    rw [enabled, fnc, inserts 0 small] at first
    exact (stateAt_zero lib x.isOld0 L _).mp first
  | succ i ih =>
    intro small
    have next := sat.smNext i small
    rw [ih (by omega), fnc, inserts (i + 1) small] at next
    exact (stateAt_succ lib x.isOld0 L i _).mp next

theorem bit_eq (lib : C.Published) (sat : Satisfied C H n x w) {i : Nat} (small : i < n) :
    w.n2bNew i = if x.key.val.testBit i then 1 else 0 := by
  obtain ⟨bits, canonical⟩ := (lib.num2BitsStrict _ _).mp sat.n2bNew
  have short := sat.compiles.2
  exact bits.out_eq canonical (by omega)

theorem levelRoot_eq (lib : C.Published) (sat : Satisfied C H n x w) {L : Nat} (below : L < n)
    (states : ∀ i, i < n → w.sm i = stateAt x.isOld0 L i) (m i : Nat) (split : i + m = L) :
    (w.levels i).root =
      climb H (bitsFrom x.key i m) (siblingsFrom x.siblings i m) (startOf H x) ∧
    ∀ q ∈ climbQueries H (bitsFrom x.key i m) (siblingsFrom x.siblings i m) (startOf H x),
      q ∈ queries n x w := by
  induction m generalizing i with
  | zero =>
    have here : i = L := by omega
    subst here
    have root := (sat.level i below).root
    rw [states i below, stateAt_here, sat.hash1Old] at root
    rw [climb_zero, climbQueries_zero]
    exact ⟨by simpa [startOf] using root, by simp⟩
  | succ m ih =>
    have small : i < n := by omega
    obtain ⟨child, logged⟩ := ih (i + 1) (by omega)
    have level := sat.level i small
    have root := level.root
    have switched := (lib.switcher ..).mp level.switcher
    rw [sat.bit_eq lib small, if_neg (show ¬i = n - 1 by omega), child] at switched
    rw [states i small, stateAt_before (by omega), level.proofHash] at root
    have logs : Query.compress (w.levels i).outL (w.levels i).outR ∈ queries n x w :=
      List.mem_cons_of_mem _ (List.mem_cons_of_mem _
        (List.mem_map.mpr ⟨i, List.mem_range.mpr small, rfl⟩))
    rw [climb_succ, climbQueries_succ, List.forall_mem_cons]
    cases turn : x.key.val.testBit i with
    | false =>
      rw [turn] at switched
      have outL : (w.levels i).outL = climb H (bitsFrom x.key (i + 1) m)
          (siblingsFrom x.siblings (i + 1) m) (startOf H x) := by simpa using switched.1
      have outR : (w.levels i).outR = x.siblings i := by simpa using switched.2
      rw [outL, outR] at root logs
      exact ⟨by simpa using root, logs, logged⟩
    | true =>
      rw [turn] at switched
      have outL : (w.levels i).outL = x.siblings i := by simpa using switched.1
      have outR : (w.levels i).outR = climb H (bitsFrom x.key (i + 1) m)
          (siblingsFrom x.siblings (i + 1) m) (startOf H x) := by simpa using switched.2
      rw [outL, outR] at root logs
      exact ⟨by simpa using root, logs, logged⟩

theorem climbs (lib : C.Published) (sat : Satisfied C H n x w) (enabled : x.enabled = 1)
    (fnc : x.fnc = 1) : ∃ L, L < n ∧ InsertionLevel n x.siblings L ∧
      x.root = climb H (bitsFrom x.key 0 L) (siblingsFrom x.siblings 0 L) (startOf H x) ∧
      (∀ q ∈ climbQueries H (bitsFrom x.key 0 L) (siblingsFrom x.siblings 0 L) (startOf H x),
        q ∈ queries n x w) ∧
      (x.isOld0 = 1 ∨ x.oldKey ≠ x.key) := by
  obtain ⟨L, below, level, states⟩ := sat.exists_states lib enabled fnc
  obtain ⟨root, logged⟩ := sat.levelRoot_eq lib below states L 0 (Nat.zero_add L)
  have equal := (lib.forceEqualIfEnabled _ _ _).mp sat.checkRoot (by rw [enabled]; exact one_ne_zero)
  refine ⟨L, below, level, by rw [← equal, root], logged, ?_⟩
  have keysOk := (lib.multiAnd _ _).mp sat.multiAnd
  rw [sat.keysOk, (lib.isEqual _ _ _).mp sat.areKeyEquals, enabled, fnc] at keysOk
  by_cases same : x.oldKey = x.key
  · left
    rw [if_pos same] at keysOk
    simp only [List.prod_cons, List.prod_nil, mul_one, one_mul] at keysOk
    exact (sub_eq_zero.mp keysOk.symm).symm
  · exact Or.inr same

end Satisfied

section Completeness

def rootAt (H : Hasher) (x : Inputs) (L i : Nat) : Fr :=
  if i ≤ L then climb H (bitsFrom x.key i (L - i)) (siblingsFrom x.siblings i (L - i)) (startOf H x)
  else 0

def honest (H : Hasher) (n : Nat) (x : Inputs) (L : Nat) : Signals where
  hash1Old := H.hash2 x.oldKey x.oldValue 1
  hash1New := H.hash2 x.key x.value 1
  n2bOld i := if x.oldKey.val.testBit i then 1 else 0
  n2bNew i := if x.key.val.testBit i then 1 else 0
  levIns i := if i = L then 1 else 0
  sm := stateAt x.isOld0 L
  levels i :=
    let child := if i = n - 1 then 0 else rootAt H x L (i + 1)
    let outL := if x.key.val.testBit i then x.siblings i else child
    let outR := if x.key.val.testBit i then child else x.siblings i
    { outL := outL, outR := outR, proofHash := H.compress outL outR, root := rootAt H x L i }
  areKeyEquals := if x.oldKey = x.key then 1 else 0
  keysOk := 0

theorem honest_root (H : Hasher) {n : Nat} (x : Inputs) {L i : Nat} (below : L < n) :
    ((honest H n x L).levels i).root =
      ((honest H n x L).levels i).proofHash * ((honest H n x L).sm i).top +
        (honest H n x L).hash1Old * ((honest H n x L).sm i).iold +
        (honest H n x L).hash1New * ((honest H n x L).sm i).inew := by
  rcases Nat.lt_trichotomy i L with before | here | after
  · simp only [honest, stateAt_before before, mul_one, mul_zero, add_zero]
    have next : rootAt H x L (i + 1) = climb H (bitsFrom x.key (i + 1) (L - (i + 1)))
        (siblingsFrom x.siblings (i + 1) (L - (i + 1))) (startOf H x) := if_pos before
    rw [if_neg (show ¬i = n - 1 by omega), next, rootAt, if_pos (show i ≤ L by omega),
      show L - i = (L - (i + 1)) + 1 by omega, climb_succ]
    cases x.key.val.testBit i <;> rfl
  · subst here
    simp only [honest, stateAt_here, mul_zero, zero_add, add_zero]
    rw [rootAt, if_pos (Nat.le_refl i), Nat.sub_self, climb_zero, startOf]
  · simp only [honest, stateAt_after after, mul_zero, add_zero]
    rw [rootAt, if_neg (by omega)]

theorem bits_strict (lib : C.Published) (key : Fr) :
    C.num2BitsStrict key (fun i => if key.val.testBit i then 1 else 0) := by
  have below := ZMod.val_lt key
  have bound := bn256Modulus_lt
  have fits : key.val < 2 ^ 254 := by omega
  obtain ⟨bits, value⟩ := bits_of_digits fits
  exact (lib.num2BitsStrict _ _).mpr ⟨bits, by rw [value]; exact below⟩

theorem honest_satisfied (lib : C.Published) (H : Hasher) {n : Nat} (compiles : 2 ≤ n ∧ n ≤ 254)
    {x : Inputs} (enabled : x.enabled = 1) (fnc : x.fnc = 1) {L : Nat} (below : L < n)
    (level : InsertionLevel n x.siblings L)
    (root : x.root = climb H (bitsFrom x.key 0 L) (siblingsFrom x.siblings 0 L) (startOf H x))
    (keys : x.isOld0 = 1 ∨ x.oldKey ≠ x.key) : Satisfied C H n x (honest H n x L) where
  compiles := compiles
  hash1Old := rfl
  hash1New := rfl
  n2bOld := bits_strict lib x.oldKey
  n2bNew := bits_strict lib x.key
  levIns := by
    rw [enabled, lib.smtLevIns n compiles.1]
    refine ⟨level.1 (n - 1) (by omega) (by omega), fun i small => ?_⟩
    by_cases here : i = L
    · exact Or.inl ⟨here ▸ level, if_pos here⟩
    · exact Or.inr ⟨fun other => here (insertionLevel_unique small below other level), if_neg here⟩
  smFirst := by
    rw [enabled, fnc]
    exact (stateAt_zero lib x.isOld0 L _).mpr rfl
  smNext i _ := by
    rw [fnc]
    exact (stateAt_succ lib x.isOld0 L i _).mpr rfl
  smLast := by
    by_cases here : n - 1 = L
    · simp [honest, here, stateAt_here]
    · simp [honest, stateAt_after (show L < n - 1 by omega)]
  level i small := by
    constructor
    · rw [lib.switcher]
      simp only [honest]
      generalize (if i = n - 1 then 0 else rootAt H x L (i + 1)) = child
      cases turn : x.key.val.testBit i <;> simp
    · rfl
    · exact honest_root H x below
  areKeyEquals := (lib.isEqual _ _ _).mpr rfl
  multiAnd := by
    rw [lib.multiAnd]
    rcases keys with isOld0 | different
    · simp [honest, isOld0]
    · simp [honest, different]
  keysOk := rfl
  checkRoot := by
    rw [lib.forceEqualIfEnabled]
    intro _
    rw [root]
    rfl

end Completeness

end SMTVerifier

end PrivatePayments.Circuits
