import PrivatePayments.Library.RingBuffer
import PrivatePayments.Merkle.Reference
import PrivatePayments.Soroban.Triple

/-!
`MerkleTreeWithHistory`: the commitment tree of the pool, filled two leaves at a time,
and the ring of its recent roots.
-/

namespace PrivatePayments.Pool.MerkleTreeWithHistory
open Bn254 Poseidon2 Soroban Library FullTree Merkle

def rootHistorySize : Nat := 90

inductive Error where
  | alreadyInitialized
  | wrongLevels
  | merkleTreeFull
  | nextIndexNotEven
  | notInitialized
  | overflow
  deriving DecidableEq

structure Storage where
  tree : Tree
  currentRootIndex : Option Nat
  roots : Nat → Option U256

namespace Storage

def setTree (t : Tree) (s : Storage) : Storage := { s with tree := t }

def setRoot (s : Storage) (i : Nat) (root : U256) : Storage :=
  { s with currentRootIndex := some i, roots := Function.update s.roots i (some root) }

def setNextIndex (s : Storage) (next : Nat) : Storage :=
  { s with tree := { s.tree with nextIndex := some next } }

def empty : Storage where
  tree := { levels := none, nextIndex := none, filledSubtrees := fun _ => none, zeroes := fun _ => none }
  currentRootIndex := none
  roots _ := none

end Storage

abbrev Contract := Host Storage Error

def init (levels : Nat) : Contract Unit := do
  if levels = 0 ∨ 32 < levels then Host.fail .wrongLevels
  else if (← Host.storage).currentRootIndex.isSome then Host.fail .alreadyInitialized
  else
    let root0 ← Host.okOr getZeroes[levels]? .notInitialized
    Host.update fun s => (s.setTree (Tree.initial levels)).setRoot 0 root0

/-- `u32::try_from`. -/
def tryU32 (n : Nat) : Option Nat := if n < 2 ^ 32 then some n else none

def insertTwoLeaves (H : Hasher) (leaf1 leaf2 : U256) : Contract (Nat × Nat) := do
  let store ← Host.storage
  let levels ← Host.okOr store.tree.levels .notInitialized
  let nextIndex ← Host.okOr store.tree.nextIndex .notInitialized
  let rootIndex ← Host.okOr store.currentRootIndex .notInitialized
  let maxLeaves ← Host.okOr (maxLeaves levels) .wrongLevels
  if nextIndex % 2 ≠ 0 then Host.fail .nextIndexNotEven
  else
    let filled ← Host.okOr (checkedAdd 64 nextIndex 2) .overflow
    if maxLeaves < filled then Host.fail .merkleTreeFull
    else
      let parent ← Host.poseidon2Compress H leaf1 leaf2
      let climb ← Host.zoom (·.tree) Storage.setTree id
        (climbLevels H .notInitialized 1 levels (nextIndex / 2) parent)
      let rootIndex ← Host.okOr (checkedAdd 32 rootIndex 1) .overflow
      Host.update (·.setRoot (rootIndex % rootHistorySize) climb.currentHash)
      let next ← Host.okOr (checkedAdd 64 nextIndex 2) .overflow
      Host.update (·.setNextIndex next)
      let left ← Host.okOr (tryU32 nextIndex) .merkleTreeFull
      let after ← Host.okOr (checkedAdd 64 nextIndex 1) .overflow
      let right ← Host.okOr (tryU32 after) .merkleTreeFull
      return (left, right)

/-- The `loop` of `is_known_root`, at the slot `i`, for at most `fuel` turns. -/
def searchRoots (roots : Nat → Option U256) (root : U256) (current : Nat) :
    Nat → Nat → Option (Except Error Bool)
  | 0, _ => none
  | fuel + 1, i =>
      if roots i = some root then some (.ok true)
      else
        match checkedAdd 32 i 1 with
        | none => some (.error .overflow)
        | some next =>
            if next % rootHistorySize = current then some (.ok false)
            else searchRoots roots root current fuel (next % rootHistorySize)

/-- A search that did not end would use up the budget of the invocation. -/
def isKnownRoot (root : U256) : Contract Bool := do
  if root = 0 then return false
  else
    let store ← Host.storage
    let current ← Host.okOr store.currentRootIndex .notInitialized
    match searchRoots store.roots root current rootHistorySize current with
    | none => throw .trap
    | some result => Host.lift result

def getLastRoot : Contract U256 := do
  let store ← Host.storage
  let current ← Host.okOr store.currentRootIndex .notInitialized
  Host.okOr (store.roots current) .notInitialized

def deployed (levels : Nat) : Env Storage :=
  Host.invoke (init levels) { storage := Storage.empty, hashed := [] }

/-- A run, with the leaves inserted and the indices returned by the calls that succeeded. -/
structure Progress where
  env : Env Storage
  leaves : List U256
  indices : List Nat

def advance (H : Hasher) (p : Progress) (call : U256 × U256) : Progress :=
  match (insertTwoLeaves H call.1 call.2).run p.env with
  | .ok ((i, j), next) =>
      { env := next, leaves := p.leaves ++ [call.1, call.2], indices := p.indices ++ [i, j] }
  | .error _ => p

def run (H : Hasher) (levels : Nat) (calls : List (U256 × U256)) : Progress :=
  calls.foldl (advance H) { env := deployed levels, leaves := [], indices := [] }

/-- Leaves in pairs: the tree from the first level up. -/
abbrev pairAt (H : Hasher) (leaves : List Fr) : Nat → Fr := node H.compress (leafAt leaves) 1

abbrev rootOf (H : Hasher) (levels : Nat) (leaves : List Fr) : Fr :=
  node H.compress (leafAt leaves) levels 0

structure Holds (H : Hasher) (levels : Nat) (leaves : List Fr) (s : Storage) : Prop where
  isLevels : s.tree.levels = some levels
  isNextIndex : s.tree.nextIndex = some leaves.length
  even : leaves.length % 2 = 0
  room : leaves.length ≤ 2 ^ levels
  ready : Ready H 1 levels (leaves.length / 2) (pairAt H leaves) s.tree
  newest : ∃ current, current < rootHistorySize ∧ s.currentRootIndex = some current ∧
    s.roots current = some (toU256 (rootOf H levels leaves))

section Insert

variable {H : Hasher} {levels : Nat} {leaves : List Fr}

theorem pairAt_extends (chain : Chain H.compress zeroAt 32) (even : leaves.length % 2 = 0) (a b : Fr) :
    Extends (pairAt H leaves) (pairAt H (leaves ++ [a, b])) (leaves.length / 2) (zeroFrom 1 0) where
  before i low := by
    have left : leafAt (leaves ++ [a, b]) (2 * i) = leafAt leaves (2 * i) := by
      unfold leafAt
      rw [List.getD_append _ _ _ _ (by omega)]
    have right : leafAt (leaves ++ [a, b]) (2 * i + 1) = leafAt leaves (2 * i + 1) := by
      unfold leafAt
      rw [List.getD_append _ _ _ _ (by omega)]
    calc pairAt H (leaves ++ [a, b]) i
        = H.compress (leafAt (leaves ++ [a, b]) (2 * i)) (leafAt (leaves ++ [a, b]) (2 * i + 1)) := rfl
      _ = pairAt H leaves i := by
          rw [left, right]
          rfl
  after i high := by
    have beyond (j : Nat) (far : leaves.length + 2 ≤ j) : leafAt (leaves ++ [a, b]) j = zeroAt 0 := by
      unfold leafAt
      rw [List.getD_eq_default _ _ (by simpa using far)]
    calc pairAt H (leaves ++ [a, b]) i
        = H.compress (leafAt (leaves ++ [a, b]) (2 * i)) (leafAt (leaves ++ [a, b]) (2 * i + 1)) := rfl
      _ = H.compress (zeroAt 0) (zeroAt 0) := by rw [beyond _ (by omega), beyond _ (by omega)]
      _ = zeroFrom 1 0 := (chain 0 (by decide)).symm

theorem pairAt_length (even : leaves.length % 2 = 0) (a b : Fr) :
    pairAt H (leaves ++ [a, b]) (leaves.length / 2) = H.compress a b := by
  have left : leafAt (leaves ++ [a, b]) (2 * (leaves.length / 2)) = a := by
    rw [show 2 * (leaves.length / 2) = leaves.length by omega]
    simp [leafAt]
  have right : leafAt (leaves ++ [a, b]) (2 * (leaves.length / 2) + 1) = b := by
    rw [show 2 * (leaves.length / 2) = leaves.length by omega]
    simp [leafAt]
  calc pairAt H (leaves ++ [a, b]) (leaves.length / 2)
      = H.compress (leafAt (leaves ++ [a, b]) (2 * (leaves.length / 2)))
          (leafAt (leaves ++ [a, b]) (2 * (leaves.length / 2) + 1)) := rfl
    _ = H.compress a b := by rw [left, right]

theorem chain_from (chain : Chain H.compress zeroAt 32) (bounded : levels ≤ 32) :
    Chain H.compress (zeroFrom 1) (levels - 1) := by
  intro k low
  exact chain (1 + k) (by omega)

theorem rootOf_eq_pairs (positive : 0 < levels) (leaves : List Fr) :
    rootOf H levels leaves = node H.compress (pairAt H leaves) (levels - 1) 0 := by
  rw [node_node, Nat.add_sub_cancel' positive]

variable {env : Env Storage} {a b : Fr}

/-- A successful insertion: the tree has the two leaves more, and the new root has taken the next
slot of the ring. -/
structure Inserted (H : Hasher) (levels : Nat) (leaves : List Fr) (a b : Fr) (env next : Env Storage) :
    Prop where
  holds : Holds H levels (leaves ++ [a, b]) next.storage
  ring : ∃ current, env.storage.currentRootIndex = some current ∧
    next.storage.currentRootIndex = some ((current + 1) % rootHistorySize) ∧
    next.storage.roots = Function.update env.storage.roots ((current + 1) % rootHistorySize)
      (some (toU256 (rootOf H levels (leaves ++ [a, b]))))
  grows : ∀ q ∈ env.hashed, q ∈ next.hashed
  loggedPair : .compress a b ∈ next.hashed
  logged : ∀ j, j < levels - 1 →
    .compress (node H.compress (pairAt H (leaves ++ [a, b])) j (2 * (leaves.length / 2 / 2 ^ (j + 1))))
      (node H.compress (pairAt H (leaves ++ [a, b])) j (2 * (leaves.length / 2 / 2 ^ (j + 1)) + 1)) ∈
        next.hashed

theorem maxLeaves_eq (bounded : levels ≤ 32) : maxLeaves levels = some (2 ^ levels) :=
  if_pos (by omega)

theorem checkedAdd_eq {width a b : Nat} (fits : a + b < 2 ^ width) :
    checkedAdd width a b = some (a + b) := if_pos fits

theorem two_pow_le (bounded : levels ≤ 32) : 2 ^ levels ≤ 2 ^ 32 :=
  Nat.pow_le_pow_right (by decide) bounded

theorem run_insertTwoLeaves_full (bounded : levels ≤ 32) (holds : Holds H levels leaves env.storage)
    (full : 2 ^ levels < leaves.length + 2) (leaf1 leaf2 : U256) :
    (insertTwoLeaves H leaf1 leaf2).run env = .error (.error .merkleTreeFull) := by
  obtain ⟨current, -, isCurrent, -⟩ := holds.newest
  have room := holds.room
  have small := two_pow_le bounded
  have filled : checkedAdd 64 leaves.length 2 = some (leaves.length + 2) := checkedAdd_eq (by omega)
  simp only [insertTwoLeaves, StateT.run_bind, Host.run_storage, ok_bind, holds.isLevels,
    holds.isNextIndex, isCurrent, Host.run_okOr_some, maxLeaves_eq bounded, holds.even, ne_eq,
    not_true_eq_false, if_false, filled, full, if_true, Host.run_fail]

theorem run_insertTwoLeaves_trap (bounded : levels ≤ 32) (holds : Holds H levels leaves env.storage)
    (room : leaves.length + 2 ≤ 2 ^ levels) {leaf1 leaf2 : U256}
    (outside : ¬(Canonical leaf1 ∧ Canonical leaf2)) :
    (insertTwoLeaves H leaf1 leaf2).run env = .error .trap := by
  obtain ⟨current, -, isCurrent, -⟩ := holds.newest
  have small := two_pow_le bounded
  have filled : checkedAdd 64 leaves.length 2 = some (leaves.length + 2) := checkedAdd_eq (by omega)
  have large : bn256Modulus ≤ leaf1.toNat ∨ bn256Modulus ≤ leaf2.toNat := by
    rw [← Nat.not_lt, ← Nat.not_lt, ← not_and_or]
    exact outside
  have traps : (Host.poseidon2Compress H leaf1 leaf2 : Contract U256).run env = .error .trap := by
    rw [Host.poseidon2Compress, if_pos large]
    rfl
  simp only [insertTwoLeaves, StateT.run_bind, Host.run_storage, ok_bind, holds.isLevels,
    holds.isNextIndex, isCurrent, Host.run_okOr_some, maxLeaves_eq bounded, holds.even, ne_eq,
    not_true_eq_false, if_false, filled, Nat.not_lt.mpr room, traps, error_bind]

theorem run_insertTwoLeaves (chain : Chain H.compress zeroAt 32) (positive : 0 < levels)
    (bounded : levels ≤ 32) (holds : Holds H levels leaves env.storage)
    (room : leaves.length + 2 ≤ 2 ^ levels) (a b : Fr) :
    ∃ next, (insertTwoLeaves H (toU256 a) (toU256 b)).run env =
        .ok ((leaves.length, leaves.length + 1), next) ∧
      Inserted H levels leaves a b env next := by
  obtain ⟨current, low, isCurrent, -⟩ := holds.newest
  have small := two_pow_le bounded
  have filled : checkedAdd 64 leaves.length 2 = some (leaves.length + 2) := checkedAdd_eq (by omega)
  have after : checkedAdd 64 leaves.length 1 = some (leaves.length + 1) := checkedAdd_eq (by omega)
  have turn : checkedAdd 32 current 1 = some (current + 1) :=
    checkedAdd_eq (by simp only [rootHistorySize] at low; omega)
  have left : tryU32 leaves.length = some leaves.length := if_pos (by omega)
  have right : tryU32 (leaves.length + 1) = some (leaves.length + 1) := if_pos (by omega)
  have extend := pairAt_extends chain holds.even a b
  have ready : Ready H 1 levels (leaves.length / 2) (pairAt H leaves)
      ({ storage := env.storage.tree, hashed := .compress a b :: env.hashed } : Env Tree).storage := holds.ready
  obtain ⟨climb, now, climbed, inv⟩ := run_climbLevels (chain_from chain bounded) extend ready Error.notInitialized
  rw [pairAt_length holds.even] at climbed
  have zoomed : (Host.zoom (·.tree) Storage.setTree id
      (climbLevels H .notInitialized 1 levels (leaves.length / 2) (toU256 (H.compress a b))) :
        Contract Climb).run (env.logged (.compress a b)) = .ok (climb,
          { storage := env.storage.setTree now.storage, hashed := now.hashed }) :=
    Host.run_zoom_ok climbed
  have half : leaves.length / 2 < 2 ^ (levels - 1) := by
    have double : 2 ^ levels = 2 * 2 ^ (levels - 1) := by
      rw [← pow_succ', Nat.sub_add_cancel positive]
    omega
  have isRoot : climb.currentHash = toU256 (rootOf H levels (leaves ++ [a, b])) := by
    rw [inv.root half, rootOf_eq_pairs positive]
  refine ⟨{ storage := ((env.storage.setTree now.storage).setRoot ((current + 1) % rootHistorySize)
      climb.currentHash).setNextIndex (leaves.length + 2), hashed := now.hashed }, ?_, ?_⟩
  · simp only [insertTwoLeaves, StateT.run_bind, Host.run_storage, ok_bind, holds.isLevels,
      holds.isNextIndex, isCurrent, Host.run_okOr_some, maxLeaves_eq bounded, holds.even, ne_eq,
      not_true_eq_false, if_false, filled, Nat.not_lt.mpr room, Host.run_poseidon2Compress, zoomed,
      turn, Host.run_update, left, after, right, Host.run_pure]
    rfl
  · have ready := inv.ready extend holds.ready
    have length : (leaves ++ [a, b]).length = leaves.length + 2 := by simp
    have next : (leaves ++ [a, b]).length / 2 = leaves.length / 2 + 1 := by
      rw [length]
      omega
    constructor
    · constructor
      · simp only [Storage.setNextIndex, Storage.setRoot, Storage.setTree]
        rw [inv.others]
        exact holds.isLevels
      · simp only [Storage.setNextIndex, length]
      · have even := holds.even
        rw [length]
        omega
      · rw [length]
        exact room
      · rw [next]
        exact ⟨ready.frontier, ready.zeroes⟩
      · refine ⟨(current + 1) % rootHistorySize, Nat.mod_lt _ (by decide), rfl, ?_⟩
        simp [Storage.setNextIndex, Storage.setRoot, isRoot]
    · refine ⟨current, isCurrent, rfl, ?_⟩
      simp only [Storage.setNextIndex, Storage.setRoot, Storage.setTree, isRoot]
    · exact fun q member => inv.grows q (List.mem_cons_of_mem _ member)
    · exact inv.grows _ (List.mem_cons_self ..)
    · exact inv.logged

end Insert

/-- A deployment whose level count `init` admits. -/
abbrev Admitted (levels : Nat) : Prop :=
  Host.Succeeds (init levels) { storage := Storage.empty, hashed := [] }

theorem run_init {levels : Nat} (positive : 0 < levels) (bounded : levels ≤ 32) :
    (init levels).run { storage := Storage.empty, hashed := [] } = .ok ((),
      { storage := (Storage.empty.setTree (Tree.initial levels)).setRoot 0 (toU256 (zeroAt levels)),
        hashed := [] }) := by
  have zeros := getZeroes_get bounded
  have admits : ¬(levels = 0 ∨ 32 < levels) := by omega
  simp only [init, admits, if_false, StateT.run_bind, Host.run_storage, ok_bind, Storage.empty,
    Option.isSome_none, Bool.false_eq_true, zeros, Host.run_okOr_some, Host.run_update]
  rfl

theorem admitted_iff {levels : Nat} : Admitted levels ↔ 0 < levels ∧ levels ≤ 32 := by
  constructor
  · intro admitted
    by_contra outside
    have refuses : levels = 0 ∨ 32 < levels := by omega
    refine Host.not_succeeds_of_error (f := .error .wrongLevels) ?_ admitted
    simp only [init, refuses, if_true, Host.run_fail]
  · rintro ⟨positive, bounded⟩
    exact Host.succeeds_of_ok (run_init positive bounded)

/-- The roots that were current one after the other: of no leaves, of two, and so on. -/
def producedRoots (H : Hasher) (levels : Nat) (leaves : List Fr) : List U256 :=
  (List.range (leaves.length / 2 + 1)).map fun n => toU256 (rootOf H levels (leaves.take (2 * n)))

theorem length_producedRoots (H : Hasher) (levels : Nat) (leaves : List Fr) :
    (producedRoots H levels leaves).length = leaves.length / 2 + 1 := by
  simp [producedRoots]

theorem producedRoots_append (H : Hasher) (levels : Nat) {leaves : List Fr}
    (even : leaves.length % 2 = 0) (a b : Fr) :
    producedRoots H levels (leaves ++ [a, b]) =
      producedRoots H levels leaves ++ [toU256 (rootOf H levels (leaves ++ [a, b]))] := by
  have length : (leaves ++ [a, b]).length / 2 + 1 = leaves.length / 2 + 1 + 1 := by
    rw [List.length_append]
    simp only [List.length_cons, List.length_nil]
    omega
  unfold producedRoots
  rw [length, List.range_succ, List.map_append, List.map_singleton]
  congr 1
  · refine List.map_congr_left fun n low => ?_
    rw [List.mem_range] at low
    rw [List.take_append_of_le_length (by omega)]
  · rw [List.take_of_length_le (by simp; omega)]

structure Good (H : Hasher) (levels : Nat) (p : Progress) : Prop where
  canonical : ∀ leaf ∈ p.leaves, Canonical leaf
  holds : Holds H levels (p.leaves.map ofU256) p.env.storage
  indices : p.indices = List.range p.leaves.length
  current : p.env.storage.currentRootIndex = some (p.leaves.length / 2 % rootHistorySize)
  ring : RingBuffer.Ring rootHistorySize (producedRoots H levels (p.leaves.map ofU256))
    p.env.storage.roots

section Run

variable {H : Hasher} {levels : Nat} {p : Progress}

theorem good_deployed (chain : Chain H.compress zeroAt 32) (positive : 0 < levels)
    (bounded : levels ≤ 32) : Good H levels { env := deployed levels, leaves := [], indices := [] } := by
  have root : rootOf H levels [] = zeroAt levels :=
    node_padding chain bounded fun i _ => rfl
  have storage : deployed levels =
      { storage := (Storage.empty.setTree (Tree.initial levels)).setRoot 0 (toU256 (zeroAt levels)),
        hashed := [] } := Host.invoke_ok (run_init positive bounded)
  rw [storage]
  refine ⟨by simp, ?_, rfl, by simp [Storage.setRoot, rootHistorySize], ?_⟩
  · refine ⟨rfl, rfl, rfl, Nat.zero_le _, ?_, 0, by decide, rfl, ?_⟩
    · simp only [List.map_nil, List.length_nil, Nat.zero_div]
      exact ready_initial bounded 1 _
    rw [List.map_nil, root]
    simp [Storage.setRoot]
  · have produced : producedRoots H levels [] = [toU256 (zeroAt levels)] := by
      simp [producedRoots, root]
    rw [List.map_nil, produced]
    exact RingBuffer.ring_singleton rootHistorySize _

theorem Good.advance (good : Good H levels p) (chain : Chain H.compress zeroAt 32)
    (positive : 0 < levels) (bounded : levels ≤ 32) (call : U256 × U256) :
    Good H levels (MerkleTreeWithHistory.advance H p call) := by
  have length : (p.leaves.map ofU256).length = p.leaves.length := List.length_map ..
  unfold MerkleTreeWithHistory.advance
  by_cases room : (p.leaves.map ofU256).length + 2 ≤ 2 ^ levels
  · by_cases inside : Canonical call.1 ∧ Canonical call.2
    · obtain ⟨next, returned, inserted⟩ := run_insertTwoLeaves chain positive bounded good.holds room
        (ofU256 call.1) (ofU256 call.2)
      rw [toU256_ofU256 inside.1, toU256_ofU256 inside.2] at returned
      rw [returned]
      have leaves : (p.leaves ++ [call.1, call.2]).map ofU256 =
          p.leaves.map ofU256 ++ [ofU256 call.1, ofU256 call.2] := by simp
      have even := good.holds.even
      rw [length] at even
      obtain ⟨current, isCurrent, next', roots⟩ := inserted.ring
      rw [good.current, Option.some.injEq] at isCurrent
      have slot : (current + 1) % rootHistorySize = (p.leaves.length / 2 + 1) % rootHistorySize := by
        rw [← isCurrent, Nat.mod_add_mod]
      refine ⟨?_, leaves ▸ inserted.holds, ?_, ?_, ?_⟩
      · intro leaf member
        rcases List.mem_append.mp member with older | added
        · exact good.canonical leaf older
        · rcases List.mem_cons.mp added with rfl | added
          · exact inside.1
          · rw [List.mem_singleton.mp added]
            exact inside.2
      · simp only [good.indices, length, List.length_append, List.length_cons, List.length_nil]
        rw [List.range_succ, List.range_succ, List.append_assoc]
        rfl
      · simp only [next', slot, List.length_append, List.length_cons, List.length_nil]
        congr 2
        omega
      · have pushed := good.ring.push (toU256 (rootOf H levels (p.leaves.map ofU256 ++
          [ofU256 call.1, ofU256 call.2])))
        rw [length_producedRoots, length, ← slot] at pushed
        simp only [leaves, roots]
        rw [producedRoots_append H levels good.holds.even]
        exact pushed
    · rw [run_insertTwoLeaves_trap bounded good.holds room inside]
      exact good
  · rw [run_insertTwoLeaves_full bounded good.holds (by omega)]
    exact good

theorem run_concat (H : Hasher) (levels : Nat) (calls : List (U256 × U256)) (call : U256 × U256) :
    run H levels (calls ++ [call]) = MerkleTreeWithHistory.advance H (run H levels calls) call := by
  unfold run
  rw [List.foldl_append]
  rfl

theorem good_run (chain : Chain H.compress zeroAt 32) (positive : 0 < levels) (bounded : levels ≤ 32)
    (calls : List (U256 × U256)) : Good H levels (run H levels calls) := by
  induction calls using List.reverseRecOn with
  | nil => exact good_deployed chain positive bounded
  | append_singleton calls call ih =>
    rw [run_concat]
    exact ih.advance chain positive bounded call

theorem leaves_concat (chain : Chain H.compress zeroAt 32) (positive : 0 < levels) (bounded : levels ≤ 32)
    {calls : List (U256 × U256)} (fits : (run H levels calls).leaves.length + 2 ≤ 2 ^ levels) (a b : Fr) :
    (run H levels (calls ++ [(toU256 a, toU256 b)])).leaves = (run H levels calls).leaves ++ [toU256 a, toU256 b] := by
  have good := good_run chain positive bounded calls
  rw [← List.length_map (f := ofU256)] at fits
  obtain ⟨next, returned, -⟩ := run_insertTwoLeaves chain positive bounded good.holds fits a b
  rw [run_concat, MerkleTreeWithHistory.advance, returned]

theorem Good.getLastRoot (good : Good H levels p) :
    Host.value? MerkleTreeWithHistory.getLastRoot p.env =
      some (toU256 (rootOf H levels (p.leaves.map ofU256))) := by
  obtain ⟨current, -, isCurrent, newest⟩ := good.holds.newest
  rw [Host.value?_eq_some]
  refine ⟨p.env, ?_⟩
  simp only [MerkleTreeWithHistory.getLastRoot, StateT.run_bind, Host.run_storage, ok_bind,
    isCurrent, Host.run_okOr_some, newest]

end Run

/-- After any calls on an admitted deployment the newest root is the reference root of the leaves
inserted in order and padded with zero leaves, and the indices returned are consecutive from zero.
A call is refused for lack of room iff fewer than two leaves are free, and then changes nothing;
with room, field elements are inserted at the next two indices. -/
theorem insert_two_leaves_tree {levels : Nat} (admitted : Admitted levels) (calls : List (U256 × U256)) :
    (∃ root, merkleRoot poseidon2
        (padLeaves levels ((run poseidon2 levels calls).leaves.map ofU256)) = some root ∧
      Host.value? getLastRoot (run poseidon2 levels calls).env = some (toU256 root)) ∧
    (∀ leaf ∈ (run poseidon2 levels calls).leaves, Canonical leaf) ∧
    (run poseidon2 levels calls).indices = List.range (run poseidon2 levels calls).leaves.length ∧
    (∀ leaf1 leaf2, (insertTwoLeaves poseidon2 leaf1 leaf2).run (run poseidon2 levels calls).env =
        .error (.error .merkleTreeFull) ↔
      2 ^ levels - (run poseidon2 levels calls).leaves.length < 2) ∧
    (∀ call, 2 ^ levels - (run poseidon2 levels calls).leaves.length < 2 →
      run poseidon2 levels (calls ++ [call]) = run poseidon2 levels calls) ∧
    (∀ a b : Fr, 2 ≤ 2 ^ levels - (run poseidon2 levels calls).leaves.length →
      (run poseidon2 levels (calls ++ [(toU256 a, toU256 b)])).leaves =
        (run poseidon2 levels calls).leaves ++ [toU256 a, toU256 b]) := by
  obtain ⟨positive, bounded⟩ := admitted_iff.mp admitted
  have good := good_run zeroAt_chain positive bounded calls
  have length : ((run poseidon2 levels calls).leaves.map ofU256).length =
      (run poseidon2 levels calls).leaves.length := List.length_map ..
  have room := good.holds.room
  refine ⟨⟨_, merkleRoot_padLeaves poseidon2 good.holds.room, good.getLastRoot⟩, good.canonical,
    good.indices, ?_, ?_, ?_⟩
  · intro leaf1 leaf2
    constructor
    · intro refused
      by_contra free
      have fits : ((run poseidon2 levels calls).leaves.map ofU256).length + 2 ≤ 2 ^ levels := by omega
      by_cases inside : Canonical leaf1 ∧ Canonical leaf2
      · obtain ⟨next, returned, -⟩ := run_insertTwoLeaves zeroAt_chain positive bounded good.holds fits
          (ofU256 leaf1) (ofU256 leaf2)
        rw [toU256_ofU256 inside.1, toU256_ofU256 inside.2, refused] at returned
        cases returned
      · rw [run_insertTwoLeaves_trap bounded good.holds fits inside] at refused
        cases refused
    · intro full
      exact run_insertTwoLeaves_full bounded good.holds (by omega) leaf1 leaf2
  · intro call full
    rw [run_concat, advance, run_insertTwoLeaves_full bounded good.holds (by omega)]
  · intro a b free
    exact leaves_concat zeroAt_chain positive bounded (by omega) a b

theorem insert_two_leaves_tree_sample :
    ∃ root, merkleRoot poseidon2 [1, 2, zeroAt 0, zeroAt 0] = some root ∧
      Host.value? getLastRoot (run poseidon2 2 [(1, 2)]).env = some (toU256 root) := by
  obtain ⟨⟨root, isRoot, newest⟩, -⟩ :=
    insert_two_leaves_tree (admitted_iff.mpr (by decide) : Admitted 2) [(1, 2)]
  refine ⟨root, ?_, newest⟩
  have padded : padLeaves 2 ((run poseidon2 2 [(1, 2)]).leaves.map ofU256) =
      [1, 2, zeroAt 0, zeroAt 0] := by decide +kernel
  rw [← padded]
  exact isRoot

end PrivatePayments.Pool.MerkleTreeWithHistory
