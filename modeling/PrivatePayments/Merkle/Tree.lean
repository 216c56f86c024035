import Mathlib.Data.List.GetD
import PrivatePayments.Library.FullTree
import PrivatePayments.Poseidon2.Permutation
import PrivatePayments.Soroban.Host

/-!
The incremental Merkle tree both contracts keep: the table of zero hashes and the loop
that climbs from a new node to the root.
-/

namespace PrivatePayments.Merkle
open Bn254 Poseidon2 Soroban Library FullTree

def getZeroes : List U256 :=
  [0x25302288db99350344974183ce310d63b53abb9ef0f8575753eed36e0118f9ce,
   0x21f4ea2492ade006a8ee7fb764060a95a4eef5ca931e037bcdf05fc28067d008,
   0x0ebfb4d2f05bb6a473c9bff72586fec806f1ac237015c570d7c78249cf7d7740,
   0x066882a5dab186d4d63fa6600f9ea3d5cdfef2a2811c89731128a729d7e8b897,
   0x065db3148d8da5329beaec5042785c69f2ce0709e26d468bda1e255c599b5686,
   0x19926faa23b0737d467f9476f0f84b2968ff6666e16a23e4d44898f884504764,
   0x287c485a72ccc8d4d80692d97eb62c164953a0422791f6af6214a9a7ad2279c0,
   0x1f729e103e7d415f728dc945e3b6e2c40ac0cb369e532ba50a569790cdde2acc,
   0x1887e71f92217ffe86620e6ea5a71ad3521fade4c83203ffa3e838fe3d6e7203,
   0x295aa78e56c7a09a864f2f4175100095f3e7b9ef2a911af87cb0f3f7eef27700,
   0x0517032a796b0340dc5f9df28b1fd320daba24d5a45335a137167300ee368828,
   0x15fadf4947d2a40c7b439e83ea3c979ff725aad11c47aaaf892aab413db2dcdd,
   0x00acb7236b6d87f4875b3b9d1720a9e0682c70e4bc6d54edf61faa2bc93841d6,
   0x09836dd9054d560ae60ea6a8033404b3e40309f6ee4d170acb92e6667e86c775,
   0x2198946b17f9ba035d7ee728741ca5f4e5875cb6afb29684a6f5f9a82feec482,
   0x15d4b16830604dbe0b3212e31f9574787c15b0f54e5e24b080687e7a6ef6d455,
   0x2d07f73e04cf0a538037ba07561651ac979bb00e1705c75ddc9516ec4b8a6a76,
   0x02f8731aea289a6b401000487e8c6925c922407eeca58f2e18cc8ad9b6c5d13f,
   0x0a30053c1787c79782e60bc8d825e9e323c8a902f93aa5923c24d17d16db925c,
   0x0ea3058d9958ba5fe441fbd79dc968f449215ddee66146161afcf34c34bfa490,
   0x27b9937e47a65983ad50a5b7f6b9cf0542c91a8dfa1714cef89013438a06f9b7,
   0x2d347be4e547c5837c1b2172322628a0c48d668193196791b310674b0453c039,
   0x03f2461b35b892fc8c589706283d1083f4d2d66be4f97e461abaf2f06f89cffd,
   0x259b8fa0082cf6066f005a0a49006712fe1dcfef6a98d68f7ab445f88adb61a7,
   0x1980a5f7eac09daac7b2d2179ba1d970fb3f0213dd90613128f5d55863d84414,
   0x1cfcd94aabc23cacd4ccab22e87d2303200d09b03042b2047f03d2e0def57e85,
   0x102bdc81acbf8c52d35871a21ff27516ddbe6e31ef51740c49bd2ee2b1980c21,
   0x2fad84f388a263e714c7b39fb0dd24be6158b9e21480aa3a60778707889f76ad,
   0x2ace942d30becb369f1cfd025b5394d6ee4c97f55930048a18fb501128c87777,
   0x0930feccbf762a6b239acee2c369de9a31bd3e232c90c64af141945c1c415463,
   0x1a59e2ba55f1e829bca2c6316a9ccd08017d2e9bf532942c26d82365ca604b58,
   0x1a8e840c84e2fb5212d61f09ad5f91d6a70a83074e942772ef74b42d12a11f50,
   0x134b50df02e2ccb98b59af2c2c55d7a41ff102681730c42ba364dbff1271cf62]

def zeroAt (level : Nat) : Fr := ofU256 (getZeroes.getD level 0)

theorem getZeroes_eq : getZeroes = (List.range 33).map fun level => toU256 (zeroAt level) := by
  decide +kernel

theorem getZeroes_get {level : Nat} (low : level ≤ 32) :
    getZeroes[level]? = some (toU256 (zeroAt level)) := by
  rw [getZeroes_eq, List.getElem?_map, List.getElem?_range (by omega)]
  rfl

theorem zeroAt_chain : Chain poseidon2.compress zeroAt 32 := by
  have table : ∀ k ∈ List.range 32, zeroAt (k + 1) = poseidon2.compress (zeroAt k) (zeroAt k) := by
    decide +kernel
  exact fun k low => table k (List.mem_range.mpr low)

/-- The query for the leaf of an empty slot: the letters `XLM`. -/
def emptyLeaf : Query := .hash3 88 76 77 0

theorem answer_emptyLeaf : poseidon2.answer emptyLeaf = zeroAt 0 := by decide +kernel

structure Tree where
  levels : Option Nat
  nextIndex : Option Nat
  filledSubtrees : Nat → Option U256
  zeroes : Nat → Option U256

/-- What both constructors file. -/
def Tree.initial (levels : Nat) : Tree where
  levels := some levels
  nextIndex := some 0
  filledSubtrees lvl := if lvl ≤ levels then getZeroes[lvl]? else none
  zeroes lvl := if lvl ≤ levels then getZeroes[lvl]? else none

def Tree.setFilledSubtree (t : Tree) (lvl : Nat) (h : U256) : Tree :=
  { t with filledSubtrees := Function.update t.filledSubtrees lvl (some h) }

structure Climb where
  currentIndex : Nat
  currentHash : U256

variable {ε : Type}

def climbLevel (H : Hasher) (notInitialized : ε) (lvl : Nat) (vars : Climb) : Host Tree ε Climb := do
  let currentHash ←
    if vars.currentIndex % 2 = 1 then do
      let left ← Host.okOr ((← Host.storage).filledSubtrees lvl) notInitialized
      Host.poseidon2Compress H left vars.currentHash
    else do
      Host.update (·.setFilledSubtree lvl vars.currentHash)
      let zeroVal ← Host.okOr ((← Host.storage).zeroes lvl) notInitialized
      Host.poseidon2Compress H vars.currentHash zeroVal
  return { currentIndex := vars.currentIndex / 2, currentHash := currentHash }

def climbLevels (H : Hasher) (notInitialized : ε) (first levels index : Nat) (hash : U256) :
    Host Tree ε Climb :=
  Host.forUp (climbLevel H notInitialized) (levels - first) first
    { currentIndex := index, currentHash := hash }

/-- `1u64.checked_shl(levels)`. -/
def maxLeaves (levels : Nat) : Option Nat := if levels < 64 then some (2 ^ levels) else none

/-- `checked_add` at an unsigned type of the given width. -/
def checkedAdd (width a b : Nat) : Option Nat := if a + b < 2 ^ width then some (a + b) else none

section Climb

variable {H : Hasher} {first levels n : Nat} {leaf leaf' : Nat → Fr} {env : Env Tree}

/-- The slots of the levels from `first` on, as a frontier sees them. -/
abbrev Slot (t : Tree) (first k : Nat) (x : Fr) : Prop := t.filledSubtrees (first + k) = some (toU256 x)

/-- Where the loop stands before the level `first + k`. -/
structure ClimbInv (H : Hasher) (first n : Nat) (leaf' : Nat → Fr) (env : Env Tree) (k : Nat)
    (vars : Climb) (now : Env Tree) : Prop where
  index : vars.currentIndex = n / 2 ^ k
  hash : vars.currentHash = toU256 (node H.compress leaf' k (n / 2 ^ k))
  written : ∀ j, j < k → ¬n / 2 ^ j % 2 = 1 →
    Slot now.storage first j (node H.compress leaf' j (n / 2 ^ j))
  kept : ∀ j, n / 2 ^ j % 2 = 1 ∨ k ≤ j →
    now.storage.filledSubtrees (first + j) = env.storage.filledSubtrees (first + j)
  others : now.storage = { env.storage with filledSubtrees := now.storage.filledSubtrees }
  grows : ∀ q ∈ env.hashed, q ∈ now.hashed
  logged : ∀ j, j < k → .compress (node H.compress leaf' j (2 * (n / 2 ^ (j + 1))))
    (node H.compress leaf' j (2 * (n / 2 ^ (j + 1)) + 1)) ∈ now.hashed

/-- What the loop needs of the storage it starts on: the slots of the nodes that wait and the
zero hashes from the level `first` on. -/
structure Ready (H : Hasher) (first levels n : Nat) (leaf : Nat → Fr) (t : Tree) : Prop where
  frontier : Frontier H.compress (Slot t first) leaf (levels - first) n
  zeroes : ∀ lvl, lvl ≤ levels → t.zeroes lvl = some (toU256 (zeroAt lvl))

abbrev zeroFrom (first k : Nat) : Fr := zeroAt (first + k)

theorem run_climbLevel (chain : Chain H.compress (zeroFrom first) (levels - first))
    (extend : Extends leaf leaf' n (zeroFrom first 0)) (ready : Ready H first levels n leaf env.storage)
    (notInitialized : ε) {k : Nat} (low : k < levels - first) {vars : Climb} {now : Env Tree}
    (inv : ClimbInv H first n leaf' env k vars now) :
    ∃ vars' now', (climbLevel H notInitialized (first + k) vars).run now = .ok (vars', now') ∧
      ClimbInv H first n leaf' env (k + 1) vars' now' := by
  have half := div_pow_succ n k
  have zeroes : now.storage.zeroes (first + k) = some (toU256 (zeroFrom first k)) := by
    rw [inv.others]
    exact ready.zeroes _ (by omega)
  by_cases odd : n / 2 ^ k % 2 = 1
  · -- a right child: its sibling waits in the slot
    have waits : now.storage.filledSubtrees (first + k) =
        some (toU256 (node H.compress leaf k (n / 2 ^ k - 1))) := by
      rw [inv.kept k (Or.inr (Nat.le_refl k))]
      exact ready.frontier k low odd
    have climbed := extend.climb_right (f := H.compress) odd
    refine ⟨⟨n / 2 ^ k / 2, toU256 (node H.compress leaf' (k + 1) (n / 2 ^ (k + 1)))⟩,
      now.logged (.compress (node H.compress leaf k (n / 2 ^ k - 1)) (node H.compress leaf' k (n / 2 ^ k))),
      ?_, ?_⟩
    · simp only [climbLevel, inv.index, odd, if_true, StateT.run_bind, Host.run_storage, ok_bind,
        waits, Host.run_okOr_some, inv.hash, Host.run_poseidon2Compress, climbed, Host.run_pure]
    · refine ⟨half.symm, rfl, ?_, ?_, inv.others, fun q member => List.mem_cons_of_mem _ (inv.grows q member), ?_⟩
      · intro j below even
        rcases Nat.lt_succ_iff_lt_or_eq.mp below with earlier | rfl
        · exact inv.written j earlier even
        · exact absurd odd even
      · intro j keeps
        rcases keeps with isOdd | later
        · exact inv.kept j (Or.inl isOdd)
        · exact inv.kept j (Or.inr (by omega))
      · intro j below
        rcases Nat.lt_succ_iff_lt_or_eq.mp below with earlier | rfl
        · exact List.mem_cons_of_mem _ (inv.logged j earlier)
        · have left : 2 * (n / 2 ^ (j + 1)) = n / 2 ^ j - 1 := by
            rw [half]
            omega
          have right : n / 2 ^ j - 1 + 1 = n / 2 ^ j :=
            Nat.sub_add_cancel (Nat.one_le_of_lt (pred_lt_of_odd odd))
          rw [left, right, extend.node_before (pred_lt_of_odd odd)]
          exact List.mem_cons_self ..
  · -- a left child: it waits in the slot, over a sibling of zeros
    have climbed := extend.climb_left (f := H.compress) chain low odd
    refine ⟨⟨n / 2 ^ k / 2, toU256 (node H.compress leaf' (k + 1) (n / 2 ^ (k + 1)))⟩,
      (now.update (·.setFilledSubtree (first + k) (toU256 (node H.compress leaf' k (n / 2 ^ k))))).logged
        (.compress (node H.compress leaf' k (n / 2 ^ k)) (zeroFrom first k)), ?_, ?_⟩
    · simp only [climbLevel, inv.index, odd, if_false, StateT.run_bind, Host.run_update, Host.run_storage,
        ok_bind, Env.storage_update, Tree.setFilledSubtree, zeroes, Host.run_okOr_some, inv.hash,
        Host.run_poseidon2Compress, climbed, Host.run_pure]
    · refine ⟨half.symm, rfl, ?_, ?_, ?_, fun q member => List.mem_cons_of_mem _ (inv.grows q member), ?_⟩
      · intro j below even
        rcases Nat.lt_succ_iff_lt_or_eq.mp below with earlier | rfl
        · have apart : first + j ≠ first + k := by omega
          simpa [Slot, Tree.setFilledSubtree, Function.update_of_ne apart] using inv.written j earlier even
        · simp [Slot, Tree.setFilledSubtree]
      · intro j keeps
        have apart : first + j ≠ first + k := by
          rcases keeps with isOdd | later
          · intro same
            rw [show j = k by omega] at isOdd
            exact odd isOdd
          · omega
        simp only [Env.storage_logged, Env.storage_update, Tree.setFilledSubtree,
          Function.update_of_ne apart]
        rcases keeps with isOdd | later
        · exact inv.kept j (Or.inl isOdd)
        · exact inv.kept j (Or.inr (by omega))
      · simp only [Env.storage_logged, Env.storage_update, Tree.setFilledSubtree]
        rw [inv.others]
      · intro j below
        rcases Nat.lt_succ_iff_lt_or_eq.mp below with earlier | rfl
        · exact List.mem_cons_of_mem _ (inv.logged j earlier)
        · have left : 2 * (n / 2 ^ (j + 1)) = n / 2 ^ j := by
            rw [half]
            omega
          have padding : node H.compress leaf' j (n / 2 ^ j + 1) = zeroFrom first j :=
            extend.node_after chain (Nat.le_of_lt low) (Nat.lt_succ_self _)
          rw [left, padding]
          exact List.mem_cons_self ..

theorem run_climbLevels (chain : Chain H.compress (zeroFrom first) (levels - first))
    (extend : Extends leaf leaf' n (zeroFrom first 0)) (ready : Ready H first levels n leaf env.storage)
    (notInitialized : ε) :
    ∃ vars now, (climbLevels H notInitialized first levels n (toU256 (leaf' n))).run env =
        .ok (vars, now) ∧ ClimbInv H first n leaf' env (levels - first) vars now := by
  have start : ClimbInv H first n leaf' env (first - first) ⟨n, toU256 (leaf' n)⟩ env := by
    rw [Nat.sub_self]
    exact ⟨by simp, by simp [node], by simp, fun _ _ => rfl, rfl, fun _ member => member, by simp⟩
  have step : ∀ i, first ≤ i → i < first + (levels - first) → ∀ vars now,
      ClimbInv H first n leaf' env (i - first) vars now → ∃ vars' now',
        (climbLevel H notInitialized i vars).run now = .ok (vars', now') ∧
          ClimbInv H first n leaf' env (i + 1 - first) vars' now' := by
    intro i low high vars now inv
    have climbed := run_climbLevel chain extend ready notInitialized (by omega) inv
    rwa [Nat.add_sub_cancel' low, show i - first + 1 = i + 1 - first by omega] at climbed
  obtain ⟨vars, now, run, inv⟩ :=
    Host.run_forUp (fun i => ClimbInv H first n leaf' env (i - first)) start step
  rw [Nat.add_sub_cancel_left] at inv
  exact ⟨vars, now, run, inv⟩

theorem ClimbInv.ready {vars : Climb} {now : Env Tree}
    (inv : ClimbInv H first n leaf' env (levels - first) vars now)
    (extend : Extends leaf leaf' n (zeroFrom first 0)) (ready : Ready H first levels n leaf env.storage) :
    Ready H first levels (n + 1) leaf' now.storage where
  frontier := ready.frontier.extend extend inv.written fun k x low odd holds => by
    unfold Slot at holds ⊢
    rw [inv.kept k (Or.inl odd)]
    exact holds
  zeroes lvl low := by
    rw [inv.others]
    exact ready.zeroes lvl low

theorem ClimbInv.root {vars : Climb} {now : Env Tree} {m : Nat}
    (inv : ClimbInv H first n leaf' env m vars now) (room : n < 2 ^ m) :
    vars.currentHash = toU256 (node H.compress leaf' m 0) := by
  rw [inv.hash, Nat.div_eq_of_lt room]

end Climb

section Initial

variable {H : Hasher} {levels : Nat}

theorem initial_zeroes (bounded : levels ≤ 32) {lvl : Nat} (low : lvl ≤ levels) :
    (Tree.initial levels).zeroes lvl = some (toU256 (zeroAt lvl)) := by
  simp only [Tree.initial, if_pos low]
  exact getZeroes_get (by omega)

theorem ready_initial (bounded : levels ≤ 32) (first : Nat) (leaf : Nat → Fr) :
    Ready H first levels 0 leaf (Tree.initial levels) where
  frontier k _ odd := by simp at odd
  zeroes _ low := initial_zeroes bounded low

end Initial

/-- The leaves inserted so far, and the zero leaf at every later position. -/
def leafAt (leaves : List Fr) (i : Nat) : Fr := leaves.getD i (zeroAt 0)

theorem getElem?_of_leafAt {leaves : List Fr} {i : Nat} {leaf : Fr} (found : leaf = leafAt leaves i)
    (filled : leaf ≠ zeroAt 0) : leaves[i]? = some leaf := by
  by_cases inside : i < leaves.length
  · rw [List.getElem?_eq_getElem inside, found, leafAt, List.getD_eq_getElem _ _ inside]
  · exact absurd (found.trans (List.getD_eq_default _ _ (Nat.le_of_not_lt inside))) filled

theorem leafAt_extends (leaves : List Fr) (leaf : Fr) :
    Extends (leafAt leaves) (leafAt (leaves ++ [leaf])) leaves.length (zeroAt 0) where
  before i low := by
    unfold leafAt
    rw [List.getD_append _ _ _ _ low]
  after i high := by
    unfold leafAt
    rw [List.getD_eq_default _ _ (by simpa using high)]

@[simp] theorem leafAt_length (leaves : List Fr) (leaf : Fr) :
    leafAt (leaves ++ [leaf]) leaves.length = leaf := by
  simp [leafAt]

end PrivatePayments.Merkle
