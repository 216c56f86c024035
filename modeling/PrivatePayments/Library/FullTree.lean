import Mathlib.Data.Nat.Bitwise
import Mathlib.Data.Set.Function
import Mathlib.Tactic.Common
import Mathlib.Tactic.Ring

/-!
Full binary trees over a sequence of leaves, and the frontier that recomputes their
root when a leaf is appended: at each level the last left child that still waits for
its sibling. Leaves that are not there yet are a fixed padding.
-/

namespace PrivatePayments.Library.FullTree

variable {α : Type} (f : α → α → α)

/-- The node with the index `i` at the level `k`, over the leaves at level zero. -/
def node (leaf : Nat → α) : Nat → Nat → α
  | 0, i => leaf i
  | k + 1, i => f (node leaf k (2 * i)) (node leaf k (2 * i + 1))

theorem node_succ (leaf : Nat → α) (k i : Nat) :
    node f leaf (k + 1) i = f (node f leaf k (2 * i)) (node f leaf k (2 * i + 1)) := rfl

theorem node_node (leaf : Nat → α) (j k i : Nat) :
    node f (node f leaf j) k i = node f leaf (j + k) i := by
  induction k generalizing i with
  | zero => rfl
  | succ k ih =>
    rw [node_succ, ih, ih]
    rfl

theorem node_congr {leaf leaf' : Nat → α} {k b : Nat}
    (same : ∀ i, b * 2 ^ k ≤ i → i < (b + 1) * 2 ^ k → leaf i = leaf' i) :
    node f leaf k b = node f leaf' k b := by
  induction k generalizing b with
  | zero => exact same b (by simp) (by simp)
  | succ k ih =>
    have double (c : Nat) : c * 2 ^ (k + 1) = 2 * c * 2 ^ k := by
      rw [pow_succ]
      ring
    have left := ih (b := 2 * b) fun i low high => same i
      (by rw [double]; exact low)
      (lt_of_lt_of_le high (by rw [double]; exact Nat.mul_le_mul_right _ (by omega)))
    have right := ih (b := 2 * b + 1) fun i low high => same i
      (le_trans (by rw [double]; exact Nat.mul_le_mul_right _ (by omega)) low)
      (by rw [double, Nat.mul_add_one]; exact high)
    rw [node_succ, node_succ, left, right]

/-- The nodes over padding only, level by level. -/
def Chain (zero : Nat → α) (levels : Nat) : Prop :=
  ∀ k, k < levels → zero (k + 1) = f (zero k) (zero k)

variable {f}

theorem node_padding {zero : Nat → α} {levels : Nat} (chain : Chain f zero levels) {leaf : Nat → α}
    {k b : Nat} (low : k ≤ levels) (padded : ∀ i, b * 2 ^ k ≤ i → leaf i = zero 0) :
    node f leaf k b = zero k := by
  induction k generalizing b with
  | zero => exact padded b (by simp)
  | succ k ih =>
    have double : b * 2 ^ (k + 1) = 2 * b * 2 ^ k := by
      rw [pow_succ]
      ring
    have later (c : Nat) (above : 2 * b ≤ c) (i : Nat) (beyond : c * 2 ^ k ≤ i) :
        leaf i = zero 0 := by
      refine padded i (le_trans ?_ beyond)
      rw [double]
      exact Nat.mul_le_mul_right _ above
    calc node f leaf (k + 1) b = f (node f leaf k (2 * b)) (node f leaf k (2 * b + 1)) := rfl
      _ = f (zero k) (zero k) := by
        rw [ih (by omega) (later _ (Nat.le_refl _)), ih (by omega) (later _ (Nat.le_succ _))]
      _ = zero (k + 1) := (chain k (by omega)).symm

section Append

/-- The leaves `leaf'` are the `n` leaves of `leaf`, one more, and padding. -/
structure Extends (leaf leaf' : Nat → α) (n : Nat) (padding : α) : Prop where
  before : ∀ i, i < n → leaf' i = leaf i
  after : ∀ i, n < i → leaf' i = padding

variable {leaf leaf' : Nat → α} {n : Nat} {zero : Nat → α} {levels : Nat}

/-- A node that does not lie over the new leaf is an old node. -/
theorem Extends.node_before (extend : Extends leaf leaf' n (zero 0)) {k b : Nat}
    (apart : b < n / 2 ^ k) : node f leaf' k b = node f leaf k b := by
  refine node_congr f fun i low high => extend.before i ?_
  calc i < (b + 1) * 2 ^ k := high
    _ ≤ n / 2 ^ k * 2 ^ k := Nat.mul_le_mul_right _ apart
    _ ≤ n := Nat.div_mul_le_self n _

theorem Extends.node_after (extend : Extends leaf leaf' n (zero 0)) (chain : Chain f zero levels)
    {k b : Nat} (low : k ≤ levels) (apart : n / 2 ^ k < b) : node f leaf' k b = zero k := by
  refine node_padding chain low fun i beyond => extend.after i ?_
  have above : (n / 2 ^ k + 1) * 2 ^ k ≤ b * 2 ^ k := Nat.mul_le_mul_right _ apart
  have below := Nat.lt_div_mul_add (a := n) (Nat.two_pow_pos k)
  rw [Nat.add_mul, Nat.one_mul] at above
  omega

/-- The slot of a level waits for a sibling while the number of nodes there is odd. `holds k x`
says that the slot of level `k` stores `x`. -/
def Frontier (f : α → α → α) (holds : Nat → α → Prop) (leaf : Nat → α) (levels n : Nat) : Prop :=
  ∀ k, k < levels → n / 2 ^ k % 2 = 1 → holds k (node f leaf k (n / 2 ^ k - 1))

theorem pred_lt_of_odd {q : Nat} (odd : q % 2 = 1) : q - 1 < q := by omega

theorem div_pow_succ (n k : Nat) : n / 2 ^ (k + 1) = n / 2 ^ k / 2 := by
  rw [pow_succ, Nat.div_div_eq_div_mul]

/-- The new node is a right child: its sibling waits in the slot. -/
theorem Extends.climb_right (extend : Extends leaf leaf' n (zero 0)) {k : Nat}
    (odd : n / 2 ^ k % 2 = 1) :
    f (node f leaf k (n / 2 ^ k - 1)) (node f leaf' k (n / 2 ^ k)) =
      node f leaf' (k + 1) (n / 2 ^ (k + 1)) := by
  have left : 2 * (n / 2 ^ (k + 1)) = n / 2 ^ k - 1 := by
    rw [div_pow_succ]
    omega
  have right : n / 2 ^ k - 1 + 1 = n / 2 ^ k := Nat.sub_add_cancel (Nat.one_le_of_lt (pred_lt_of_odd odd))
  have old : node f leaf' k (n / 2 ^ k - 1) = node f leaf k (n / 2 ^ k - 1) :=
    extend.node_before (pred_lt_of_odd odd)
  rw [node_succ, left, right, old]

/-- The new node is a left child: its sibling is padding. -/
theorem Extends.climb_left (extend : Extends leaf leaf' n (zero 0)) (chain : Chain f zero levels)
    {k : Nat} (low : k < levels) (even : ¬n / 2 ^ k % 2 = 1) :
    f (node f leaf' k (n / 2 ^ k)) (zero k) = node f leaf' (k + 1) (n / 2 ^ (k + 1)) := by
  have left : 2 * (n / 2 ^ (k + 1)) = n / 2 ^ k := by
    rw [div_pow_succ]
    omega
  have right : node f leaf' k (n / 2 ^ k + 1) = zero k :=
    extend.node_after chain (Nat.le_of_lt low) (Nat.lt_succ_self _)
  rw [node_succ, left, right]

/-- The frontier after the append: the slots where the new node is a left child have been
overwritten with it, the others are as before. -/
theorem Frontier.extend {holds holds' : Nat → α → Prop} (frontier : Frontier f holds leaf levels n)
    (extend : Extends leaf leaf' n (zero 0))
    (written : ∀ k, k < levels → ¬n / 2 ^ k % 2 = 1 → holds' k (node f leaf' k (n / 2 ^ k)))
    (kept : ∀ k x, k < levels → n / 2 ^ k % 2 = 1 → holds k x → holds' k x) :
    Frontier f holds' leaf' levels (n + 1) := by
  intro k low odd
  by_cases carry : 2 ^ k ∣ n + 1
  · have next : (n + 1) / 2 ^ k = n / 2 ^ k + 1 := Nat.succ_div_of_dvd carry
    rw [next, Nat.add_sub_cancel]
    exact written k low (by omega)
  · have stays : (n + 1) / 2 ^ k = n / 2 ^ k := Nat.succ_div_of_not_dvd carry
    rw [stays] at odd ⊢
    rw [extend.node_before (pred_lt_of_odd odd)]
    exact kept k _ low odd (frontier k low odd)

end Append

section Walk

/-- Climbing from a value along bits and siblings, both listed from the leaf up. -/
def walk (f : α → α → α) (bit : Nat → Bool) (sibling : Nat → α) (start : α) : Nat → α
  | 0 => start
  | k + 1 =>
      if bit k then f (sibling k) (walk f bit sibling start k)
      else f (walk f bit sibling start k) (sibling k)

/-- The pair that is hashed on the way up from the level `k`. -/
def walkPair (f : α → α → α) (bit : Nat → Bool) (sibling : Nat → α) (start : α) (k : Nat) : α × α :=
  if bit k then (sibling k, walk f bit sibling start k) else (walk f bit sibling start k, sibling k)

theorem walk_succ (bit : Nat → Bool) (sibling : Nat → α) (start : α) (k : Nat) :
    walk f bit sibling start (k + 1) = Function.uncurry f (walkPair f bit sibling start k) := by
  unfold walk walkPair
  split <;> rfl

/-- All pairs of siblings below the level `levels` are in play. -/
def Covered (f : α → α → α) (leaf : Nat → α) (levels : Nat) (inPlay : Set (α × α)) : Prop :=
  ∀ k, k < levels → ∀ b, (node f leaf k (2 * b), node f leaf k (2 * b + 1)) ∈ inPlay

/-- A walk along the bits of a position that ends at the node above the position started at the
leaf there. -/
theorem start_eq_leaf {inPlay : Set (α × α)} (inj : Set.InjOn (Function.uncurry f) inPlay)
    {leaf : Nat → α} {levels : Nat} (covered : Covered f leaf levels inPlay) {position : Nat}
    {sibling : Nat → α} {start : α} {k : Nat} (low : k ≤ levels)
    (walked : ∀ j, j < k → walkPair f position.testBit sibling start j ∈ inPlay)
    (ends : walk f position.testBit sibling start k = node f leaf k (position / 2 ^ k)) :
    start = leaf position := by
  induction k with
  | zero => simpa [walk, node] using ends
  | succ k ih =>
    refine ih (by omega) (fun j below => walked j (by omega)) ?_
    rw [walk_succ, node_succ] at ends
    have pair := inj (walked k (Nat.lt_succ_self k)) (covered k (by omega) _) ends
    have half := div_pow_succ position k
    have bit : position.testBit k = decide (position / 2 ^ k % 2 = 1) := Nat.testBit_eq_decide_div_mod_eq
    cases turn : position.testBit k with
    | false =>
      rw [turn] at bit
      have even : position / 2 ^ k = 2 * (position / 2 ^ (k + 1)) := by
        have parity := of_decide_eq_false bit.symm
        omega
      rw [walkPair, turn] at pair
      rw [even]
      exact congrArg Prod.fst pair
    | true =>
      rw [turn] at bit
      have odd : position / 2 ^ k = 2 * (position / 2 ^ (k + 1)) + 1 := by
        have parity := of_decide_eq_true bit.symm
        omega
      rw [walkPair, turn] at pair
      rw [odd]
      exact congrArg Prod.snd pair

theorem walk_congr (f : α → α → α) (bit : Nat → Bool) (start : α) {sibling sibling' : Nat → α} {k : Nat}
    (same : ∀ j, j < k → sibling j = sibling' j) : walk f bit sibling start k = walk f bit sibling' start k := by
  induction k with
  | zero => rfl
  | succ k ih => rw [walk, walk, ih fun j low => same j (by omega), same k (Nat.lt_succ_self k)]

def siblingOf (f : α → α → α) (leaf : Nat → α) (position k : Nat) : α := node f leaf k ((position / 2 ^ k) ^^^ 1)

theorem siblingOf_eq (leaf : Nat → α) (position k : Nat) : siblingOf f leaf position k =
    if position / 2 ^ k % 2 = 0 then node f leaf k (position / 2 ^ k + 1)
      else node f leaf k (position / 2 ^ k - 1) := by
  unfold siblingOf
  split
  next even => rw [Nat.xor_one_of_even (Nat.even_iff.mpr even)]
  next odd => rw [Nat.xor_one_of_odd (Nat.odd_iff.mpr (Nat.mod_two_ne_zero.mp odd))]

/-- The walk from a leaf beside the siblings of its position goes along the nodes above it. -/
theorem walk_siblingOf (leaf : Nat → α) (position k : Nat) :
    walk f position.testBit (siblingOf f leaf position) (leaf position) k = node f leaf k (position / 2 ^ k) := by
  induction k with
  | zero => rw [Nat.pow_zero, Nat.div_one, walk, node]
  | succ k ih =>
    have half := div_pow_succ position k
    rw [walk, ih, node_succ, siblingOf_eq, Nat.testBit_eq_decide_div_mod_eq]
    by_cases odd : position / 2 ^ k % 2 = 1
    · rw [if_pos (decide_eq_true odd), if_neg (by omega)]
      congr 2 <;> omega
    · rw [if_neg (by simpa using odd), if_pos (by omega)]
      congr 2 <;> omega

end Walk

end PrivatePayments.Library.FullTree
