import PrivatePayments.AspNonMembership.KeyTree

/-!
What it means for the contract storage to hold a tree, and what `find_key` answers
on such a storage: the siblings of the path the key's bits take, and its end.
-/

namespace PrivatePayments.AspNonMembership
open Bn254 Poseidon2 Soroban Library SparseTree TreePath KeyTree

/-- The nodes of the tree are on file, whatever else is. -/
abbrev Stored (H : Hasher) (node : Nodes) (t : KeyTree) : Prop :=
  ContentStore.Holds (nodeKey H) (content H) node {x | x ∈ t.subtrees}

/-- The invariant of the contract: the storage holds a canonical tree under its root. -/
structure Represents (H : Hasher) (env : Env Storage) (t : KeyTree) : Prop where
  admin : ∃ admin, env.storage.admin = some admin
  root : env.storage.root = some (nodeKey H t)
  canonical : Canonical keyBit 0 t
  stored : Stored H env.storage.node t
  logged : ∀ q ∈ queries H t, q ∈ env.hashed

def turns (key : U256) (d : Nat) : Bool := key.toNat.testBit d

theorem turns_toU256 (k : Fr) : turns (toU256 k) = keyBit k := by
  funext d
  rw [turns, toNat_toU256, keyBit]

def endResult (key : U256) : KeyTree → FindResult
  | .leaf storedKey storedValue =>
      if toU256 storedKey = key then
        { found := true, siblings := [], foundValue := toU256 storedValue, notFoundKey := 0,
          notFoundValue := 0, isOld0 := false }
      else
        { found := false, siblings := [], foundValue := 0, notFoundKey := toU256 storedKey,
          notFoundValue := toU256 storedValue, isOld0 := false }
  | _ =>
      { found := false, siblings := [], foundValue := 0, notFoundKey := key, notFoundValue := 0,
        isOld0 := true }

def pathResult (H : Hasher) (key : U256) (siblings : List KeyTree) (stop : KeyTree) : FindResult :=
  { endResult key stop with siblings := siblings.map (nodeKey H) }

section Find

variable {H : Hasher} {inPlay : Set Query} {node : Nodes}

theorem findKeyInternal_end (free : CollisionFree H inPlay) (key : U256) (bits : List Bool)
    {stop : KeyTree} (kind : stop = .empty ∨ ∃ k v, stop = .leaf k v)
    (stored : Stored H node stop) (within : ∀ q ∈ queries H stop, q ∈ inPlay) :
    findKeyInternal node key bits (nodeKey H stop) = .ok (endResult key stop) := by
  rcases kind with rfl | ⟨k, v, rfl⟩
  · rw [findKeyInternal, if_pos (nodeKey_empty H), endResult]
    intro k v impossible
    cases impossible
  · have nonzero := nodeKey_ne_zero free (t := .leaf k v) (by simp) within
    have filed := stored (.leaf k v) (List.mem_singleton.mpr rfl)
    rw [findKeyInternal, if_neg nonzero, filed]
    by_cases same : toU256 k = key <;> simp [content, endResult, same]

theorem findKeyInternal_plug (free : CollisionFree H inPlay) (key : U256) (d : Nat)
    {siblings : List KeyTree} {stop : KeyTree} (kind : stop = .empty ∨ ∃ k v, stop = .leaf k v)
    (short : d + siblings.length ≤ 256)
    (stored : Stored H node (plug (turns key) d siblings stop))
    (within : ∀ q ∈ queries H (plug (turns key) d siblings stop), q ∈ inPlay) :
    findKeyInternal node key ((splitBits key).drop d) (nodeKey H (plug (turns key) d siblings stop)) =
      .ok (pathResult H key siblings stop) := by
  induction siblings generalizing d with
  | nil =>
    rw [plug, findKeyInternal_end free key _ kind stored within]
    cases stop <;> simp only [pathResult, endResult, List.map_nil]
    split <;> rfl
  | cons s rest ih =>
    have nonempty : plug (turns key) d (s :: rest) stop ≠ .empty := by
      cases turn : turns key d <;> simp [plug, branch, turn]
    have nonzero := nodeKey_ne_zero free nonempty within
    have filed := stored _ (mem_subtrees_self nonempty)
    have later := ih (d + 1) (by simp only [List.length_cons] at short; omega)
      (fun x member => stored x ((mem_subtrees_branch ..).mpr (Or.inr (Or.inr member))))
      (fun q member => within q ((mem_queries_branch ..).mpr (Or.inr (Or.inr member))))
    rw [drop_splitBits key (by simp only [List.length_cons] at short; omega)]
    rw [findKeyInternal, if_neg nonzero, filed, plug, content_branch]
    cases turn : turns key d with
    | false =>
      have bit : key.toNat.testBit d = false := turn
      simp only [Bool.false_eq_true, ↓reduceIte, bit, Bool.not_false, later]
      rfl
    | true =>
      have bit : key.toNat.testBit d = true := turn
      simp only [↓reduceIte, bit, Bool.not_true, Bool.false_eq_true, later]
      rfl

end Find

namespace Represents

variable {H : Hasher} {env : Env Storage} {t : KeyTree}

theorem exists_path (key : U256) (rep : Represents H env t) :
    ∃ siblings stop, t = plug (turns key) 0 siblings stop ∧
      (stop = .empty ∨ ∃ k v, stop = .leaf k v) ∧ siblings.length ≤ 254 := by
  obtain ⟨siblings, stop, cut, kind⟩ := exists_plug (turns key) 0 t
  refine ⟨siblings, stop, cut, kind, ?_⟩
  have canonical := rep.canonical
  rw [cut] at canonical
  exact TreeUpdate.length_le keyBit (turns key) 254 canonical (fun k k' _ _ => eq_of_keyBits)

theorem findKeyInternal_eq (rep : Represents H env t)
    (free : CollisionFree H {q | q ∈ env.hashed}) {key : U256} {siblings : List KeyTree}
    {stop : KeyTree} (cut : t = plug (turns key) 0 siblings stop)
    (kind : stop = .empty ∨ ∃ k v, stop = .leaf k v) (short : siblings.length ≤ 254) :
    findKeyInternal env.storage.node key (splitBits key) (nodeKey H t) =
      .ok (pathResult H key siblings stop) := by
  have stored := rep.stored
  have logged := rep.logged
  subst cut
  exact findKeyInternal_plug free key 0 kind (by omega) stored logged

theorem findKey_eq (rep : Represents H env t) (free : CollisionFree H {q | q ∈ env.hashed})
    {key : U256} {siblings : List KeyTree} {stop : KeyTree}
    (cut : t = plug (turns key) 0 siblings stop)
    (kind : stop = .empty ∨ ∃ k v, stop = .leaf k v) (short : siblings.length ≤ 254) :
    findKey env.storage key =
      .ok (pathResult H key siblings stop) := by
  rw [findKey, rep.root, Option.getD_some]
  exact rep.findKeyInternal_eq free cut kind short

theorem stop_eq_leaf (rep : Represents H env t) {k v : Fr} {siblings : List KeyTree} {stop : KeyTree}
    (cut : t = plug (keyBit k) 0 siblings stop) (has : t.Has k v)
    (kind : stop = .empty ∨ ∃ k v, stop = .leaf k v) : stop = .leaf k v := by
  have canonical := rep.canonical
  rw [cut] at canonical has
  obtain ⟨away, -⟩ := (canonical_plug ..).mp canonical
  rcases (has_plug ..).mp has with ⟨s, member, inS⟩ | inStop
  · exact absurd ⟨v, inS⟩ (away.not_hasKey keyBit member)
  · rcases kind with rfl | ⟨k', v', rfl⟩
    · exact inStop.elim
    · rw [inStop.1, inStop.2]

end Represents

end PrivatePayments.AspNonMembership
