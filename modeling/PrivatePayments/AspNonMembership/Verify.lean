import PrivatePayments.AspNonMembership.Exactness
import PrivatePayments.AspNonMembership.Filing
import PrivatePayments.Poseidon2.Path

/-!
`verify_non_membership`: it searches for the key, compares the proof with the search
result and recomputes the root. It accepts the search result itself unless the search
ended at a leaf of value zero, which it takes for an empty slot.
-/

namespace PrivatePayments.AspNonMembership
open Bn254 Poseidon2 Soroban Library SparseTree TreePath KeyTree Nearest

variable {H : Hasher}

theorem run_hashToward_climb (bit : Bool) (x s : Fr) (env : Env Storage) :
    (hashToward H bit (toU256 x) (toU256 s)).run env =
      .ok (toU256 (if bit then H.compress s x else H.compress x s),
        env.logged (if bit then .compress s x else .compress x s)) := by
  cases bit
  · exact Host.run_poseidon2Compress H x s env
  · exact Host.run_poseidon2Compress H s x env

/-- Where the loop of `verify_non_membership` stands when the levels from `i` on are done. -/
structure ClimbInv (H : Hasher) (keyBits : List Bool) (siblings : List Fr) (last : Fr)
    (env : Env Storage) (i : Nat) (computed : U256) (now : Env Storage) : Prop where
  computed : computed = toU256 (climb H (keyBits.drop i) (siblings.drop i) last)
  hashed : ∀ q, q ∈ now.hashed ↔
    q ∈ env.hashed ∨ q ∈ climbQueries H (keyBits.drop i) (siblings.drop i) last

theorem run_climb {keyBits : List Bool} {siblings : List Fr} (long : siblings.length ≤ keyBits.length)
    (last : Fr) (env : Env Storage) :
    ∃ next, (Host.forDown (verifyStep H keyBits (siblings.map toU256)) siblings.length
        (toU256 last)).run env = .ok (toU256 (climb H keyBits siblings last), next) ∧
      ∀ q, q ∈ next.hashed ↔ q ∈ env.hashed ∨ q ∈ climbQueries H keyBits siblings last := by
  have init : ClimbInv H keyBits siblings last env siblings.length (toU256 last) env := by
    constructor
    · rw [List.drop_length]
      cases keyBits.drop siblings.length <;> rfl
    · intro q
      rw [List.drop_length]
      cases keyBits.drop siblings.length <;> simp [climbQueries]
  have step : ∀ i, i < siblings.length → ∀ computed now,
      ClimbInv H keyBits siblings last env (i + 1) computed now → ∃ computed' now',
        (verifyStep H keyBits (siblings.map toU256) i computed).run now = .ok (computed', now') ∧
          ClimbInv H keyBits siblings last env i computed' now' := by
    intro i below computed now inv
    have low : i < keyBits.length := by omega
    simp only [verifyStep, inv.computed, List.getElem?_map, List.getElem?_eq_getElem below,
      List.getElem?_eq_getElem low, Option.map_some, StateT.run_bind, Host.run_okOr_some,
      ok_bind, run_hashToward_climb]
    refine ⟨_, _, rfl, ?_, ?_⟩
    · rw [List.drop_eq_getElem_cons below, List.drop_eq_getElem_cons low, climb]
    · intro q
      rw [List.drop_eq_getElem_cons below, List.drop_eq_getElem_cons low, climbQueries,
        Env.hashed_logged, List.mem_cons, List.mem_cons, inv.hashed, or_left_comm]
  obtain ⟨computed, next, run, inv⟩ := Host.run_forDown init step
  have done := inv.computed
  subst done
  exact ⟨next, run, inv.hashed⟩

/-- What a search that returned has seen: the hashes on the path, and its end. -/
structure Search (H : Hasher) (hashed : List Query) (key : U256) (bits : List Bool) (root : U256)
    (r : FindResult) (siblings : List Fr) (last : Fr) : Prop where
  passed : r.siblings = siblings.map toU256
  short : siblings.length ≤ bits.length
  isRoot : root = toU256 (climb H bits siblings last)
  logged : ∀ q ∈ climbQueries H bits siblings last, q ∈ hashed
  stop : (last = 0 ∧ r.found = false ∧ r.isOld0 = true ∧ r.notFoundKey = key ∧ r.notFoundValue = 0) ∨
    ∃ k v, last = H.hash2 k v 1 ∧ .hash2 k v 1 ∈ hashed ∧ r.isOld0 = false ∧
      (r.found = false → toU256 k ≠ key ∧ r.notFoundKey = toU256 k ∧ r.notFoundValue = toU256 v)

theorem search_empty {hashed : List Query} {key root : U256} {bits : List Bool} (zero : root = 0) :
    Search H hashed key bits root (endResult key .empty) [] 0 :=
  ⟨rfl, Nat.zero_le _, by rw [zero, climb_nil, toU256_zero], by simp,
    Or.inl ⟨rfl, rfl, rfl, rfl, rfl⟩⟩

theorem search_leaf {hashed : List Query} {key root : U256} {bits : List Bool} {k v : Fr}
    (isHash : root = toU256 (H.hash2 k v 1)) (logged : .hash2 k v 1 ∈ hashed) :
    Search H hashed key bits root (endResult key (.leaf k v)) [] (H.hash2 k v 1) := by
  refine ⟨?_, Nat.zero_le _, by rw [isHash, climb_nil], by simp, Or.inr ⟨k, v, rfl, logged, ?_, ?_⟩⟩
  · rw [endResult]
    split <;> rfl
  · rw [endResult]
    split <;> rfl
  · intro absent
    by_cases same : toU256 k = key
    · rw [endResult, if_pos same] at absent
      cases absent
    · rw [endResult, if_neg same]
      exact ⟨same, rfl, rfl⟩

theorem present_of_found {node : Option (List U256)} {key : U256} {k v : Fr}
    (present : node = some [1, toU256 k, toU256 v]) (found : (endResult key (.leaf k v)).found = true) :
    node = some [1, key, toU256 v] := by
  by_cases same : toU256 k = key
  · rw [present, same]
  · rw [endResult, if_neg same] at found
    cases found

section Search

variable {env : Env Storage} {key : U256} {r : FindResult}

/-- One step of a search that returned: an empty slot, a leaf, or a branch to go down from. -/
theorem findKeyInternal_cases (filed : Filed H env) {bits : List Bool} {root : U256}
    (find : findKeyInternal env.storage.node key bits root = .ok r) :
    (root = 0 ∧ r = endResult key .empty) ∨
    (root ≠ 0 ∧ ∃ k v, env.storage.node root = some [1, toU256 k, toU256 v] ∧
      root = toU256 (H.hash2 k v 1) ∧ .hash2 k v 1 ∈ env.hashed ∧ r = endResult key (.leaf k v)) ∨
    (root ≠ 0 ∧ ∃ bit rest left right inner, bits = bit :: rest ∧
      env.storage.node root = some [toU256 left, toU256 right] ∧
      root = toU256 (H.compress left right) ∧ .compress left right ∈ env.hashed ∧
      findKeyInternal env.storage.node key rest (toU256 (if bit then right else left)) = .ok inner ∧
      r = { inner with siblings := toU256 (if bit then left else right) :: inner.siblings }) := by
  rw [findKeyInternal.eq_def] at find
  by_cases zero : root = 0
  · rw [if_pos zero, Except.ok.injEq] at find
    exact Or.inl ⟨zero, find.symm⟩
  · right
    rw [if_neg zero] at find
    cases present : env.storage.node root with
    | none =>
      rw [present] at find
      cases find
    | some content =>
      rw [present] at find
      cases filed root content present with
      | leaf k v logged =>
        refine Or.inl ⟨zero, k, v, rfl, rfl, logged, ?_⟩
        by_cases same : toU256 k = key
        · simp only [if_true, same, Except.ok.injEq] at find
          rw [endResult, if_pos same, find]
        · simp only [if_true, same, if_false, Except.ok.injEq] at find
          rw [endResult, if_neg same, find]
      | branch left right logged =>
        cases bits with
        | nil => cases find
        | cons bit rest =>
          right
          cases below : findKeyInternal env.storage.node key rest
              (if !bit then toU256 left else toU256 right) with
          | error e =>
            simp only [below] at find
            cases find
          | ok inner =>
            simp only [below] at find
            cases find
            refine ⟨zero, bit, rest, left, right, inner, rfl, rfl, rfl, logged, ?_, ?_⟩
            · cases bit <;> exact below
            · cases bit <;> rfl

theorem exists_search (filed : Filed H env) {bits : List Bool} {root : U256}
    (find : findKeyInternal env.storage.node key bits root = .ok r) :
    ∃ siblings last, Search H env.hashed key bits root r siblings last := by
  induction bits generalizing root r with
  | nil =>
    rcases findKeyInternal_cases filed find with ⟨zero, rfl⟩ | ⟨-, k, v, -, isHash, logged, rfl⟩ |
      ⟨-, bit, rest, left, right, inner, impossible, -⟩
    · exact ⟨[], 0, search_empty zero⟩
    · exact ⟨[], _, search_leaf isHash logged⟩
    · cases impossible
  | cons first later ih =>
    rcases findKeyInternal_cases filed find with ⟨zero, rfl⟩ | ⟨-, k, v, -, isHash, logged, rfl⟩ |
      ⟨-, bit, rest, left, right, inner, same, -, isHash, logged, below, rfl⟩
    · exact ⟨[], 0, search_empty zero⟩
    · exact ⟨[], _, search_leaf isHash logged⟩
    · cases same
      obtain ⟨siblings, last, search⟩ := ih below
      have child := toU256_injective search.isRoot
      refine ⟨(if first then left else right) :: siblings, last, ?_, Nat.succ_le_succ search.short,
        ?_, ?_, search.stop⟩
      · simp [search.passed]
      · rw [isHash, climb, ← child]
        cases first <;> rfl
      · rw [climbQueries, List.forall_mem_cons, ← child]
        refine ⟨?_, search.logged⟩
        cases first <;> exact logged

theorem blocks_of_found (filed : Filed H env) {bits : List Bool} {root : U256}
    (find : findKeyInternal env.storage.node key bits root = .ok r)
    (reachable : root ≠ 0 → Reachable env.storage root) (found : r.found = true) :
    ∃ v, Blocks env.storage key v := by
  induction bits generalizing root r with
  | nil =>
    rcases findKeyInternal_cases filed find with ⟨-, rfl⟩ | ⟨nonzero, k, v, present, -, -, rfl⟩ |
      ⟨-, bit, rest, left, right, inner, impossible, -⟩
    · cases found
    · exact ⟨_, root, reachable nonzero, present_of_found present found⟩
    · cases impossible
  | cons first later ih =>
    rcases findKeyInternal_cases filed find with ⟨-, rfl⟩ | ⟨nonzero, k, v, present, -, -, rfl⟩ |
      ⟨nonzero, bit, rest, left, right, inner, same, present, -, -, below, rfl⟩
    · cases found
    · exact ⟨_, root, reachable nonzero, present_of_found present found⟩
    · cases same
      refine ih below (fun nonzero' => ?_) found
      cases first
      · exact .left (reachable nonzero) present nonzero'
      · exact .right (reachable nonzero) present nonzero'

end Search

section Verify

variable {env : Env Storage} {key : U256} {r : FindResult}

/-- Everything before the recomputation of the root, on the data of the search itself. -/
theorem run_verify_own (find : findKey env.storage key = .ok r) (absent : r.found = false) :
    (verifyNonMembership H key r.siblings r.notFoundKey r.notFoundValue).run env =
      ((do
        let start ←
          if r.notFoundKey ≠ key ∧ r.notFoundValue ≠ 0 then hashLeaf H r.notFoundKey r.notFoundValue
          else pure 0
        let computedRoot ←
          Host.forDown (verifyStep H (splitBits key) r.siblings) r.siblings.length start
        if computedRoot ≠ env.storage.root.getD 0 then Host.fail .invalidProof
        else return true : Contract Bool)).run env := by
  rw [findKey] at find
  simp only [verifyNonMembership, StateT.run_bind, Host.run_storage, ok_bind, find,
    Host.run_lift_ok, absent, Bool.false_eq_true, if_false, ne_eq, not_true_eq_false, or_self]

/-- The proof taken from the search is accepted when the path ended at an empty slot or at a
leaf whose value is not zero, whatever the hash function. -/
theorem verify_own_accepts (filed : Filed H env) (find : findKey env.storage key = .ok r)
    (absent : r.found = false) (plain : r.isOld0 = true ∨ r.notFoundValue ≠ 0) :
    ∃ next, (verifyNonMembership H key r.siblings r.notFoundKey r.notFoundValue).run env =
      .ok (true, next) ∧ ∀ q ∈ next.hashed, q ∈ env.hashed := by
  obtain ⟨siblings, last, search⟩ := exists_search filed find
  rw [run_verify_own find absent]
  rcases search.stop with ⟨rfl, -, -, isKey, -⟩ | ⟨k, v, rfl, leafLogged, notEmpty, ended⟩
  · obtain ⟨next, climbed, hashed⟩ := run_climb (H := H) search.short 0 env
    refine ⟨next, ?_, fun q member => ((hashed q).mp member).elim id (search.logged q)⟩
    rw [toU256_zero] at climbed
    simp only [isKey, search.passed, List.length_map, search.isRoot, ne_eq, not_true_eq_false,
      false_and, if_false, StateT.run_bind, Host.run_pure, ok_bind, climbed]
  · obtain ⟨different, isKey, isValue⟩ := ended absent
    have nonzero : r.notFoundValue ≠ 0 := by
      rcases plain with isOld0 | nonzero
      · rw [notEmpty] at isOld0
        cases isOld0
      · exact nonzero
    rw [isValue] at nonzero
    obtain ⟨next, climbed, hashed⟩ := run_climb (H := H) search.short (H.hash2 k v 1)
      (env.logged (.hash2 k v 1))
    refine ⟨next, ?_, fun q member => ?_⟩
    · have start : (hashLeaf H (toU256 k) (toU256 v)).run env =
          .ok (toU256 (H.hash2 k v 1), env.logged (.hash2 k v 1)) := run_hashLeaf k v env
      simp only [isKey, isValue, search.passed, List.length_map, search.isRoot, ne_eq, different,
        nonzero, not_false_eq_true, and_self, if_true, not_true_eq_false, if_false, StateT.run_bind,
        start, Host.run_pure, ok_bind, climbed]
    · rcases (hashed q).mp member with before | onPath
      · rcases List.mem_cons.mp before with rfl | older
        · exact leafLogged
        · exact older
      · exact search.logged q onPath

/-- When the path ended at a leaf of value zero the verifier starts from an empty slot, and
reaches the root only through a collision. -/
theorem verify_own_plain (filed : Filed H env) (find : findKey env.storage key = .ok r)
    (absent : r.found = false) {next : Env Storage}
    (accepted : (verifyNonMembership H key r.siblings r.notFoundKey r.notFoundValue).run env =
      .ok (true, next)) (free : CollisionFree H {q | q ∈ next.hashed}) :
    r.isOld0 = true ∨ r.notFoundValue ≠ 0 := by
  obtain ⟨siblings, last, search⟩ := exists_search filed find
  rw [run_verify_own find absent] at accepted
  rcases search.stop with ⟨-, -, isOld0, -, -⟩ | ⟨k, v, rfl, leafLogged, notEmpty, ended⟩
  · exact Or.inl isOld0
  · right
    intro zero
    obtain ⟨now, climbed, hashed⟩ := run_climb (H := H) search.short 0 env
    rw [toU256_zero] at climbed
    simp only [zero, search.passed, List.length_map, search.isRoot, ne_eq, not_true_eq_false,
      and_false, if_false, StateT.run_bind, Host.run_pure, ok_bind, climbed] at accepted
    by_cases same : climb H (splitBits key) siblings 0 = climb H (splitBits key) siblings (H.hash2 k v 1)
    · simp only [same, not_true_eq_false, if_false, Host.run_pure, Except.ok.injEq, Prod.mk.injEq,
        true_and] at accepted
      subst accepted
      have started := climb_injective free (fun q member => (hashed q).mpr (Or.inr member))
        (fun q member => (hashed q).mpr (Or.inl (search.logged q member))) same
      exact free.ne_zero _ ((hashed _).mpr (Or.inl leafLogged)) started.symm
    · have apart : ¬toU256 (climb H (splitBits key) siblings 0) =
          toU256 (climb H (splitBits key) siblings (H.hash2 k v 1)) :=
        fun equal => same (toU256_injective equal)
      simp only [apart, not_false_eq_true, if_true, Host.run_fail] at accepted
      cases accepted

/-- Whatever proof is accepted is the answer of the search. -/
theorem accepted_is_own {siblings : List U256} {notFoundKey notFoundValue : U256} {next : Env Storage}
    (accepted : (verifyNonMembership H key siblings notFoundKey notFoundValue).run env =
      .ok (true, next)) :
    ∃ r, findKey env.storage key = .ok r ∧ r.found = false ∧ siblings = r.siblings ∧
      notFoundKey = r.notFoundKey ∧ notFoundValue = r.notFoundValue := by
  cases find : findKey env.storage key with
  | error e =>
    rw [findKey] at find
    simp only [verifyNonMembership, StateT.run_bind, Host.run_storage, ok_bind, find,
      Host.run_lift_error, error_bind] at accepted
    cases accepted
  | ok r =>
    rw [findKey] at find
    simp only [verifyNonMembership, StateT.run_bind, Host.run_storage, ok_bind, find,
      Host.run_lift_ok] at accepted
    cases found : r.found with
    | true =>
      simp only [found, if_true, Host.run_pure] at accepted
      cases accepted
    | false =>
      simp only [found, Bool.false_eq_true, if_false] at accepted
      by_cases length : r.siblings.length = siblings.length
      · rw [if_neg (not_not.mpr length)] at accepted
        by_cases same : siblings = r.siblings
        · rw [if_neg (not_not.mpr same)] at accepted
          by_cases claim : r.notFoundKey ≠ notFoundKey ∨ r.notFoundValue ≠ notFoundValue
          · rw [if_pos claim] at accepted
            cases accepted
          · push Not at claim
            exact ⟨r, rfl, found, same, claim.1.symm, claim.2.symm⟩
        · rw [if_pos same] at accepted
          cases accepted
      · rw [if_pos length] at accepted
        cases accepted

end Verify

/-- For an absent key the verifier accepts what `find_key` returned whenever the search ended at
an empty slot or at a leaf whose value is not zero; at a leaf of value zero only a collision
lets it accept. -/
theorem verify_own_answer {admin : Address} {calls : List Call} {key : U256} {r : FindResult}
    (absent : ∀ v, ¬Blocks (run H admin calls).storage key v)
    (find : findKey (run H admin calls).storage key = .ok r) :
    (r.isOld0 = true ∨ r.notFoundValue ≠ 0 →
      ∃ next, (verifyNonMembership H key r.siblings r.notFoundKey r.notFoundValue).run
        (run H admin calls) = .ok (true, next)) ∧
    ∀ next, (verifyNonMembership H key r.siblings r.notFoundKey r.notFoundValue).run
        (run H admin calls) = .ok (true, next) →
      CollisionFree H {q | q ∈ next.hashed} → r.isOld0 = true ∨ r.notFoundValue ≠ 0 := by
  have filed := filed_run H admin calls
  have top (nonzero : (run H admin calls).storage.root.getD 0 ≠ 0) :
      Reachable (run H admin calls).storage ((run H admin calls).storage.root.getD 0) := by
    cases stored : (run H admin calls).storage.root with
    | none => simp [stored] at nonzero
    | some root =>
      rw [stored] at nonzero
      exact .root stored nonzero
  have missing : r.found = false := by
    by_contra found
    obtain ⟨v, blocks⟩ := blocks_of_found filed find top (Bool.eq_true_of_not_eq_false found)
    exact absent v blocks
  refine ⟨fun plain => ?_, fun next accepted free => verify_own_plain filed find missing accepted free⟩
  obtain ⟨next, accepted, -⟩ := verify_own_accepts filed find missing plain
  exact ⟨next, accepted⟩

theorem plainCalls_free :
    CollisionFree poseidon2 {q | q ∈ (run poseidon2 ⟨0⟩ [.insertLeaf [⟨0⟩] 1 5]).hashed} :=
  CollisionFree.of_log _ (by decide +kernel)

theorem verify_own_answer_sample :
    ∃ next, (verifyNonMembership poseidon2 2 [] 1 5).run
      (run poseidon2 ⟨0⟩ [.insertLeaf [⟨0⟩] 1 5]) = .ok (true, next) :=
  (verify_own_answer (not_blocks_of_run plainCalls_free (by decide +kernel))
    (r := { found := false, siblings := [], foundValue := 0, notFoundKey := 1, notFoundValue := 5,
            isOld0 := false })
    (by decide +kernel)).1 (by decide)

/-- A single leaf of value zero: the search for another key ends there, and its answer is refused. -/
theorem zero_leaf_refused :
    (∀ v, ¬Blocks (run poseidon2 ⟨0⟩ [.insertLeaf [⟨0⟩] 1 0]).storage 2 v) ∧
    ∃ r, findKey (run poseidon2 ⟨0⟩ [.insertLeaf [⟨0⟩] 1 0]).storage 2 = .ok r ∧
      ¬∃ next, (verifyNonMembership poseidon2 2 r.siblings r.notFoundKey r.notFoundValue).run
        (run poseidon2 ⟨0⟩ [.insertLeaf [⟨0⟩] 1 0]) = .ok (true, next) := by
  have free : CollisionFree poseidon2
      {q | q ∈ (run poseidon2 ⟨0⟩ [.insertLeaf [⟨0⟩] 1 0]).hashed} :=
    CollisionFree.of_log _ (by decide +kernel)
  refine ⟨not_blocks_of_run free (by decide +kernel),
    { found := false, siblings := [], foundValue := 0, notFoundKey := 1, notFoundValue := 0,
      isOld0 := false }, by decide +kernel, ?_⟩
  rw [← Host.value?_eq_some]
  decide +kernel

/-- In a state of a run, no proof for a key is accepted while a congruent key is stored, unless
the key is not below the modulus, a congruent key is stored and the search for the key does not
end at a leaf of value zero. -/
theorem verify_sound_iff {admin : Address} {calls : List Call}
    (free : CollisionFree H {q | q ∈ (run H admin calls).hashed}) (key : U256) :
    (∀ siblings notFoundKey notFoundValue next,
      (verifyNonMembership H key siblings notFoundKey notFoundValue).run (run H admin calls) =
        .ok (true, next) →
      CollisionFree H {q | q ∈ next.hashed} →
      ¬∃ key' v, Blocks (run H admin calls).storage key' v ∧ ofU256 key' = ofU256 key) ↔
    Canonical key ∨
      (¬∃ key' v, Blocks (run H admin calls).storage key' v ∧ ofU256 key' = ofU256 key) ∨
      ∃ near, NearestTo (run H admin calls).storage key near ∧
        Blocks (run H admin calls).storage near 0 := by
  obtain ⟨t, tracks⟩ := tracks_run free
  have rep := tracks.toRepresents
  have filed := filed_run H admin calls
  obtain ⟨siblings, stop, cut, kind, short⟩ := rep.exists_path key
  have find := rep.findKey_eq free cut kind short
  have stored (inside : ¬Canonical key) (v : U256) : ¬Blocks (run H admin calls).storage key v := by
    intro blocks
    exact inside (tracks.canonical_key ((tracks.blocks_iff free key v).mp blocks))
  constructor
  · intro sound
    by_contra faulty
    push Not at faulty
    obtain ⟨outside, congruent, plain⟩ := faulty
    have missing : (pathResult H key siblings stop).found = false := by
      rcases kind with rfl | ⟨k, v, rfl⟩
      · rfl
      · have different : toU256 k ≠ key := by
          rintro rfl
          exact Nat.not_lt.mpr outside (canonical_toU256 k)
        rw [pathResult, endResult, if_neg different]
    have ended : (pathResult H key siblings stop).isOld0 = true ∨
        (pathResult H key siblings stop).notFoundValue ≠ 0 := by
      rcases kind with rfl | ⟨k, v, rfl⟩
      · exact Or.inl rfl
      · right
        have different : toU256 k ≠ key := by
          rintro rfl
          exact Nat.not_lt.mpr outside (canonical_toU256 k)
        rw [pathResult, endResult, if_neg different]
        intro zero
        obtain ⟨near, nearest, blocks⟩ := (rep.nearestTo_stop_iff free cut (Or.inr ⟨k, v, rfl⟩)
          (stored (Nat.not_lt.mpr outside)) 0).mpr ⟨k, v, zero.symm, rfl⟩
        exact plain near nearest blocks
    obtain ⟨next, accepted, grown⟩ := verify_own_accepts filed find missing ended
    exact sound _ _ _ next accepted (free.mono grown) congruent
  · intro condition siblings' notFoundKey notFoundValue next accepted freeNext
    rintro ⟨key', v, blocks, same⟩
    obtain ⟨r, isAnswer, missing, rfl, rfl, rfl⟩ := accepted_is_own accepted
    rw [find, Except.ok.injEq] at isAnswer
    subst isAnswer
    by_cases inside : Canonical key
    · -- a congruent stored key is the key itself
      obtain ⟨k, kv, rfl, rfl, has⟩ := (rep.blocks_iff free _ _).mp blocks
      rw [ofU256_toU256] at same
      rw [← toU256_ofU256 inside, ← same, turns_toU256] at cut
      rw [rep.stop_eq_leaf cut has kind, pathResult, endResult,
        if_pos (by rw [same, toU256_ofU256 inside])] at missing
      cases missing
    · rcases condition with canonical | none | zeroLeaf
      · exact inside canonical
      · exact none ⟨key', v, blocks, same⟩
      · obtain ⟨l, lv, zero, isStop⟩ :=
          (rep.nearestTo_stop_iff free cut kind (stored inside) 0).mp zeroLeaf
        have different : toU256 l ≠ key := by
          rintro rfl
          exact inside (canonical_toU256 l)
        have plain := verify_own_plain filed find missing accepted freeNext
        rw [isStop, pathResult, endResult, if_neg different, ← zero] at plain
        rcases plain with isOld0 | nonzero
        · cases isOld0
        · exact nonzero rfl

theorem verify_sound_iff_sample :
    Canonical 2 ∧ ∀ siblings notFoundKey notFoundValue next,
      (verifyNonMembership poseidon2 2 siblings notFoundKey notFoundValue).run
        (run poseidon2 ⟨0⟩ [.insertLeaf [⟨0⟩] 1 5]) = .ok (true, next) →
      CollisionFree poseidon2 {q | q ∈ next.hashed} →
      ¬∃ key' v, Blocks (run poseidon2 ⟨0⟩ [.insertLeaf [⟨0⟩] 1 5]).storage key' v ∧
        ofU256 key' = ofU256 2 :=
  ⟨by decide, (verify_sound_iff plainCalls_free 2).mpr (Or.inl (by decide))⟩

/-- The other representative of a blocked key: the search takes the bits of the 256-bit number,
and the leaf it ends at has another 256-bit number. -/
theorem congruent_key_accepted :
    ∃ siblings notFoundKey notFoundValue next,
      (verifyNonMembership poseidon2 (1 + BitVec.ofNat 256 bn256Modulus) siblings notFoundKey
        notFoundValue).run (run poseidon2 ⟨0⟩ [.insertLeaf [⟨0⟩] 1 5]) = .ok (true, next) ∧
      CollisionFree poseidon2 {q | q ∈ next.hashed} ∧
      ∃ key' v, Blocks (run poseidon2 ⟨0⟩ [.insertLeaf [⟨0⟩] 1 5]).storage key' v ∧
        ofU256 key' = ofU256 (1 + BitVec.ofNat 256 bn256Modulus) := by
  have find : findKey (run poseidon2 ⟨0⟩ [.insertLeaf [⟨0⟩] 1 5]).storage
      (1 + BitVec.ofNat 256 bn256Modulus) = .ok
        { found := false, siblings := [], foundValue := 0, notFoundKey := 1, notFoundValue := 5,
          isOld0 := false } := by decide +kernel
  obtain ⟨next, accepted, grown⟩ := verify_own_accepts
    (filed_run poseidon2 ⟨0⟩ [.insertLeaf [⟨0⟩] 1 5]) find rfl (Or.inr (by decide))
  refine ⟨_, _, _, next, accepted, plainCalls_free.mono grown, 1, 5, ?_, by decide +kernel⟩
  obtain ⟨t, tracks⟩ := tracks_run plainCalls_free
  exact (tracks.blocks_iff plainCalls_free 1 5).mpr (by decide +kernel)

end PrivatePayments.AspNonMembership
