import Mathlib.Data.List.GetD
import PrivatePayments.AspNonMembership.Exactness
import PrivatePayments.Circuits.SmtVerifier

/-!
The client's non-membership proof: the answer of `find_key`, padded or trimmed to the
depth of the circuit. It satisfies the circuit until two blocked keys share as many low
bits with the key as the circuit has levels, but one.
-/

namespace PrivatePayments.Client
open Bn254 Poseidon2 Soroban Library SparseTree TreePath Nearest Circuits AspNonMembership KeyTree

/-- Why the client has no proof: a text of its own, or the failure of the simulated call. -/
inductive ProofError where
  | message (text : String)
  | simulation (e : AspNonMembership.Error)
  deriving DecidableEq

structure AspNonMembershipProof where
  key : Fr
  oldKey : Fr
  oldValue : Fr
  isOld0 : Bool
  siblings : List Fr
  root : Fr
  deriving DecidableEq

def tryFromU256 (v : U256) : Except ProofError Fr :=
  if bn256Modulus ≤ v.toNat then .error (.message "field element out of range") else .ok (ofU256 v)

structure ParsedFindResult where
  found : Bool
  siblings : List Fr
  notFoundKey : Fr
  notFoundValue : Fr
  isOld0 : Bool

/-- `parse_find_result` on the map the contract returns. -/
def parseFindResult (r : FindResult) : Except ProofError ParsedFindResult := do
  let siblings ← r.siblings.mapM tryFromU256
  let notFoundKey ← tryFromU256 r.notFoundKey
  let notFoundValue ← tryFromU256 r.notFoundValue
  return { found := r.found, siblings := siblings, notFoundKey := notFoundKey,
           notFoundValue := notFoundValue, isOld0 := r.isOld0 }

def simulate {α : Type} : Except AspNonMembership.Error α → Except ProofError α
  | .ok a => .ok a
  | .error e => .error (.simulation e)

def fitSiblings (siblings : List Fr) (smtDepth : Nat) : List Fr :=
  if siblings.length < smtDepth then
    siblings ++ List.replicate (smtDepth - siblings.length) 0
  else if smtDepth < siblings.length then siblings.take smtDepth
  else siblings

/-- The note public key is given as the number its bytes spell, least significant first. -/
def getNonmembershipProof (findKey : U256 → Except AspNonMembership.Error FindResult)
    (notePubkey : U256) (nonMembershipRoot : Fr) (smtDepth : Nat) :
    Except ProofError AspNonMembershipProof := do
  if smtDepth = 0 then throw (.message "smt_depth must be > 0")
  let key ← tryFromU256 notePubkey
  if nonMembershipRoot = 0 then
    return { key := key, oldKey := 0, oldValue := 0, isOld0 := true,
             siblings := List.replicate smtDepth 0, root := 0 }
  let retval ← simulate (findKey (toU256 key))
  let parsed ← parseFindResult retval
  if parsed.found then
    throw (.message "Key exists in non-membership tree (user is sanctioned)")
  return { key := key, oldKey := parsed.notFoundKey, oldValue := parsed.notFoundValue,
           isOld0 := parsed.isOld0, siblings := fitSiblings parsed.siblings smtDepth,
           root := nonMembershipRoot }

/-- The signals the prover assigns from the proof, and those `PolicyTransaction` fixes. -/
def circuitInputs (proof : AspNonMembershipProof) : SMTVerifier.Inputs where
  enabled := 1
  root := proof.root
  siblings i := proof.siblings.getD i 0
  oldKey := proof.oldKey
  oldValue := proof.oldValue
  isOld0 := if proof.isOld0 then 1 else 0
  key := proof.key
  value := proof.key
  fnc := 1

/-- Two blocked keys share with `key` all the bits that the circuit's levels but one read. -/
def Crowded (s : Storage) (key : U256) (levels : Nat) : Prop :=
  ∃ near near', near ≠ near' ∧ (∃ v, Blocks s near v) ∧ (∃ v, Blocks s near' v) ∧
    ∀ j, j + 1 < levels → turns near j = turns key j ∧ turns near' j = turns key j

section Parsing

@[simp] theorem tryFromU256_toU256 (x : Fr) : tryFromU256 (toU256 x) = .ok x := by
  rw [tryFromU256, if_neg (Nat.not_le.mpr (canonical_toU256 x)), ofU256_toU256]

theorem mapM_tryFromU256 (xs : List Fr) : (xs.map toU256).mapM tryFromU256 = .ok xs := by
  induction xs with
  | nil => rfl
  | cons x xs ih =>
    rw [List.map_cons, List.mapM_cons, tryFromU256_toU256, ih]
    rfl

theorem getD_fitSiblings (siblings : List Fr) {smtDepth i : Nat} (below : i < smtDepth) :
    (fitSiblings siblings smtDepth).getD i 0 = siblings.getD i 0 := by
  unfold fitSiblings
  split
  next short =>
    by_cases inside : i < siblings.length
    · rw [List.getD_append _ _ _ _ inside]
    · rw [List.getD_append_right _ _ _ _ (by omega), List.getD_replicate _ (by omega),
        List.getD_eq_default _ _ (by omega)]
  next =>
    split
    next long => simp [List.getD_eq_getElem?_getD, below]
    next => rfl

end Parsing

section Path

variable {H : Hasher} {inPlay : Set Query}

theorem hash_plug (H : Hasher) (k : Fr) (d : Nat) (siblings : List KeyTree) (t : KeyTree) :
    hash H (plug (keyBit k) d siblings t) =
        climb H (SMTVerifier.bitsFrom k d siblings.length) (siblings.map (hash H)) (hash H t) ∧
      ∀ q ∈ climbQueries H (SMTVerifier.bitsFrom k d siblings.length) (siblings.map (hash H))
        (hash H t), q ∈ queries H (plug (keyBit k) d siblings t) := by
  induction siblings generalizing d with
  | nil => exact ⟨rfl, by simp⟩
  | cons s rest ih =>
    obtain ⟨below, logged⟩ := ih (d + 1)
    have bits : SMTVerifier.bitsFrom k d (s :: rest).length =
        keyBit k d :: SMTVerifier.bitsFrom k (d + 1) rest.length := rfl
    rw [bits, List.map_cons, plug, climb, climbQueries, List.forall_mem_cons, ← below]
    refine ⟨?_, ?_, fun q member => (mem_queries_branch ..).mpr (Or.inr (Or.inr (logged q member)))⟩
    · cases keyBit k d <;> rfl
    · refine (mem_queries_branch ..).mpr (Or.inl ?_)
      cases keyBit k d <;> rfl

theorem siblingsFrom_eq (siblings : List KeyTree) {m : Nat} (low : m ≤ siblings.length) {ss : Nat → Fr}
    (reads : ∀ i, i < m → ss i = (siblings.map (hash H)).getD i 0) :
    SMTVerifier.siblingsFrom ss 0 m = (siblings.take m).map (hash H) := by
  apply List.ext_getElem
  · simp [low]
  · intro i inLeft inRight
    have below : i < m := by simpa using inLeft
    simp [reads i below, List.getD_eq_getElem?_getD, List.getElem?_eq_getElem (Nat.lt_of_lt_of_le below low)]

/-- The path of a key is as long as the circuit exactly when the key is crowded. -/
theorem length_le_iff {k : Fr} {siblings : List KeyTree} {stop : KeyTree}
    (canonical : Library.Canonical keyBit 0 (plug (keyBit k) 0 siblings stop))
    (kind : stop = .empty ∨ ∃ k v, stop = .leaf k v) {n : Nat} (positive : 0 < n) :
    n ≤ siblings.length ↔
      ∃ near near', near ≠ near' ∧ (plug (keyBit k) 0 siblings stop).HasKey near ∧
        (plug (keyBit k) 0 siblings stop).HasKey near' ∧
        ∀ j, j + 1 < n → keyBit near j = keyBit k j ∧ keyBit near' j = keyBit k j := by
  obtain ⟨away, follows, -, full⟩ := (canonical_plug ..).mp canonical
  constructor
  · intro long
    rcases List.eq_nil_or_concat siblings with rfl | ⟨front, last, cut⟩
    · rw [List.length_nil] at long
      omega
    rw [List.concat_eq_append] at cut
    subst cut
    obtain ⟨-, toLast, here⟩ := (TreeUpdate.siblings_append ..).mp away
    have two := full last List.getLast?_concat
    rw [List.length_append, List.length_singleton] at long follows
    have inLast (near : Fr) (has : last.HasKey near) (j : Nat) (early : j + 1 < n) :
        keyBit near j = keyBit k j :=
      toLast last (List.mem_singleton.mpr rfl) near has j (Nat.zero_le j) (by omega)
    have under {near : Fr} (has : last.HasKey near) :
        (plug (keyBit k) 0 (front ++ [last]) stop).HasKey near :=
      (hasKey_plug ..).mpr (Or.inl ⟨last, by simp, has⟩)
    rcases kind with rfl | ⟨k', v', rfl⟩
    · obtain ⟨near, near', different, has, has'⟩ := here.1.two_keys keyBit
        (by simpa [SparseTree.size] using two)
      exact ⟨near, near', different, under has, under has',
        fun j early => ⟨inLast near has j early, inLast near' has' j early⟩⟩
    · obtain ⟨near, has⟩ := exists_hasKey (t := last) (by simp [SparseTree.size] at two; omega)
      have atEnd : SparseTree.HasKey k' (.leaf k' v' : KeyTree) := (hasKey_leaf ..).mpr rfl
      have keeps (j : Nat) (early : j < front.length + 1) : keyBit k' j = keyBit k j :=
        follows k' atEnd j (Nat.zero_le j) (by omega)
      refine ⟨near, k', ?_, under has, (hasKey_plug ..).mpr (Or.inr atEnd),
        fun j early => ⟨inLast near has j early, keeps j (by omega)⟩⟩
      rintro rfl
      have turned := here.2.1 near has
      rw [Nat.zero_add, keeps front.length (by omega)] at turned
      simp at turned
  · rintro ⟨near, near', different, has, has', shared⟩
    by_contra short
    have atStop (key : Fr) (inTree : (plug (keyBit k) 0 siblings stop).HasKey key)
        (keeps : ∀ j, j + 1 < n → keyBit key j = keyBit k j) : stop.HasKey key := by
      rcases (hasKey_plug ..).mp inTree with ⟨s, member, inS⟩ | inStop
      · obtain ⟨turn, below, turned, -⟩ := exists_turn away member inS
        rw [Nat.zero_add] at turned
        exact absurd (keeps turn (by omega)) turned
      · exact inStop
    have first := atStop near has fun j early => (shared j early).1
    have second := atStop near' has' fun j early => (shared j early).2
    rcases kind with rfl | ⟨k', v', rfl⟩
    · exact hasKey_empty near first
    · exact different (((hasKey_leaf ..).mp first).symm.trans ((hasKey_leaf ..).mp second))

end Path

/-- The proof carries the hashes of the path and what the path ends at. -/
structure Answer (H : Hasher) (key root : Fr) (smtDepth : Nat) (siblings : List KeyTree)
    (stop : KeyTree) (proof : AspNonMembershipProof) : Prop where
  sameKey : proof.key = key
  sameRoot : proof.root = root
  reads : ∀ i, i < smtDepth → proof.siblings.getD i 0 = (siblings.map (hash H)).getD i 0
  start : SMTVerifier.startOf H (circuitInputs proof) = hash H stop
  apart : proof.isOld0 = true ∨ proof.oldKey ≠ key

section Answer

variable {H : Hasher} {env : Env Storage} {t : KeyTree} {key root : Fr} {smtDepth : Nat}
  {siblings : List KeyTree} {stop : KeyTree} {proof : AspNonMembershipProof}

theorem answer_empty (H : Hasher) (key : Fr) (positive : 0 < smtDepth)
    (find : U256 → Except AspNonMembership.Error FindResult) :
    ∃ proof, getNonmembershipProof find (toU256 key) 0 smtDepth = .ok proof ∧
      Answer H key 0 smtDepth [] .empty proof := by
  refine ⟨⟨key, 0, 0, true, List.replicate smtDepth 0, 0⟩, ?_, rfl, rfl, ?_, ?_, Or.inl rfl⟩
  · rw [getNonmembershipProof, if_neg (by omega), tryFromU256_toU256]
    rfl
  · intro i below
    rw [List.getD_replicate _ below]
    rfl
  · simp [SMTVerifier.startOf, circuitInputs, KeyTree.hash]

theorem answer_of_find {find : U256 → Except AspNonMembership.Error FindResult}
    (positive : 0 < smtDepth) (nonzero : root ≠ 0)
    (found : find (toU256 key) = .ok (pathResult H (toU256 key) siblings stop))
    (kind : stop = .empty ∨ ∃ k v, k ≠ key ∧ stop = .leaf k v) :
    ∃ proof, getNonmembershipProof find (toU256 key) root smtDepth = .ok proof ∧
      Answer H key root smtDepth siblings stop proof := by
  have passed : (siblings.map (nodeKey H)).mapM tryFromU256 = .ok (siblings.map (hash H)) := by
    have names : siblings.map (nodeKey H) = (siblings.map (hash H)).map toU256 := by
      rw [List.map_map]
      rfl
    rw [names, mapM_tryFromU256]
  rcases kind with rfl | ⟨k, v, different, rfl⟩
  · refine ⟨⟨key, key, 0, true, fitSiblings (siblings.map (hash H)) smtDepth, root⟩, ?_, rfl,
      rfl, fun i below => getD_fitSiblings _ below, ?_, Or.inl rfl⟩
    · have parsed : parseFindResult (pathResult H (toU256 key) siblings .empty) =
          .ok { found := false, siblings := siblings.map (hash H), notFoundKey := key,
                notFoundValue := 0, isOld0 := true } := by
        have value : tryFromU256 0 = .ok 0 := by
          rw [← toU256_zero]
          exact tryFromU256_toU256 0
        simp only [parseFindResult, pathResult, endResult, passed, tryFromU256_toU256, value]
        rfl
      rw [getNonmembershipProof, if_neg (by omega), tryFromU256_toU256]
      simp only [bind, Except.bind, pure, Except.pure, if_neg nonzero, found, simulate, parsed]
      rfl
    · simp [SMTVerifier.startOf, circuitInputs, KeyTree.hash]
  · refine ⟨⟨key, k, v, false, fitSiblings (siblings.map (hash H)) smtDepth, root⟩, ?_, rfl,
      rfl, fun i below => getD_fitSiblings _ below, ?_, Or.inr different⟩
    · have parsed : parseFindResult (pathResult H (toU256 key) siblings (.leaf k v)) =
          .ok { found := false, siblings := siblings.map (hash H), notFoundKey := k,
                notFoundValue := v, isOld0 := false } := by
        have apart : ¬toU256 k = toU256 key := fun same => different (toU256_injective same)
        simp only [parseFindResult, pathResult, endResult, if_neg apart, passed, tryFromU256_toU256]
        rfl
      rw [getNonmembershipProof, if_neg (by omega), tryFromU256_toU256]
      simp only [bind, Except.bind, pure, Except.pure, if_neg nonzero, found, simulate, parsed]
      rfl
    · simp [SMTVerifier.startOf, circuitInputs, KeyTree.hash]

theorem Answer.satisfied (answer : Answer H key root smtDepth siblings stop proof)
    (rep : Represents H env t) (free : CollisionFree H {q | q ∈ env.hashed})
    (cut : t = plug (keyBit key) 0 siblings stop) (kind : stop = .empty ∨ ∃ k v, stop = .leaf k v)
    (isRoot : hash H t = root) {C : Circomlib} (lib : C.Published)
    (compiles : 2 ≤ smtDepth ∧ smtDepth ≤ 254) (short : siblings.length < smtDepth) :
    SMTVerifier.Satisfied C H smtDepth (circuitInputs proof)
      (SMTVerifier.honest H smtDepth (circuitInputs proof) siblings.length) := by
  have canonical := rep.canonical
  have logged := rep.logged
  rw [cut] at canonical logged
  refine SMTVerifier.honest_satisfied lib H compiles rfl rfl short ⟨?_, ?_⟩ ?_ ?_
  · intro j late below
    have read := answer.reads j below
    rw [List.getD_eq_default (siblings.map (hash H)) _ (by simpa using late)] at read
    exact read
  · intro above
    have read := answer.reads (siblings.length - 1) (by omega)
    have nonempty : siblings ≠ [] := List.ne_nil_of_length_pos above
    obtain ⟨last, isLast⟩ : ∃ last, siblings.getLast? = some last :=
      ⟨_, List.getLast?_eq_some_getLast nonempty⟩
    have member := List.mem_of_getLast? isLast
    rw [List.getLast?_eq_getElem?] at isLast
    have lastHash : (siblings.map (hash H)).getD (siblings.length - 1) 0 = hash H last := by
      rw [List.getD_eq_getElem?_getD, List.getElem?_map, isLast]
      rfl
    change proof.siblings.getD _ 0 ≠ 0
    rw [read, lastHash]
    refine hash_ne_zero free (TreeUpdate.last_ne_empty keyBit _ canonical kind (List.getLast?_eq_getElem? ▸ isLast))
      fun q inLast => logged q (queries_of_sibling member q inLast)
  · obtain ⟨climbs, -⟩ := hash_plug H key 0 siblings stop
    have names : SMTVerifier.siblingsFrom (circuitInputs proof).siblings 0 siblings.length =
        (siblings.take siblings.length).map (hash H) :=
      siblingsFrom_eq siblings (Nat.le_refl _) fun i below => answer.reads i (by omega)
    have isKey : (circuitInputs proof).key = key := answer.sameKey
    have top : (circuitInputs proof).root = root := answer.sameRoot
    rw [names, List.take_length, answer.start, isKey, top, ← isRoot, cut, climbs]
  · rcases answer.apart with isOld0 | different
    · exact Or.inl (by simp [circuitInputs, isOld0])
    · refine Or.inr ?_
      change proof.oldKey ≠ proof.key
      rw [answer.sameKey]
      exact different

/-- A proof whose path is as long as the circuit has no assignment without a collision. -/
theorem Answer.not_satisfied (answer : Answer H key root smtDepth siblings stop proof)
    (rep : Represents H env t) (cut : t = plug (keyBit key) 0 siblings stop)
    (kind : stop = .empty ∨ ∃ k v, stop = .leaf k v) (isRoot : hash H t = root)
    {C : Circomlib} (lib : C.Published) (long : smtDepth ≤ siblings.length) {inPlay : Set Query}
    (free : CollisionFree H inPlay) (runLogged : ∀ q ∈ env.hashed, q ∈ inPlay)
    {w : SMTVerifier.Signals} (logged : ∀ q ∈ SMTVerifier.queries smtDepth (circuitInputs proof) w,
      q ∈ inPlay) : ¬SMTVerifier.Satisfied C H smtDepth (circuitInputs proof) w := by
  intro sat
  obtain ⟨L, below, -, climbed, climbLogged, -⟩ := sat.climbs lib rfl rfl
  have treeLogged : ∀ q ∈ queries H (plug (keyBit key) 0 siblings stop), q ∈ inPlay :=
    fun q member => runLogged q (rep.logged q (cut ▸ member))
  -- the tree below the insertion level hashes to the start of the climb
  have split := plug_append (keyBit key) 0 (siblings.take L) (siblings.drop L) stop
  have length : (siblings.take L).length = L := by simp; omega
  rw [List.take_append_drop, length, Nat.zero_add] at split
  obtain ⟨climbs, upLogged⟩ := hash_plug H key 0 (siblings.take L)
    (plug (keyBit key) L (siblings.drop L) stop)
  rw [length] at climbs upLogged
  have names : SMTVerifier.siblingsFrom (circuitInputs proof).siblings 0 L =
      (siblings.take L).map (hash H) :=
    siblingsFrom_eq siblings (by omega) fun i early => answer.reads i (by omega)
  have isKey : (circuitInputs proof).key = key := answer.sameKey
  have top : (circuitInputs proof).root = root := answer.sameRoot
  rw [names, answer.start, isKey] at climbed climbLogged
  rw [top, ← isRoot, cut, split, climbs] at climbed
  have started := climb_injective free
    (fun q member => treeLogged q (split ▸ upLogged q member))
    (fun q member => logged q (climbLogged q member)) climbed
  have same := hash_injective free
    (fun q member => treeLogged q (split ▸ queries_of_stop q member))
    (fun q member => treeLogged q (queries_of_stop q member)) started
  rw [List.drop_eq_getElem_cons (show L < siblings.length by omega), plug] at same
  rcases kind with rfl | ⟨k, v, rfl⟩ <;> cases turn : keyBit key L <;> simp [branch, turn] at same

theorem crowded_iff (rep : Represents H env t) (free : CollisionFree H {q | q ∈ env.hashed})
    (cut : t = plug (keyBit key) 0 siblings stop) (kind : stop = .empty ∨ ∃ k v, stop = .leaf k v)
    (positive : 0 < smtDepth) :
    Crowded env.storage (toU256 key) smtDepth ↔ smtDepth ≤ siblings.length := by
  have canonical := rep.canonical
  rw [cut] at canonical
  rw [length_le_iff canonical kind positive, ← cut]
  have stored (near : U256) : (∃ v, Blocks env.storage near v) ↔ ∃ k, near = toU256 k ∧ t.HasKey k := by
    constructor
    · rintro ⟨v, blocks⟩
      obtain ⟨k, v, isKey, -, has⟩ := (rep.blocks_iff free _ _).mp blocks
      exact ⟨k, isKey, v, has⟩
    · rintro ⟨k, isKey, v, has⟩
      exact ⟨toU256 v, (rep.blocks_iff free _ _).mpr ⟨k, v, isKey, rfl, has⟩⟩
  simp only [Crowded, stored]
  constructor
  · rintro ⟨_, _, different, ⟨near, rfl, has⟩, ⟨near', rfl, has'⟩, shared⟩
    simp only [turns_toU256] at shared
    exact ⟨near, near', fun same => different (congrArg toU256 same), has, has', shared⟩
  · rintro ⟨near, near', different, has, has', shared⟩
    refine ⟨_, _, fun same => different (toU256_injective same), ⟨near, rfl, has⟩,
      ⟨near', rfl, has'⟩, ?_⟩
    simp only [turns_toU256]
    exact shared

/-- For an absent key the client has a proof whatever the depth. -/
theorem exists_answer (rep : Represents H env t) (free : CollisionFree H {q | q ∈ env.hashed})
    (absent : ∀ v, ¬Blocks env.storage (toU256 key) v) (isRoot : hash H t = root)
    (positive : 0 < smtDepth) :
    ∃ proof siblings stop, getNonmembershipProof (findKey env.storage) (toU256 key) root smtDepth =
        .ok proof ∧ t = plug (keyBit key) 0 siblings stop ∧
      (stop = .empty ∨ ∃ k v, stop = .leaf k v) ∧ Answer H key root smtDepth siblings stop proof := by
  by_cases zero : root = 0
  · have empty : t = .empty := by
      by_contra nonempty
      exact hash_ne_zero free nonempty rep.logged (isRoot.trans zero)
    obtain ⟨proof, returned, answer⟩ := answer_empty H key positive (findKey env.storage)
    subst zero
    exact ⟨proof, [], .empty, returned, empty, Or.inl rfl, answer⟩
  · obtain ⟨siblings, stop, cut, kind, short⟩ := rep.exists_path (toU256 key)
    have found := rep.findKey_eq free cut kind short
    rw [turns_toU256] at cut
    have foreign : stop = .empty ∨ ∃ k v, k ≠ key ∧ stop = .leaf k v := by
      rcases kind with rfl | ⟨k, v, rfl⟩
      · exact Or.inl rfl
      · refine Or.inr ⟨k, v, ?_, rfl⟩
        rintro rfl
        refine absent (toU256 v) ((rep.blocks_iff free _ _).mpr ⟨k, v, rfl, rfl, ?_⟩)
        rw [cut]
        exact (has_plug ..).mpr (Or.inr ⟨rfl, rfl⟩)
    obtain ⟨proof, returned, answer⟩ := answer_of_find positive zero found foreign
    exact ⟨proof, siblings, stop, returned, cut, kind, answer⟩

end Answer

/-- For an absent key of any run the client builds a proof against the contract's root. It
satisfies the circuit unless the key is crowded, and then only a collision lets it. -/
theorem nonmembership_proof_usable {H : Hasher} {admin : Address} {calls : List Call}
    (free : CollisionFree H {q | q ∈ (run H admin calls).hashed}) {key root : Fr}
    (absent : ∀ v, ¬Blocks (run H admin calls).storage (toU256 key) v)
    (current : (run H admin calls).storage.root = some (toU256 root)) {C : Circomlib}
    (lib : C.Published) {smtDepth : Nat} (compiles : 2 ≤ smtDepth ∧ smtDepth ≤ 254) :
    ∃ proof, getNonmembershipProof (findKey (run H admin calls).storage) (toU256 key) root smtDepth =
        .ok proof ∧
      (circuitInputs proof).key = key ∧ (circuitInputs proof).root = root ∧
      (¬Crowded (run H admin calls).storage (toU256 key) smtDepth →
        ∃ w, SMTVerifier.Satisfied C H smtDepth (circuitInputs proof) w) ∧
      (Crowded (run H admin calls).storage (toU256 key) smtDepth → ∀ inPlay w, CollisionFree H inPlay →
        (∀ q ∈ (run H admin calls).hashed, q ∈ inPlay) →
        (∀ q ∈ SMTVerifier.queries smtDepth (circuitInputs proof) w, q ∈ inPlay) →
        ¬SMTVerifier.Satisfied C H smtDepth (circuitInputs proof) w) := by
  obtain ⟨t, tracks⟩ := tracks_run free
  have rep := tracks.toRepresents
  have isRoot : hash H t = root := toU256_injective (Option.some.inj (rep.root.symm.trans current))
  have positive : 0 < smtDepth := by omega
  obtain ⟨proof, siblings, stop, returned, cut, kind, answer⟩ :=
    exists_answer rep free absent isRoot positive
  refine ⟨proof, returned, answer.sameKey, answer.sameRoot, ?_, ?_⟩
  · intro roomy
    rw [crowded_iff rep free cut kind positive, Nat.not_le] at roomy
    exact ⟨_, answer.satisfied rep free cut kind isRoot lib compiles roomy⟩
  · intro crowded inPlay w freeAll runLogged logged
    rw [crowded_iff rep free cut kind positive] at crowded
    exact answer.not_satisfied rep cut kind isRoot lib crowded freeAll runLogged logged

theorem not_crowded_single {H : Hasher} {admin : Address} {auths : List Address} {blocked value : U256}
    (free : CollisionFree H {q | q ∈ (run H admin [.insertLeaf auths blocked value]).hashed}) (key : U256)
    (levels : Nat) :
    ¬Crowded (run H admin [.insertLeaf auths blocked value]).storage key levels := by
  rintro ⟨near, near', different, ⟨v, blocks⟩, ⟨v', blocks'⟩, -⟩
  have only (other v : U256) (blocks : Blocks (run H admin [.insertLeaf auths blocked value]).storage other v) :
      other = blocked := by
    by_contra apart
    refine not_blocks_of_run free ?_ v blocks
    change ((Blocklist.deployed admin).step (.insertLeaf auths blocked value)).entries other = none
    rw [Blocklist.step]
    split
    next => exact Function.update_of_ne apart _ _
    next => rfl
  exact different ((only near v blocks).trans (only near' v' blocks').symm)

/-- One blocked key, and another that is proved absent in the ten levels of the deployed circuit. -/
theorem nonmembership_proof_usable_sample :
    ∃ proof w, getNonmembershipProof (findKey (run poseidon2 ⟨0⟩ [.insertLeaf [⟨0⟩] 1 5]).storage)
        (toU256 2) (poseidon2.hash2 1 5 1) 10 = .ok proof ∧
      SMTVerifier.Satisfied Circomlib.standard poseidon2 10 (circuitInputs proof) w := by
  have free : CollisionFree poseidon2
      {q | q ∈ (run poseidon2 ⟨0⟩ [.insertLeaf [⟨0⟩] 1 5]).hashed} :=
    CollisionFree.of_log _ (by decide +kernel)
  have current : (run poseidon2 ⟨0⟩ [.insertLeaf [⟨0⟩] 1 5]).storage.root =
      some (toU256 (poseidon2.hash2 1 5 1)) := by decide +kernel
  have none : (Blocklist.run ⟨0⟩ [.insertLeaf [⟨0⟩] 1 5]).entries (toU256 2) = none := by
    decide +kernel
  obtain ⟨proof, returned, -, -, roomy, -⟩ := nonmembership_proof_usable free
    (not_blocks_of_run free none) current Circomlib.standard_published
    (show 2 ≤ 10 ∧ 10 ≤ 254 by decide)
  obtain ⟨w, satisfied⟩ := roomy (not_crowded_single free _ _)
  exact ⟨proof, w, returned, satisfied⟩

/-- Two blocked keys that part at the tenth bit. -/
def crowdedCalls : List Call := [.insertLeaf [⟨0⟩] 1 5, .insertLeaf [⟨0⟩] 513 7]

def crowdedRoot : Fr := ofU256 ((run poseidon2 ⟨0⟩ crowdedCalls).storage.root.getD 0)

/-- A key that shares the first nine bits with both has ten siblings, the last of them not zero. -/
theorem crowded_key_not_satisfied :
    CollisionFree poseidon2 {q | q ∈ (run poseidon2 ⟨0⟩ crowdedCalls).hashed} ∧
    (∀ v, ¬Blocks (run poseidon2 ⟨0⟩ crowdedCalls).storage (toU256 1025) v) ∧
    (run poseidon2 ⟨0⟩ crowdedCalls).storage.root = some (toU256 crowdedRoot) ∧
    ∃ proof, getNonmembershipProof (findKey (run poseidon2 ⟨0⟩ crowdedCalls).storage) (toU256 1025)
        crowdedRoot 10 = .ok proof ∧
      ∀ w, ¬SMTVerifier.Satisfied Circomlib.standard poseidon2 10 (circuitInputs proof) w := by
  have free : CollisionFree poseidon2 {q | q ∈ (run poseidon2 ⟨0⟩ crowdedCalls).hashed} :=
    CollisionFree.of_log _ (by decide +kernel)
  refine ⟨free, not_blocks_of_run free (by decide +kernel), by decide +kernel, ?_⟩
  have last : (getNonmembershipProof (findKey (run poseidon2 ⟨0⟩ crowdedCalls).storage)
      (toU256 1025) crowdedRoot 10).toOption.map (fun proof => decide (proof.siblings.getD 9 0 = 0)) =
        some false := by decide +kernel
  cases returned : getNonmembershipProof (findKey (run poseidon2 ⟨0⟩ crowdedCalls).storage)
      (toU256 1025) crowdedRoot 10 with
  | error e =>
    rw [returned] at last
    cases last
  | ok proof =>
    rw [returned] at last
    refine ⟨proof, rfl, fun w sat => ?_⟩
    have zero : proof.siblings.getD 9 0 = 0 := sat.levIns.1 one_ne_zero
    simp only [Except.toOption, Option.map_some, Option.some.injEq, decide_eq_false_iff_not] at last
    exact last zero

end PrivatePayments.Client
