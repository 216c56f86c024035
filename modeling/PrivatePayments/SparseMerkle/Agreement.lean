import PrivatePayments.Poseidon2.Permutation
import PrivatePayments.SparseMerkle.ProverTree
import PrivatePayments.SparseMerkle.ReferenceTree

/-!
The two trees side by side: over every sequence of operations they have the same roots and give the
same answers, but for zeros at the end of the siblings that the client's insertion reports.
-/

namespace PrivatePayments.SparseMerkle
open Bn254 Poseidon2 Library SparseTree TreePath Nearest
open AspNonMembership (KeyTree keyBit Extension grown exists_extension)
open AspNonMembership.KeyTree

inductive Answer (N : Type) where
  | found (r : FindResult N)
  | changed (r : SMTResult N)

def Answer.map {N M : Type} (f : N → M) : Answer N → Answer M
  | .found r => .found (r.map f)
  | .changed r => .changed (r.map f)

def Answer.trimmed : Answer Fr → Answer Fr
  | .found r => .found { r with siblings := trimZeros r.siblings }
  | .changed r => .changed { r with siblings := trimZeros r.siblings }

section Runs

variable (H : Hasher)

def Prover.SparseMerkleTree.step (s : Prover.SparseMerkleTree) :
    Op → Except Prover.Error (Answer Fr × Prover.SparseMerkleTree)
  | .insert key value => do
    let (r, s') ← s.insert H key value
    return (.changed r, s')
  | .update key newValue => do
    let (r, s') ← s.update H key newValue
    return (.changed r, s')
  | .find key => do return (.found (← s.find key), s)

/-- The reference gets the field elements as big integers. -/
def Reference.SparseMerkleTree.step (s : Reference.SparseMerkleTree) :
    Op → Except Reference.Error (Answer Reference.BigInt × Reference.SparseMerkleTree)
  | .insert key value => do
    let (r, s') ← s.insert H (Reference.fpBn256ToBigInt key) (Reference.fpBn256ToBigInt value)
    return (.changed r, s')
  | .update key newValue => do
    let (r, s') ← s.update H (Reference.fpBn256ToBigInt key) (Reference.fpBn256ToBigInt newValue)
    return (.changed r, s')
  | .find key => do return (.found (← s.find (Reference.fpBn256ToBigInt key)), s)

/-- The root and the answer after each operation, from the empty tree, and the tree at the end. -/
def Prover.run (ops : List Op) : Except Prover.Error (List (Fr × Answer Fr) × Prover.SparseMerkleTree) :=
  ops.foldlM (fun state op => do
    let (a, s) ← state.2.step H op
    return (state.1 ++ [(s.root, a)], s)) ([], .new)

def Reference.run (ops : List Op) :
    Except Reference.Error (List (Reference.BigInt × Answer Reference.BigInt) × Reference.SparseMerkleTree) :=
  ops.foldlM (fun state op => do
    let (a, s) ← state.2.step H op
    return (state.1 ++ [(s.root, a)], s)) ([], .new)

/-- The Poseidon2 queries that hash the sparse tree of what is stored, after each operation. -/
def queriesOf (ops : List Op) : Set Query :=
  {q | ∃ before t, before <+: ops ∧ Denotes t (contents before) ∧ q ∈ queries H t}

end Runs

/-- One stored key shares at least two low bits more with `k` than any other stored key does, and
the lowest bit in any case. -/
def DeepCollision (m : Contents) (k : Fr) : Prop :=
  ∃ near, m near ≠ none ∧ keyBit near 0 = keyBit k 0 ∧
    ∀ far, m far ≠ none → far ≠ near → Outlasts keyBit (keyBit k) near far

def Op.Deep (m : Contents) : Op → Prop
  | .insert key _ => DeepCollision m key
  | _ => False

section Step

variable {H : Hasher} {inPlay : Set Query} {t : KeyTree} {m : Contents} {k : Fr} {siblings extra : List KeyTree}
  {stop : KeyTree}

/-- A collision is deep if zeros are pushed over it. -/
theorem deepCollision_iff (denotes : Denotes t m) (path : PathTo t k siblings stop)
    (extension : Extension k siblings stop extra) : DeepCollision m k ↔ extra.dropLast ≠ [] := by
  have stops (near : Fr) := outlasts_iff_stop path.canonical_plug path.kind near
  simp only [← path.cut, denotes.hasKey_iff] at stops
  rw [DeepCollision, exists_congr stops]
  rcases extension.shape with ⟨rfl, rfl⟩ | ⟨old, oldValue, n, rfl, -, rfl, -, shared, apart⟩
  · simp
  · rw [List.dropLast_concat]
    constructor
    · rintro ⟨near, value, same, next⟩ none
      cases same
      have zero : n = 0 := by simpa using none
      rw [zero] at apart
      exact apart next
    · intro pushed
      have positive : 0 < n := by
        by_contra zero
        exact pushed (by rw [show n = 0 by omega]; rfl)
      exact ⟨old, oldValue, rfl, shared _ (Nat.le_refl _) (by omega)⟩

/-- The zeros pushed are all that trimming takes away. -/
theorem trimmed_reported (free : CollisionFree H inPlay) (path : PathTo t k siblings stop)
    (extension : Extension k siblings stop extra) (within : ∀ q ∈ queries H t, q ∈ inPlay) :
    trimZeros ((siblings ++ extra.dropLast).map (hash H)) = siblings.map (hash H) := by
  rw [path.cut] at within
  have ends := last_hash_ne_zero H free path.canonical_plug path.kind within
  rcases extension.shape with ⟨rfl, rfl⟩ | ⟨old, oldValue, n, rfl, -, rfl, -, -, -⟩
  · rw [List.dropLast_nil, List.append_nil]
    exact trimZeros_eq_self ends
  · rw [List.dropLast_concat, List.map_append, List.map_replicate]
    exact (trimZeros_append_replicate _ n).trans (trimZeros_eq_self ends)

theorem trimmed_siblings (free : CollisionFree H inPlay) (path : PathTo t k siblings stop)
    (within : ∀ q ∈ queries H t, q ∈ inPlay) : trimZeros (siblings.map (hash H)) = siblings.map (hash H) := by
  rw [path.cut] at within
  exact trimZeros_eq_self (last_hash_ne_zero H free path.canonical_plug path.kind within)

def InStep (H : Hasher) (s : Prover.SparseMerkleTree) (s' : Reference.SparseMerkleTree) (m : Contents) : Prop :=
  ∃ t, Denotes t m ∧ Prover.Keeps H s t ∧ Reference.Keeps H s' t

theorem InStep.root {s : Prover.SparseMerkleTree} {s' : Reference.SparseMerkleTree} (inStep : InStep H s s' m) :
    s'.root = Reference.fpBn256ToBigInt s.root := by
  obtain ⟨t, -, mine, theirs⟩ := inStep
  rw [mine.root, theirs.root, Reference.hashOf]

structure Agrees (H : Hasher) (m : Contents) (op : Op) (s : Prover.SparseMerkleTree) (s' : Reference.SparseMerkleTree)
    (a : Answer Fr) (b : Answer Reference.BigInt) : Prop where
  inStep : InStep H s s' (op.apply m)
  trimmed : b = a.trimmed.map Reference.fpBn256ToBigInt
  exactly : b = a.map Reference.fpBn256ToBigInt ↔ ¬op.Deep m

theorem step_agrees (free : CollisionFree H inPlay) {s : Prover.SparseMerkleTree} {s' : Reference.SparseMerkleTree}
    (inStep : InStep H s s' m) {op : Op} (legal : op.Legal m)
    (within : ∀ t, Denotes t m → ∀ q ∈ queries H t, q ∈ inPlay)
    (within' : ∀ t, Denotes t (op.apply m) → ∀ q ∈ queries H t, q ∈ inPlay) :
    ∃ a b next next', s.step H op = .ok (a, next) ∧ s'.step H op = .ok (b, next') ∧
      Agrees H m op next next' a b := by
  obtain ⟨t, denotes, mine, theirs⟩ := inStep
  have inside := within t denotes
  cases op with
  | find key =>
    obtain ⟨siblings, stop, path⟩ := exists_pathTo denotes.canonical key
    refine ⟨.found (findAnswer H key siblings stop),
      .found ((findAnswer H key siblings stop).map Reference.fpBn256ToBigInt), s, s', ?_, ?_,
      ⟨t, denotes, mine, theirs⟩, ?_, iff_of_true rfl id⟩
    · rw [Prover.SparseMerkleTree.step, Prover.find_eq free mine path inside]
      rfl
    · rw [Reference.SparseMerkleTree.step, Reference.find_eq free theirs path inside]
      rfl
    · rw [Answer.trimmed, findAnswer, trimmed_siblings free path inside]
      rfl
  | update key newValue =>
    obtain ⟨old, has⟩ := (denotes.hasKey_iff key).mpr legal
    obtain ⟨siblings, stop, path⟩ := exists_pathTo denotes.canonical key
    cases path.stop_eq_leaf has
    have replaced := denotes.replaced path newValue
    obtain ⟨next, updated, keeps⟩ := Prover.update_eq free mine path newValue inside (within' _ replaced)
    obtain ⟨next', updated', keeps'⟩ := Reference.update_eq free theirs path newValue inside (within' _ replaced)
    refine ⟨.changed (updateAnswer H key old newValue siblings),
      .changed ((updateAnswer H key old newValue siblings).map Reference.fpBn256ToBigInt), next, next', ?_, ?_,
      ⟨_, replaced, keeps, keeps'⟩, ?_, iff_of_true rfl id⟩
    · rw [Prover.SparseMerkleTree.step, updated]
      rfl
    · rw [Reference.SparseMerkleTree.step, updated']
      rfl
    · rw [Answer.trimmed, updateAnswer, trimmed_siblings free path inside]
      rfl
  | insert key value =>
    have absent : ¬t.HasKey key := fun has => (denotes.hasKey_iff key).mp has legal
    obtain ⟨siblings, stop, path⟩ := exists_pathTo denotes.canonical key
    obtain ⟨extra, extension⟩ := exists_extension path.canonical_plug path.kind (path.not_hasKey_stop absent)
    have inserted := denotes.inserted path extension legal value
    obtain ⟨next, done, keeps⟩ := Prover.insert_eq free mine path extension absent value inside (within' _ inserted)
    obtain ⟨next', done', keeps'⟩ := Reference.insert_eq free theirs path extension absent value inside
      (within' _ inserted)
    refine ⟨.changed (insertAnswer H key value siblings extra stop (siblings ++ extra.dropLast)),
      .changed ((insertAnswer H key value siblings extra stop siblings).map Reference.fpBn256ToBigInt), next, next',
      ?_, ?_, ⟨_, inserted, keeps, keeps'⟩, ?_, ?_⟩
    · rw [Prover.SparseMerkleTree.step, done]
      rfl
    · rw [Reference.SparseMerkleTree.step, done']
      rfl
    · rw [Answer.trimmed, insertAnswer, insertAnswer, trimmed_reported free path extension inside]
      rfl
    · rw [Op.Deep, deepCollision_iff denotes path extension, not_not]
      constructor
      · intro same
        injection same with same
        have lengths := congrArg (fun r => r.siblings.length) same
        simp only [SMTResult.map, insertAnswer, List.length_map, List.length_append] at lengths
        exact List.length_eq_zero_iff.mp (by omega)
      · intro none
        rw [none, List.append_nil]
        rfl

end Step

theorem run_agrees {H : Hasher} {ops : List Op} (legal : Legal ops) {inPlay : Set Query} (free : CollisionFree H inPlay)
    (within : ∀ q ∈ queriesOf H ops, q ∈ inPlay) :
    ∃ mine theirs s s', Prover.run H ops = .ok (mine, s) ∧ Reference.run H ops = .ok (theirs, s') ∧
      InStep H s s' (contents ops) ∧ theirs = mine.map (fun entry => (Reference.fpBn256ToBigInt entry.1,
        entry.2.trimmed.map Reference.fpBn256ToBigInt)) ∧
      (theirs = mine.map (fun entry => (Reference.fpBn256ToBigInt entry.1, entry.2.map Reference.fpBn256ToBigInt)) ↔
        ∀ before op after, ops = before ++ op :: after → ¬op.Deep (contents before)) := by
  induction ops using List.reverseRecOn with
  | nil =>
    refine ⟨[], [], .new, .new, rfl, rfl, ⟨.empty, Denotes.empty, Prover.keeps_new, Reference.keeps_new⟩, rfl,
      iff_of_true rfl ?_⟩
    intro before op after cut
    simp at cut
  | append_singleton ops op ih =>
    obtain ⟨legalOps, legalOp⟩ := forall_splits_append.mp legal
    obtain ⟨mine, theirs, s, s', ran, ran', inStep, trimmed, exactly⟩ := ih legalOps (by
      rintro q ⟨before, t, part, denotes, asked⟩
      exact within q ⟨before, t, part.trans (List.prefix_append _ _), denotes, asked⟩)
    obtain ⟨a, b, next, next', stepped, stepped', agrees⟩ := step_agrees free inStep legalOp
      (fun t denotes q asked => within q ⟨ops, t, List.prefix_append _ _, denotes, asked⟩)
      (fun t denotes q asked => within q ⟨ops ++ [op], t, List.prefix_refl _, by rwa [contents_append], asked⟩)
    refine ⟨mine ++ [(next.root, a)], theirs ++ [(next'.root, b)], next, next', ?_, ?_, ?_, ?_, ?_⟩
    · rw [Prover.run, List.foldlM_append]
      change (Prover.run H ops >>= _) = _
      rw [ran]
      simp only [bind, Except.bind, List.foldlM_cons, List.foldlM_nil, stepped, pure, Except.pure]
    · rw [Reference.run, List.foldlM_append]
      change (Reference.run H ops >>= _) = _
      rw [ran']
      simp only [bind, Except.bind, List.foldlM_cons, List.foldlM_nil, stepped', pure, Except.pure]
    · rw [contents_append]
      exact agrees.inStep
    · rw [trimmed, List.map_append, agrees.inStep.root, agrees.trimmed]
      rfl
    · rw [forall_splits_append, ← exactly, ← agrees.exactly, List.map_append, agrees.inStep.root]
      constructor
      · intro same
        obtain ⟨earlier, last⟩ := List.append_inj' same rfl
        injection last with last
        exact ⟨earlier, congrArg Prod.snd last⟩
      · rintro ⟨earlier, last⟩
        rw [earlier, last]
        rfl

/-- The client's tree is the reference tree up to one difference. Over every sequence of insertions of
absent keys, updates of present ones and searches both have the same roots and give the same answers,
zeros at the end of the siblings aside; and these are the same as well exactly if no insertion meets a
deep collision. -/
theorem sibling_lists_agree_iff {H : Hasher} {ops : List Op} (legal : Legal ops)
    (free : CollisionFree H (queriesOf H ops)) :
    ∃ mine theirs s s', Prover.run H ops = .ok (mine, s) ∧ Reference.run H ops = .ok (theirs, s') ∧
      theirs = mine.map (fun entry => (Reference.fpBn256ToBigInt entry.1,
        entry.2.trimmed.map Reference.fpBn256ToBigInt)) ∧
      (theirs = mine.map (fun entry => (Reference.fpBn256ToBigInt entry.1, entry.2.map Reference.fpBn256ToBigInt)) ↔
        ∀ before key value after, ops = before ++ .insert key value :: after →
          ¬DeepCollision (contents before) key) := by
  obtain ⟨mine, theirs, s, s', ran, ran', -, trimmed, exactly⟩ := run_agrees legal free fun _ asked => asked
  refine ⟨mine, theirs, s, s', ran, ran', trimmed, exactly.trans ?_⟩
  constructor
  · intro none before key value after cut
    exact none before (.insert key value) after cut
  · intro none before op after cut
    cases op with
    | insert key value => exact none before key value after cut
    | update key newValue => exact id
    | find key => exact id

section Sample

/-- The second key shares the lowest bit with the first, the only one stored. -/
def deepOps : List Op := [.insert 1 5, .insert 3 7]

def deepTree : KeyTree := .node .empty (.node (.leaf 1 5) (.leaf 3 7))

theorem deepOps_legal : Legal deepOps := by
  intro before op after cut
  have parts : before <+: deepOps := ⟨op :: after, cut.symm⟩
  rcases before with _ | ⟨first, _ | ⟨second, rest⟩⟩
  · cases cut
    rfl
  · cases cut
    change contents [.insert 1 5] 3 = none
    decide +kernel
  · cases rest <;> cases cut

theorem denotes_one : Denotes (.leaf 1 5) (contents [.insert 1 5]) where
  canonical := trivial
  has := by
    intro k v
    by_cases same : k = 1
    · subst same
      simp [Has, contents, Op.apply]
    · simp [Has, contents, Op.apply, Function.update_of_ne same, Ne.symm same]

theorem denotes_deep : Denotes deepTree (contents deepOps) where
  canonical := by
    have bits : keyBit 1 0 = true ∧ keyBit 3 0 = true ∧ keyBit 1 1 = false ∧ keyBit 3 1 = true := by decide +kernel
    have right : ∀ k : Fr, 1 = k ∨ 3 = k → keyBit k 0 = true := by
      rintro k (rfl | rfl)
      · exact bits.1
      · exact bits.2.1
    simpa [deepTree, Library.Canonical, bits, SparseTree.size] using right
  has := by
    intro k v
    have apart : (3 : Fr) ≠ 1 := by decide +kernel
    by_cases first : k = 1
    · subst first
      simp [deepTree, deepOps, Has, contents, Op.apply, apart, Function.update_of_ne apart.symm]
    · by_cases second : k = 3
      · subst second
        simp [deepTree, deepOps, Has, contents, Op.apply, apart.symm]
      · simp [deepTree, deepOps, Has, contents, Op.apply, Function.update_of_ne first, Function.update_of_ne second,
          Ne.symm first, Ne.symm second]

theorem deepOps_free : CollisionFree poseidon2 (queriesOf poseidon2 deepOps) := by
  have log : CollisionFree poseidon2 {q | q ∈ queries poseidon2 (.leaf 1 5) ++ queries poseidon2 deepTree} :=
    CollisionFree.of_log _ (by decide +kernel)
  apply log.mono
  rintro q ⟨before, t, ⟨after, cut⟩, denotes, asked⟩
  rcases before with _ | ⟨first, _ | ⟨second, rest⟩⟩
  · rw [denotes.unique Denotes.empty] at asked
    cases asked
  · cases cut
    rw [denotes.unique denotes_one] at asked
    exact List.mem_append_left _ asked
  · have whole : first = .insert 1 5 ∧ second = .insert 3 7 ∧ rest = [] ∧ after = [] := by simpa [deepOps] using cut
    obtain ⟨rfl, rfl, rfl, rfl⟩ := whole
    rw [denotes.unique denotes_deep] at asked
    exact List.mem_append_right _ asked

def Answer.siblings {N : Type} : Answer N → List N
  | .found r => r.siblings
  | .changed r => r.siblings

theorem sibling_lists_agree_iff_deep : ∃ mine theirs s s', Prover.run poseidon2 deepOps = .ok (mine, s) ∧
    Reference.run poseidon2 deepOps = .ok (theirs, s') ∧
    theirs = mine.map (fun entry => (Reference.fpBn256ToBigInt entry.1,
      entry.2.trimmed.map Reference.fpBn256ToBigInt)) ∧
    (theirs = mine.map (fun entry => (Reference.fpBn256ToBigInt entry.1, entry.2.map Reference.fpBn256ToBigInt)) ↔
      ∀ before key value after, deepOps = before ++ .insert key value :: after →
        ¬DeepCollision (contents before) key) :=
  sibling_lists_agree_iff deepOps_legal deepOps_free

/-- The client reports the zero it has pushed, the reference does not. -/
theorem pushed_zero_reported : Legal deepOps ∧
    (Prover.run poseidon2 deepOps).toOption.map (fun r => r.1.map fun entry => entry.2.siblings) = some [[], [0]] ∧
    (Reference.run poseidon2 deepOps).toOption.map (fun r => r.1.map fun entry => entry.2.siblings) = some [[], []] :=
  ⟨deepOps_legal, by decide +kernel, by decide +kernel⟩

end Sample

end PrivatePayments.SparseMerkle
