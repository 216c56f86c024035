import PrivatePayments.Pool.Journal

/-!
What the accepted transactions spend: each input with an amount is the note at its position, no
position is spent twice and no nullifier is used twice, whatever roots the proofs were made against.
-/

namespace PrivatePayments.Pool
open Bn254 Poseidon2 Soroban Library Merkle Circuits PolicyTransaction

def Event.nullifier? : Event → Option U256
  | .newNullifier n => some n
  | .newCommitment _ _ _ => none

def Journal.told (j : Journal) : List U256 := j.ledger.pool.events.filterMap Event.nullifier?

theorem marked_eq_true {nullifiers : List U256} {nulls : U256 → Option Bool} {n : U256} :
    marked nullifiers nulls n = some true ↔ nulls n = some true ∨ n ∈ nullifiers := by
  induction nullifiers generalizing nulls with
  | nil => exact (or_iff_left List.not_mem_nil).symm
  | cons first rest ih =>
    change marked rest (Function.update nulls first (some true)) n = some true ↔ _
    rw [ih, List.mem_cons]
    by_cases same : n = first
    · simp [same]
    · rw [Function.update_of_ne same]
      simp [same]

theorem sum_map_filter {α : Type} (items : List α) (keep : α → Bool) (f : α → Nat)
    (dropped : ∀ a ∈ items, keep a = false → f a = 0) : ((items.filter keep).map f).sum = (items.map f).sum := by
  induction items with
  | nil => rfl
  | cons a items ih =>
    rw [List.forall_mem_cons] at dropped
    cases kept : keep a with
    | true => rw [List.filter_cons_of_pos kept, List.map_cons, List.map_cons, List.sum_cons,
        List.sum_cons, ih dropped.2]
    | false =>
      rw [List.filter_cons_of_neg (by simp [kept]), List.map_cons, List.sum_cons, ih dropped.2,
        dropped.1 kept, Nat.zero_add]

section Books

variable {C : Circomlib} {D : Deployment} {verifier : Address} {levels smtLevels : Nat}
  {E : Extractor C D verifier (circuitSize levels smtLevels)} {j : Journal}

/-- The storage, the events, the leaves and the ledger of notes agree on the accepted transactions. -/
structure Consistent (E : Extractor C D verifier (circuitSize levels smtLevels)) (j : Journal) : Prop where
  verifier : j.ledger.pool.verifier = some verifier
  nullifiers : ∃ nulls, j.ledger.pool.nullifiers = some nulls ∧ ∀ n, nulls n = some true ↔ n ∈ j.nullifiers
  told : j.told = j.nullifiers
  canonical : ∀ n ∈ j.nullifiers, Canonical n
  distinct : j.nullifiers.Nodup
  carries : ∀ t ∈ j.accepted, Carries (E.x t.proof) t.proof
  satisfied : ∀ t ∈ j.accepted, Satisfied C poseidon2 (circuitSize levels smtLevels) (E.x t.proof) (E.w t.proof)
  leaves : j.leaves = (E.notes j.accepted).map (Note.commitment poseidon2)
  spends : ∀ t ∈ j.accepted, ∀ tx, tx < 2 → (E.x t.proof).inAmount tx ≠ 0 →
    (E.notes j.accepted)[((E.x t.proof).inPathIndices tx).val]? = some (inNote poseidon2 (E.x t.proof) tx)
  legal : NoteLedger.Legal (j.accepted.map E.transaction)

structure Proved (E : Extractor C D verifier (circuitSize levels smtLevels)) (t : Transaction) : Prop where
  carries : Carries (E.x t.proof) t.proof
  satisfied : Satisfied C poseidon2 (circuitSize levels smtLevels) (E.x t.proof) (E.w t.proof)

theorem Consistent.proved (books : Consistent E j) {roots : Roots} {t : Transaction}
    (valid : Validated D roots t.proof t.extData j.ledger.pool) : Proved E t := by
  obtain ⟨named, isNamed, verified⟩ := valid.verified
  obtain rfl : verifier = named := Option.some.inj (books.verifier.symm.trans isNamed)
  obtain ⟨publics, satisfied⟩ := E.sound _ _ verified
  exact ⟨carries_of_publicSignals publics, satisfied⟩

theorem Carries.mem_nullifiers {x : PolicyTransaction.Inputs} {proof : Proof} (carries : Carries x proof) {tx : Nat}
    (low : tx < 2) : ∃ n ∈ proof.inputNullifiers, ofU256 n = x.inputNullifier tx := by
  have member : x.inputNullifier tx ∈ proof.inputNullifiers.map ofU256 := by
    rw [carries.nullifiers]
    interval_cases tx
    · exact List.mem_cons_self
    · exact List.mem_cons_of_mem _ List.mem_cons_self
  exact List.mem_map.mp member

theorem mem_notes {accepted : List Transaction} {note : Note} (member : note ∈ E.notes accepted) :
    ∃ t ∈ accepted, ∃ tx, tx < 2 ∧ note = outNote (E.x t.proof) tx := by
  obtain ⟨t, inside, made⟩ := List.mem_flatMap.mp member
  obtain ⟨tx, low, rfl⟩ := List.mem_map.mp made
  exact ⟨t, inside, tx, List.mem_range.mp low, rfl⟩

variable {inPlay : Set Query}

theorem note_inPlay (known : E.queries j ⊆ inPlay) {note : Note} (member : note ∈ E.notes j.accepted) :
    note.query ∈ inPlay := by
  obtain ⟨t, inside, tx, low, rfl⟩ := mem_notes member
  exact known (Or.inr ⟨t, inside, mem_noteQueries_output low⟩)

theorem Consistent.amount_lt (lib : C.Published) (books : Consistent E j) {note : Note}
    (member : note ∈ E.notes j.accepted) : note.amount.val < 2 ^ 248 := by
  obtain ⟨t, inside, tx, low, rfl⟩ := mem_notes member
  exact ((books.satisfied t inside).outputs tx low).amount_lt lib

/-- A transaction that the contract lets pass, with the values it brings into play. -/
structure Passing (E : Extractor C D verifier (circuitSize levels smtLevels)) (inPlay : Set Query) (j : Journal)
    (t : Transaction) : Prop where
  books : Consistent E j
  follows : Follows poseidon2 levels j.progress
  known : E.queries j ⊆ inPlay
  logged : ∀ q ∈ noteQueries poseidon2 (circuitSize levels smtLevels) (E.x t.proof) (E.w t.proof), q ∈ inPlay
  valid : ∃ roots, Validated D roots t.proof t.extData j.ledger.pool

namespace Passing

variable {t : Transaction} (passing : Passing E inPlay j t)

include passing

theorem proved : Proved E t := by
  obtain ⟨roots, valid⟩ := passing.valid
  exact passing.books.proved valid

/-- The contract refuses a nullifier it has seen. -/
theorem nullifier_new {n : U256} (member : n ∈ t.proof.inputNullifiers) : n ∉ j.nullifiers := by
  obtain ⟨roots, valid⟩ := passing.valid
  obtain ⟨nulls, isNulls, seen⟩ := passing.books.nullifiers
  intro used
  exact valid.unspent nulls isNulls n member ((seen n).mpr used)

theorem canonical {n : U256} (member : n ∈ t.proof.inputNullifiers) : Canonical n := by
  obtain ⟨roots, valid⟩ := passing.valid
  exact valid.canonical.inputNullifiers n member

variable (lib : C.Published)

include lib

/-- The contract does not compare the nullifiers of one transaction; the circuit does. -/
theorem nullifiers_nodup : t.proof.inputNullifiers.Nodup := by
  obtain ⟨carries, satisfied⟩ := passing.proved
  have apart : (E.x t.proof).inputNullifier 0 ≠ (E.x t.proof).inputNullifier 1 :=
    satisfied.nullifiers_ne lib Nat.zero_lt_one (show 1 < 2 by decide)
  apply List.Nodup.of_map ofU256
  rw [carries.nullifiers]
  simpa using apart

variable (bounded : levels ≤ 32) (inj : Set.InjOn poseidon2.answer inPlay)

include bounded inj

theorem spends {tx : Nat} (low : tx < 2) (amount : (E.x t.proof).inAmount tx ≠ 0) :
    (E.notes j.accepted)[((E.x t.proof).inPathIndices tx).val]? = some (inNote poseidon2 (E.x t.proof) tx) := by
  obtain ⟨carries, satisfied⟩ := passing.proved
  obtain ⟨roots, valid⟩ := passing.valid
  obtain ⟨env, next, pool, knownRoot⟩ := valid.rootKnown
  obtain ⟨n, bound, root⟩ := passing.follows.root_of_known pool valid.canonical.root knownRoot
  rw [← carries.root] at root
  have small : 2 ^ levels ≤ bn256Modulus :=
    le_trans (Nat.pow_le_pow_right (by decide) bounded) (by decide)
  have opened := (satisfied.inputs tx low).leaf_eq lib low amount small inj
    (fun q member => passing.known (Or.inl (Or.inr ⟨n, member⟩))) passing.logged root
  have shown := passing.logged _ (mem_noteQueries_input low (Or.inr (Or.inl rfl)))
  have filled := Note.commitment_ne_zeroAt inj shown (passing.known (Or.inl (Or.inl rfl)))
  have early := getElem?_of_leafAt opened filled
  rw [List.getElem?_take] at early
  split at early
  next =>
    rw [passing.books.leaves, List.getElem?_map, Option.map_eq_some_iff] at early
    obtain ⟨note, found, same⟩ := early
    rw [found, Note.eq_of_commitment inj (note_inPlay passing.known (List.mem_of_getElem? found)) shown same]
  next => cases early

theorem amount_lt {tx : Nat} (low : tx < 2) : ((E.x t.proof).inAmount tx).val < 2 ^ 248 := by
  by_cases amount : (E.x t.proof).inAmount tx = 0
  · rw [amount, ZMod.val_zero]
    decide
  · have found := passing.spends lib bounded inj low amount
    exact passing.books.amount_lt lib (List.mem_of_getElem? found)

/-- One note at one position has one nullifier, whoever shows it. -/
theorem nullifier_eq {t' : Transaction} (proved' : Proved E t')
    (logged' : ∀ q ∈ noteQueries poseidon2 (circuitSize levels smtLevels) (E.x t'.proof) (E.w t'.proof), q ∈ inPlay)
    {tx tx' : Nat} (low : tx < 2) (low' : tx' < 2) (amount : (E.x t.proof).inAmount tx ≠ 0)
    (position : ((E.x t'.proof).inPathIndices tx').val = ((E.x t.proof).inPathIndices tx).val)
    (found : (E.notes j.accepted)[((E.x t'.proof).inPathIndices tx').val]? =
      some (inNote poseidon2 (E.x t'.proof) tx')) :
    (E.x t'.proof).inputNullifier tx' = (E.x t.proof).inputNullifier tx := by
  rw [position, passing.spends lib bounded inj low amount, Option.some.injEq] at found
  exact nullifier_unique (proved'.satisfied.inputs tx' low') (passing.proved.satisfied.inputs tx low) low' low inj
    logged' passing.logged (congrArg (Note.commitment poseidon2) found.symm) (ZMod.val_injective _ position)

theorem position_new {tx : Nat} (low : tx < 2) (amount : (E.x t.proof).inAmount tx ≠ 0) :
    ((E.x t.proof).inPathIndices tx).val ∉ (E.ledger j.accepted).spent := by
  intro spent
  rw [E.ledger_spent] at spent
  obtain ⟨t', inside, there⟩ := List.mem_flatMap.mp spent
  obtain ⟨tx', low', amount', position⟩ := mem_spentPositions.mp there
  have proved' : Proved E t' := ⟨passing.books.carries t' inside, passing.books.satisfied t' inside⟩
  have same := passing.nullifier_eq lib bounded inj proved'
    (fun q member => passing.known (Or.inr ⟨t', inside, member⟩)) low low' amount position
    (passing.books.spends t' inside tx' low' amount')
  obtain ⟨n, member, value⟩ := passing.proved.carries.mem_nullifiers low
  obtain ⟨n', member', value'⟩ := proved'.carries.mem_nullifiers low'
  have used : n' ∈ j.nullifiers := List.mem_flatMap.mpr ⟨t', inside, member'⟩
  have equal : n = n' := by
    rw [← toU256_ofU256 (passing.canonical member), ← toU256_ofU256 (passing.books.canonical n' used),
      value, value', same]
  exact passing.nullifier_new member (equal ▸ used)

theorem positions_nodup : (spentPositions (E.x t.proof)).Nodup := by
  apply List.Nodup.map_on
  · intro tx member tx' member' position
    rw [List.mem_filter, List.mem_range, decide_eq_true_eq] at member member'
    by_contra apart
    have same := passing.nullifier_eq lib bounded inj passing.proved passing.logged member'.1 member.1 member'.2
      position (passing.spends lib bounded inj member.1 member.2)
    rcases Nat.lt_or_gt_of_ne apart with before | before
    · exact passing.proved.satisfied.nullifiers_ne lib before member'.1 same
    · exact passing.proved.satisfied.nullifiers_ne lib before member.1 same.symm
  · exact List.nodup_range.filter _

theorem balanced : (((spentPositions (E.x t.proof)).map (E.ledger j.accepted).amountAt).sum : Int) +
    t.extData.extAmount.toInt = ((outNotes (E.x t.proof)).map fun note => note.amount.val).sum := by
  obtain ⟨carries, satisfied⟩ := passing.proved
  obtain ⟨roots, valid⟩ := passing.valid
  have whole := satisfied.balanced lib (carries.publicAmount.trans valid.publicAmount.cast) valid.publicAmount.bound
    (fun tx low => passing.amount_lt lib bounded inj low)
    (show (2 + 2 + 1) * 2 ^ 248 ≤ bn256Modulus by decide)
  have spent : ((spentPositions (E.x t.proof)).map (E.ledger j.accepted).amountAt).sum =
      ((List.range 2).map fun tx => ((E.x t.proof).inAmount tx).val).sum := by
    rw [spentPositions, List.map_map]
    rw [List.map_congr_left (g := fun tx => ((E.x t.proof).inAmount tx).val)]
    · apply sum_map_filter
      intro tx _ zero
      rw [decide_eq_false_iff_not, not_not] at zero
      rw [zero, ZMod.val_zero]
    · intro tx member
      rw [List.mem_filter, List.mem_range, decide_eq_true_eq] at member
      exact E.amountAt_ledger (passing.spends lib bounded inj member.1 member.2)
  have made : ((outNotes (E.x t.proof)).map fun note => note.amount.val).sum =
      ((List.range 2).map fun tx => ((E.x t.proof).outAmount tx).val).sum := by
    rw [outNotes, List.map_map]
    rfl
  rw [spent, made]
  change ∑ tx ∈ Finset.range 2, (((E.x t.proof).inAmount tx).val : Int) + _ =
    ∑ tx ∈ Finset.range 2, (((E.x t.proof).outAmount tx).val : Int) at whole
  simp only [Finset.sum_range_succ, Finset.sum_range_zero, List.range_succ, List.range_zero] at whole ⊢
  simp only [List.nil_append, List.cons_append, List.map_cons, List.map_nil, List.sum_cons, List.sum_nil]
  omega

theorem accepts : (E.ledger j.accepted).Accepts (E.transaction t) where
  exist p member := by
    obtain ⟨tx, low, amount, rfl⟩ := mem_spentPositions.mp member
    have found := passing.spends lib bounded inj low amount
    rw [E.ledger_notes, List.length_map]
    exact (List.getElem?_eq_some_iff.mp found).1
  distinct := passing.positions_nodup lib bounded inj
  unspent p member := by
    obtain ⟨tx, low, amount, rfl⟩ := mem_spentPositions.mp member
    exact passing.position_new lib bounded inj low amount
  balanced := passing.balanced lib bounded inj

end Passing

section Run

/-- What the journal says of a call that files nothing stays as it is. -/
theorem Consistent.beside (books : Consistent E j) {next : Env Ledger}
    (same : SameBooks j.ledger.pool next.storage.pool) :
    Consistent E { progress := { env := next, leaves := j.progress.leaves }, accepted := j.accepted } where
  verifier := same.verifier.trans books.verifier
  nullifiers := by
    change ∃ nulls, next.storage.pool.nullifiers = some nulls ∧ _
    rw [same.nullifiers]
    exact books.nullifiers
  told := by
    change next.storage.pool.events.filterMap Event.nullifier? = _
    rw [same.events]
    exact books.told
  canonical := books.canonical
  distinct := books.distinct
  carries := books.carries
  satisfied := books.satisfied
  leaves := books.leaves
  spends := books.spends
  legal := books.legal

abbrev Journal.entered (j : Journal) (t : Transaction) (next : Env Ledger) : Journal where
  progress :=
    { env := next, leaves := j.progress.leaves ++ [t.proof.outputCommitment0, t.proof.outputCommitment1] }
  accepted := j.accepted ++ [t]

theorem Journal.nullifiers_entered (j : Journal) (t : Transaction) (next : Env Ledger) :
    (j.entered t next).nullifiers = j.nullifiers ++ t.proof.inputNullifiers := by
  change (j.accepted ++ [t]).flatMap _ = _
  rw [List.flatMap_append, List.flatMap_singleton]
  rfl

theorem filterMap_nullifier_map (nullifiers : List U256) :
    (nullifiers.map Event.newNullifier).filterMap Event.nullifier? = nullifiers := by
  rw [List.filterMap_map]
  exact List.filterMap_some

variable {t : Transaction} {roots : Roots} {auths : List Address} {sender : Address} {next : Env Ledger}

theorem Passing.entered (lib : C.Published) (bounded : levels ≤ 32) (inj : Set.InjOn poseidon2.answer inPlay)
    (passing : Passing E inPlay j t)
    (accepted : Accepted D poseidon2 roots auths t.proof t.extData sender j.ledger next.storage) :
    Consistent E (j.entered t next) := by
  have books := passing.books
  obtain ⟨carries, satisfied⟩ := passing.proved
  obtain ⟨token, middle, idx0, idx1, tree, balances, -, -, -, -, settled⟩ := accepted.settled
  have pool : next.storage.pool = (j.ledger.settled t.proof t.extData idx0 idx1 tree balances).pool :=
    congrArg Ledger.pool settled
  obtain ⟨nulls, isNulls, seen⟩ := books.nullifiers
  have flat := j.nullifiers_entered t next
  refine
    { verifier := (congrArg Storage.verifier pool).trans books.verifier
      nullifiers := ⟨marked t.proof.inputNullifiers nulls, ?_, fun n => ?_⟩
      told := ?_
      canonical := ?_
      distinct := ?_
      carries := ?_
      satisfied := ?_
      leaves := ?_
      spends := ?_
      legal := ?_ }
  · rw [congrArg Storage.nullifiers pool]
    change j.ledger.pool.nullifiers.map _ = _
    rw [isNulls]
    rfl
  · rw [flat, marked_eq_true, seen n, List.mem_append]
  · rw [flat, Journal.told, congrArg Storage.events pool]
    change (j.ledger.pool.events ++ _ ++ _).filterMap Event.nullifier? = _
    rw [List.filterMap_append, List.filterMap_append, filterMap_nullifier_map, ← books.told]
    exact List.append_nil _
  · rw [flat]
    exact List.forall_mem_append.mpr ⟨books.canonical, fun n => passing.canonical⟩
  · rw [flat]
    refine List.nodup_append.mpr ⟨books.distinct, passing.nullifiers_nodup lib, ?_⟩
    exact fun n old n' new same => passing.nullifier_new new (same ▸ old)
  · exact List.forall_mem_append.mpr ⟨books.carries, List.forall_mem_singleton.mpr carries⟩
  · exact List.forall_mem_append.mpr ⟨books.satisfied, List.forall_mem_singleton.mpr satisfied⟩
  · have made : (outNotes (E.x t.proof)).map (Note.commitment poseidon2) =
        [ofU256 t.proof.outputCommitment0, ofU256 t.proof.outputCommitment1] := by
      rw [map_outNotes, ← carries.commitment0, ← carries.commitment1,
        (satisfied.outputs 0 (show 0 < 2 by decide)).commitment_eq,
        (satisfied.outputs 1 (show 1 < 2 by decide)).commitment_eq]
    rw [E.notes_concat, List.map_append, made, ← books.leaves]
    exact List.map_append
  · refine List.forall_mem_append.mpr ⟨fun t' inside tx low amount => ?_,
      List.forall_mem_singleton.mpr fun tx low amount => ?_⟩
    · exact E.notes_later t (books.spends t' inside tx low amount)
    · exact E.notes_later t (passing.spends lib bounded inj low amount)
  · rw [List.map_append, List.map_singleton]
    exact books.legal.concat (passing.accepts lib bounded inj)

def Journal.Paired (j : Journal) : Prop := j.leaves.length = 2 * j.accepted.length

theorem Journal.Paired.queries_entered (paired : j.Paired) (t : Transaction) (next : Env Ledger) :
    E.queries j ⊆ E.queries (j.entered t next) := by
  apply Set.union_subset_union
  · exact rootQueries_mono ⟨[t.proof.outputCommitment0, t.proof.outputCommitment1].map ofU256, List.map_append.symm⟩
      (by rw [paired, Nat.mul_mod_right])
  · rintro q ⟨t', inside, member⟩
    exact ⟨t', List.mem_append_left _ inside, member⟩

theorem Journal.Paired.queries_advance (paired : j.Paired) (call : Call) :
    E.queries j ⊆ E.queries (j.advance D call) := by
  rcases advance_cases D j call with same | ⟨t, next, entry⟩ | ⟨next, -, -, same⟩
  · rw [same]
  · rw [entry.advance]
    exact paired.queries_entered t next
  · rw [same]
    exact Set.Subset.rfl

theorem Journal.Paired.advance (paired : j.Paired) (call : Call) : (j.advance D call).Paired := by
  rcases advance_cases D j call with same | ⟨t, next, entry⟩ | ⟨next, -, -, same⟩
  · rw [same]
    exact paired
  · rw [entry.advance]
    unfold Journal.Paired Journal.leaves at paired ⊢
    rw [List.length_map] at paired ⊢
    rw [List.length_append, List.length_append, paired]
    rfl
  · rw [same]
    exact paired

theorem Consistent.paired (books : Consistent E j) : j.Paired := by
  rw [Journal.Paired, books.leaves, List.length_map, E.length_notes]

theorem Consistent.advance (lib : C.Published) (bounded : levels ≤ 32) (books : Consistent E j)
    (follows : Follows poseidon2 levels j.progress) (call : Call)
    (inj : Set.InjOn poseidon2.answer (E.queries (j.advance D call))) : Consistent E (j.advance D call) := by
  rcases advance_cases D j call with same | ⟨t, next, entry⟩ | ⟨next, books', -, same⟩
  · rw [same]
    exact books
  · obtain ⟨roots, auths, sender, -, accepted⟩ := entry.accepted
    rw [entry.advance] at inj ⊢
    have passing : Passing E (E.queries (j.entered t next)) j t :=
      { books := books
        follows := follows
        known := books.paired.queries_entered t next
        logged := fun q member => Or.inr ⟨t, List.mem_append_right _ (List.mem_singleton.mpr rfl), member⟩
        valid := ⟨roots, accepted.validated⟩ }
    exact passing.entered lib bounded inj accepted
  · rw [same]
    exact books.beside books'

end Run

end Books

section History

variable {C : Circomlib} {D : Deployment} {config : Config} {balances : Balances} {smtLevels : Nat}
  {E : Extractor C D config.verifier (circuitSize config.levels smtLevels)}

theorem paired_journal (calls : List Call) : (journal D config balances calls).Paired := by
  induction calls using List.reverseRecOn with
  | nil => rfl
  | append_singleton calls call ih =>
    rw [journal_concat]
    exact ih.advance call

theorem consistent_fresh (positive : 0 < config.levels) (bounded : config.levels ≤ 32) :
    Consistent E (.fresh config balances) := by
  obtain ⟨m, deployed⟩ := deployed_eq positive bounded balances
  have pool := congrArg (fun env : Env Ledger => env.storage.pool) deployed
  exact
    { verifier := congrArg Storage.verifier pool
      nullifiers := ⟨fun _ => none, congrArg Storage.nullifiers pool,
        fun n => by simp [Journal.nullifiers, Journal.fresh]⟩
      told := congrArg (fun s : Storage => s.events.filterMap Event.nullifier?) pool
      canonical := fun _ none_ => absurd none_ List.not_mem_nil
      distinct := List.nodup_nil
      carries := fun _ none_ => absurd none_ List.not_mem_nil
      satisfied := fun _ none_ => absurd none_ List.not_mem_nil
      leaves := rfl
      spends := fun _ none_ => absurd none_ List.not_mem_nil
      legal := trivial }

theorem consistent_journal (lib : C.Published) (positive : 0 < config.levels) (bounded : config.levels ≤ 32)
    (calls : List Call) (inj : Set.InjOn poseidon2.answer (E.queries (journal D config balances calls))) :
    Consistent E (journal D config balances calls) := by
  induction calls using List.reverseRecOn with
  | nil => exact consistent_fresh positive bounded
  | append_singleton calls call ih =>
    rw [journal_concat] at inj ⊢
    have books := ih (inj.mono ((paired_journal calls).queries_advance call))
    have follows : Follows poseidon2 config.levels (run D poseidon2 config balances calls) :=
      follows_run zeroAt_chain positive bounded calls
    rw [← journal_progress] at follows
    exact books.advance lib bounded follows call inj

/-- No nullifier is told twice, and no note with an amount is spent twice, neither by two transactions nor by the two
inputs of one. -/
theorem no_double_spend (lib : C.Published) (E : Extractor C D config.verifier (circuitSize config.levels smtLevels))
    (positive : 0 < config.levels) (bounded : config.levels ≤ 32) (calls : List Call)
    (inj : Set.InjOn poseidon2.answer (E.queries (journal D config balances calls))) :
    (journal D config balances calls).told.Nodup ∧
      ((journal D config balances calls).accepted.flatMap fun t => spentPositions (E.x t.proof)).Nodup := by
  have books := consistent_journal lib positive bounded calls inj
  constructor
  · rw [books.told]
    exact books.distinct
  · rw [← E.ledger_spent]
    exact books.legal.wellFormed.distinct

/-- A deposit, and then a withdrawal that spends its note. -/
abbrev sampleJournal : Journal := journal sampleDeployment sampleConfig sampleBalances [depositCall, withdrawalCall]

theorem sampleJournal_runs :
    sampleJournal.accepted =
        [{ proof := depositProof, extData := depositExtData },
          { proof := withdrawalProof, extData := withdrawalExtData }] ∧
      sampleJournal.leaves = (List.range 2).map depositInputs.outputCommitment ++
        (List.range 2).map withdrawalInputs.outputCommitment := by
  unfold sampleJournal depositCall withdrawalCall sampleRoots
  rw [sampleDeployment_eq, depositProof_eq, withdrawalProof_eq]
  decide +kernel

def sampleQueries : List Query :=
  let size : Size := circuitSize sampleConfig.levels 2
  let queries (x : PolicyTransaction.Inputs) : List Query :=
      noteQueries poseidon2 size x (honest poseidon2 size x fun _ _ => 0)
  rootQueryList 2 ((List.range 2).map depositInputs.outputCommitment ++
    (List.range 2).map withdrawalInputs.outputCommitment) ++
    (queries depositInputs ++ queries withdrawalInputs)

theorem sampleJournal_queries : sampleExtractor.queries sampleJournal ⊆ {q | q ∈ sampleQueries} := by
  rintro q (root | ⟨t, inside, member⟩)
  · apply List.mem_append_left
    rw [sampleJournal_runs.2] at root
    exact rootQueries_subset (by decide) _ root
  · apply List.mem_append_right
    rw [sampleJournal_runs.1] at inside
    rcases List.mem_pair.mp inside with rfl | rfl
    · exact List.mem_append_left _ member
    · exact List.mem_append_right _ member

theorem sampleJournal_injOn : Set.InjOn poseidon2.answer (sampleExtractor.queries sampleJournal) :=
  (CollisionFree.of_log sampleQueries (by decide +kernel)).injOn.mono sampleJournal_queries

theorem no_double_spend_withdrawal : sampleJournal.told.Nodup ∧
    (sampleJournal.accepted.flatMap fun t => spentPositions (sampleExtractor.x t.proof)).Nodup :=
  no_double_spend Circomlib.standard_published sampleExtractor Nat.two_pos (by decide) [depositCall, withdrawalCall]
    sampleJournal_injOn

/-- The run of the pool is a legal history of a ledger of notes: the leaves commit to its notes in their order, and an
input with an amount is the note that was at its position before its transaction. -/
theorem pool_refines_ledger (lib : C.Published)
    (E : Extractor C D config.verifier (circuitSize config.levels smtLevels))
    (positive : 0 < config.levels) (bounded : config.levels ≤ 32) (calls : List Call)
    (inj : Set.InjOn poseidon2.answer (E.queries (journal D config balances calls))) :
    NoteLedger.Legal ((journal D config balances calls).accepted.map E.transaction) ∧
      (journal D config balances calls).leaves =
        (E.notes (journal D config balances calls).accepted).map (Note.commitment poseidon2) ∧
      ∀ before t after, (journal D config balances calls).accepted = before ++ t :: after → ∀ tx, tx < 2 →
        (E.x t.proof).inAmount tx ≠ 0 →
          (E.notes before)[((E.x t.proof).inPathIndices tx).val]? = some (inNote poseidon2 (E.x t.proof) tx) := by
  have books := consistent_journal lib positive bounded calls inj
  refine ⟨books.legal, books.leaves, fun before t after split tx low amount => ?_⟩
  have legal := books.legal
  have found := books.spends t (by rw [split]; exact List.mem_append_right _ List.mem_cons_self) tx low amount
  rw [split, List.map_append, List.map_cons] at legal
  have accepts : (E.ledger before).Accepts (E.transaction t) := (Along.append.mp legal).2.1
  have early := accepts.exist _ (mem_spentPositions.mpr ⟨tx, low, amount, rfl⟩)
  rw [E.ledger_notes, List.length_map] at early
  rw [split] at found
  unfold Extractor.notes at early found ⊢
  rw [List.flatMap_append, List.getElem?_append_left early] at found
  exact found

theorem pool_refines_ledger_withdrawal :
    (sampleExtractor.notes [{ proof := depositProof, extData := depositExtData }])[0]? =
      some (inNote poseidon2 withdrawalInputs 0) := by
  obtain ⟨-, -, spends⟩ := pool_refines_ledger Circomlib.standard_published sampleExtractor Nat.two_pos (by decide)
    [depositCall, withdrawalCall] sampleJournal_injOn
  exact spends [{ proof := depositProof, extData := depositExtData }]
    { proof := withdrawalProof, extData := withdrawalExtData } [] sampleJournal_runs.1 0 Nat.two_pos (by decide)

end History

end PrivatePayments.Pool
