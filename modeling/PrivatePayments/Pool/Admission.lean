import PrivatePayments.Pool.Journal
import PrivatePayments.Pool.RootHistory
import PrivatePayments.Soroban.Total

/-!
Which transactions the pool takes: at every ledger it can come to, exactly those that pass a list
of conditions on the proof, the data, the tokens and the room that is left.
-/

namespace PrivatePayments.Pool
open Bn254 Poseidon2 Soroban Library FullTree Merkle MerkleTreeWithHistory

structure Admissible (D : Deployment) (H : Hasher) (levels : Nat) (roots : Roots) (auths : List Address) (proof : Proof)
    (extData : ExtData) (sender : Address) (leaves : List U256) (l : Ledger) : Prop where
  authorized : sender ∈ auths
  limit : 0 < extData.extAmount.toInt →
    ∃ max, l.pool.maximumDepositAmount = some max ∧ extData.extAmount.toNat ≤ max.toNat
  fits : extData.extAmount.toInt.natAbs < 2 ^ 127
  tokens : ∃ token middle balances, l.pool.token = some token ∧
    Deposited D token sender extData.extAmount l.balances middle ∧
    Withdrawn D token extData.recipient extData.extAmount middle balances
  recent : proof.root ≠ 0 ∧ proof.root ∈ (producedRoots H levels (leaves.map ofU256)).reverse.take 90
  unspent : ∀ n ∈ proof.inputNullifiers, ∃ nulls, l.pool.nullifiers = some nulls ∧ nulls n ≠ some true
  extDataHash : hashExtData D.keccak256 extData = proof.extDataHash
  publicAmount : Encodes extData.extAmount proof.publicAmount
  membershipRoot : ∃ asp, l.pool.aspMembership = some asp ∧ roots.membership asp = some proof.aspMembershipRoot
  nonMembershipRoot : ∃ asp, l.pool.aspNonMembership = some asp ∧
    roots.nonMembership asp = some proof.aspNonMembershipRoot
  points : proof.proof.isEmpty = false
  canonical : CanonicalInputs proof
  verified : ∃ verifier, l.pool.verifier = some verifier ∧
      D.verify verifier proof.proof (publicInputs proof) = some true
  room : leaves.length + 2 ≤ 2 ^ levels

section Reading

variable {l : Ledger} {D : Deployment} {α β : Type}

theorem returns_called {x : Option α} {a : α} {P : Env Ledger → Prop} (answered : x = some a) :
    Host.Returns P (Host.called x : Contract α) fun b env => P env ∧ b = a := by
  rw [answered]
  exact Host.Returns.pure fun _ start => ⟨start, rfl⟩

theorem returns_storage : Host.Returns (At l) (Host.storage : Contract Ledger) fun s env => At l env ∧ s = l :=
  Host.Returns.storage fun _ start => ⟨start, start⟩

theorem carried {P : Prop} {program : Contract α} {Q : α → Env Ledger → Prop}
    (returns : P → Host.Returns (At l) program Q) : Host.Returns (fun env => At l env ∧ P) program Q :=
  fun env start => returns start.2 env start.1

theorem returns_field {field : Storage → Option α} {a : α} (found : field l.pool = some a) {e : Error}
    {rest : α → Contract β} {Q : β → Env Ledger → Prop} (next : Host.Returns (At l) (rest a) Q) :
    Host.Returns (At l) (do
      let a ← Host.okOr (field (← Host.storage).pool) e
      rest a) Q := by
  refine returns_storage.bind fun s => carried fun same => ?_
  rw [same]
  refine Host.Returns.bind (Q := fun b env => At l env ∧ b = a)
    (Host.Returns.okOr found fun _ start => ⟨start, rfl⟩) fun b => carried fun isA => ?_
  rw [isA]
  exact next

theorem returns_getNullifiers {nulls : U256 → Option Bool} (found : l.pool.nullifiers = some nulls) :
    Host.Returns (At l) getNullifiers fun read env => At l env ∧ read = nulls := by
  refine returns_storage.bind fun s => carried fun same => ?_
  rw [same]
  exact Host.Returns.okOr found fun _ start => ⟨start, rfl⟩

theorem returns_checkNullifiers {nullifiers : List U256}
    (unspent : ∀ n ∈ nullifiers, ∃ nulls, l.pool.nullifiers = some nulls ∧ nulls n ≠ some true) :
    Host.Returns (At l) (checkNullifiers nullifiers) fun _ => At l := by
  induction nullifiers with
  | nil => exact Host.Returns.pure fun _ start => start
  | cons n rest ih =>
    rw [List.forall_mem_cons] at unspent
    obtain ⟨⟨nulls, found, free⟩, later⟩ := unspent
    have looked : Host.Returns (At l) (isSpent n) fun spent env => At l env ∧ spent = false := by
      refine (returns_getNullifiers found).bind fun read => carried fun isNulls =>
        Host.Returns.pure fun _ start => ⟨start, ?_⟩
      rw [isNulls]
      cases seen : nulls n with
      | none => rfl
      | some spent =>
        cases spent with
        | false => rfl
        | true => exact absurd seen free
    refine looked.bind fun spent => carried fun isFree => ?_
    rw [isFree]
    exact Host.Returns.guard Bool.false_ne_true (ih later)

theorem returns_i256Neg {v : I256} (negatable : v ≠ BitVec.intMin 256) :
    Host.Returns (At l) (Host.i256Neg v : Contract I256) fun a env => At l env ∧ a = -v :=
  Host.Returns.ite (fun lowest => absurd lowest negatable) fun _ => Host.Returns.pure fun _ start => ⟨start, rfl⟩

theorem returns_i256AbsToU256 {v : I256} (negatable : v ≠ BitVec.intMin 256) :
    Host.Returns (At l) (i256AbsToU256 v) fun _ => At l :=
  Host.Returns.ite (fun _ => Host.Returns.pure fun _ start => start) fun _ =>
    (returns_i256Neg negatable).consequence (fun _ start => start) fun _ _ after => after.1

theorem toInt_intMin : (BitVec.intMin 256).toInt = -2 ^ 255 := by decide +kernel

/-- The amount that is expected is the one the proof was made for. -/
theorem encodes_unique {extAmount : I256} {a b : U256} (first : Encodes extAmount a) (second : Encodes extAmount b) :
    a = b := BitVec.eq_of_toNat_eq (by exact_mod_cast first.2.trans second.2.symm)

theorem returns_calculatePublicAmount {extAmount : I256} {publicAmount : U256}
    (encodes : Encodes extAmount publicAmount) :
    Host.Returns (At l) (calculatePublicAmount extAmount) fun a env => At l env ∧ a = publicAmount := by
  have small := encodes.1
  have negatable : extAmount ≠ BitVec.intMin 256 := by
    rintro rfl
    rw [toInt_intMin] at small
    exact absurd small (by decide)
  have runs : Host.Returns (At l) (calculatePublicAmount extAmount) fun _ _ => True := by
    have valued := Host.Returns.of_triple (spec_i256AbsToU256 (l := l) extAmount) fun _ start =>
      (returns_i256AbsToU256 negatable).succeeds start
    refine valued.bind fun abs => carried fun value => ?_
    refine Host.Returns.ite (fun large => absurd small ?_) fun _ => ?_
    · rw [← value]
      exact Nat.not_lt.mpr large
    · refine Host.Returns.ite (fun _ => Host.Returns.pure fun _ _ => trivial) fun negative => ?_
      refine (returns_i256Neg negatable).bind fun neg => carried fun isNeg => ?_
      refine Host.Returns.ite (fun short => absurd short ?_) fun _ => Host.Returns.pure fun _ _ => trivial
      have flipped := toInt_neg_of_negative negatable
      have magnitude := toNat_of_nonneg (v := -extAmount) (by omega)
      have room : maxExtAmount < bn256Modulus := by decide
      rw [isNeg, toNat_fieldSize]
      omega
  refine (Host.Returns.of_triple (spec_calculatePublicAmount extAmount) fun _ start => runs.succeeds start).consequence
    (fun _ start => start) fun a _ after => ⟨after.1, encodes_unique after.2 encodes⟩

theorem returns_validateBn256PublicInput {value : U256} (canonical : Canonical value) :
    Host.Returns (At l) (validateBn256PublicInput value fieldSize) fun _ => At l := by
  refine Host.Returns.ite (fun large => absurd canonical ?_) fun _ => Host.Returns.pure fun _ start => start
  rw [toNat_fieldSize] at large
  exact Nat.not_lt.mpr large

theorem returns_validateNullifiers {nullifiers : List U256} (canonical : ∀ n ∈ nullifiers, Canonical n) :
    Host.Returns (At l) (validateNullifiers fieldSize nullifiers) fun _ => At l := by
  induction nullifiers with
  | nil => exact Host.Returns.pure fun _ start => start
  | cons n rest ih =>
    rw [List.forall_mem_cons] at canonical
    exact (returns_validateBn256PublicInput canonical.1).bind fun _ => ih canonical.2

theorem returns_validateBn256PublicInputs {proof : Proof} (canonical : CanonicalInputs proof) :
    Host.Returns (At l) (validateBn256PublicInputs proof fieldSize) fun _ => At l := by
  refine (returns_validateBn256PublicInput canonical.root).bind fun _ => ?_
  refine (returns_validateBn256PublicInput canonical.publicAmount).bind fun _ => ?_
  refine (returns_validateNullifiers canonical.inputNullifiers).bind fun _ => ?_
  refine (returns_validateBn256PublicInput canonical.outputCommitment0).bind fun _ => ?_
  refine (returns_validateBn256PublicInput canonical.outputCommitment1).bind fun _ => ?_
  refine (returns_validateBn256PublicInput canonical.aspMembershipRoot).bind fun _ => ?_
  exact returns_validateBn256PublicInput canonical.aspNonMembershipRoot

theorem returns_verifyProof {proof : Proof} {verifier : Address} (points : proof.proof.isEmpty = false)
    (found : l.pool.verifier = some verifier) (canonical : CanonicalInputs proof)
    (verified : D.verify verifier proof.proof (publicInputs proof) = some true) :
    Host.Returns (At l) (verifyProof D proof) fun valid env => At l env ∧ valid = true := by
  unfold verifyProof
  refine Host.Returns.guard (fun empty => Bool.false_ne_true (points.symm.trans empty)) ?_
  refine returns_field found ((returns_validateBn256PublicInputs canonical).bind fun _ => ?_)
  exact returns_called verified

theorem spec_points (proof : Proof) : Host.Triple (At l) (verifyProof D proof) fun _ env =>
    At l env ∧ proof.proof.isEmpty = false := by
  unfold verifyProof
  refine Host.Triple.guard fun full => ?_
  refine Host.Triple.consequence (Q := fun _ => At l) ?_ (fun _ start => start) fun _ _ after =>
    ⟨after, Bool.eq_false_of_not_eq_true full⟩
  exact spec_field (·.verifier) fun verifier _ => (keeps_validateBn256PublicInputs proof fieldSize).bind fun _ =>
    keeps_called _

theorem spec_limit (token sender : Address) (extAmount : I256) :
    Host.Triple (At l) (deposit D token sender extAmount) fun _ _ => 0 < extAmount.toInt →
      extAmount.toInt < 2 ^ 127 ∧ ∃ max, l.pool.maximumDepositAmount = some max ∧ extAmount.toNat ≤ max.toNat := by
  apply Host.Triple.ite
  · intro positive
    refine spec_field (·.maximumDepositAmount) fun max found => Host.Triple.guard fun small => ?_
    have converted : Host.Triple (At l) (i256ToI128Nonneg extAmount) fun _ env =>
        At l env ∧ extAmount.toInt < 2 ^ 127 := by
      refine Host.Triple.ite (fun _ => Host.Triple.fail _) fun _ => Host.Triple.okOr fun a read _ start => ⟨start, ?_⟩
      split at read
      next fits => exact fits
      next => cases read
    refine converted.bind fun amount => carry fun fits => ?_
    refine (spec_tokenTransfer token sender D.this amount).consequence (fun _ start => start) fun _ _ _ _ => ?_
    exact ⟨fits, max, found, Nat.not_lt.mp small⟩
  · intro nothing
    exact Host.Triple.pure fun _ _ positive => absurd positive nothing

theorem returns_i256ToI128Nonneg {v : I256} (positive : 0 ≤ v.toInt) (fits : v.toInt < 2 ^ 127) :
    Host.Returns (At l) (i256ToI128Nonneg v) fun a env => At l env ∧ a = v.toInt :=
  Host.Returns.ite (fun negative => absurd positive (Int.not_le.mpr negative)) fun _ =>
    Host.Returns.okOr (if_pos fits) fun _ start => ⟨start, rfl⟩

end Reading

section Writing

variable {l : Ledger} {D : Deployment}

theorem returns_update (f : Ledger → Ledger) : Host.Returns (At l) (Host.update f : Contract Unit) fun _ => At (f l) :=
  Host.Returns.update fun _ start => congrArg f start

theorem returns_tokenTransfer {token source target : Address} {amount : Int} {balances : Balances}
    (moved : D.transfer token source target amount l.balances = some balances) :
    Host.Returns (At l) (tokenTransfer D token source target amount) fun _ => At (l.setBalances balances) := by
  refine returns_storage.bind fun s => carried fun same => ?_
  rw [same]
  refine (returns_called moved).bind fun paid => carried fun isPaid => ?_
  rw [isPaid]
  exact returns_update _

theorem returns_deposit {token sender : Address} {extAmount : I256} {balances : Balances}
    (limit : 0 < extAmount.toInt → ∃ max, l.pool.maximumDepositAmount = some max ∧ extAmount.toNat ≤ max.toNat)
    (fits : extAmount.toInt.natAbs < 2 ^ 127) (paid : Deposited D token sender extAmount l.balances balances) :
    Host.Returns (At l) (deposit D token sender extAmount) fun _ => At (l.setBalances balances) := by
  apply Host.Returns.ite
  · intro positive
    obtain ⟨max, found, small⟩ := limit positive
    rw [Deposited, if_pos positive] at paid
    refine returns_field found (Host.Returns.guard (Nat.not_lt.mpr small) ?_)
    refine (returns_i256ToI128Nonneg positive.le (by omega)).bind fun amount => carried fun isAmount => ?_
    rw [isAmount]
    exact returns_tokenTransfer paid
  · intro nothing
    rw [Deposited, if_neg nothing] at paid
    exact Host.Returns.pure fun env start => by rw [paid]; exact start

theorem returns_withdraw {β : Type} {token recipient : Address} {extAmount : I256} {balances : Balances}
    {rest : Contract β}
    {Q : β → Env Ledger → Prop} (fits : extAmount.toInt.natAbs < 2 ^ 127)
    (withdrawn : Withdrawn D token recipient extAmount l.balances balances)
    (next : Host.Returns (At (l.setBalances balances)) rest Q) :
    Host.Returns (At l) (do
      if extAmount.toInt < 0 then
        let abs ← Host.i256Neg extAmount
        let amount ← i256ToI128Nonneg abs
        tokenTransfer D token D.this recipient amount
      rest) Q := by
  apply Host.Returns.ite
  · intro negative
    have negatable : extAmount ≠ BitVec.intMin 256 := by
      rintro rfl
      rw [toInt_intMin] at fits
      exact absurd fits (by decide)
    have flipped := toInt_neg_of_negative negatable
    rw [Withdrawn, if_pos negative] at withdrawn
    refine (returns_i256Neg negatable).bind fun abs => carried fun isAbs => ?_
    rw [isAbs]
    refine (returns_i256ToI128Nonneg (by omega) (by omega)).bind fun amount => carried fun isAmount => ?_
    rw [isAmount, flipped]
    exact (returns_tokenTransfer withdrawn).bind fun _ => next
  · intro nothing
    rw [Withdrawn, if_neg nothing] at withdrawn
    have same : l = l.setBalances balances := by rw [withdrawn]; rfl
    rw [← same] at next
    exact next

theorem spec_withdraw_fits {β : Type} {token recipient : Address} {extAmount : I256} {rest : Contract β} :
    Host.Triple (At l) (do
      if extAmount.toInt < 0 then
        let abs ← Host.i256Neg extAmount
        let amount ← i256ToI128Nonneg abs
        tokenTransfer D token D.this recipient amount
      rest) fun _ _ => extAmount.toInt < 0 → -2 ^ 127 < extAmount.toInt := by
  apply Host.Triple.ite
  · intro negative
    refine (spec_i256Neg extAmount).bind fun abs => carry fun isAbs => ?_
    obtain ⟨negatable, rfl⟩ := isAbs
    have flipped := toInt_neg_of_negative negatable
    have converted : Host.Triple (At l) (i256ToI128Nonneg (-extAmount)) fun _ _ => -extAmount.toInt < 2 ^ 127 := by
      refine Host.Triple.ite (fun _ => Host.Triple.fail _) fun _ => Host.Triple.okOr fun a read _ start => ?_
      split at read
      next fits => exact flipped ▸ fits
      next => cases read
    refine converted.bind fun amount env fits b next run => ?_
    exact fun _ => by omega
  · intro nothing
    exact fun _ _ _ _ _ negative => absurd negative nothing

/-- Nothing stops the loop that marks, not even a storage without nullifiers. -/
theorem succeeds_markNullifiers (nullifiers : List U256) (env : Env Ledger) :
    Host.Succeeds (markNullifiers nullifiers) env := by
  induction nullifiers generalizing env with
  | nil => exact ⟨(), env, rfl⟩
  | cons n rest ih =>
    rw [markNullifiers]
    cases found : env.storage.pool.nullifiers with
    | none =>
      obtain ⟨u, last, ran⟩ := ih (env.update (·.publish (.newNullifier n)))
      apply Exists.intro u
      apply Exists.intro last
      apply (Host.run_bind_ok (Host.run_tryCatch_error _ (run_markSpent_none found n))).trans
      exact (Host.run_bind_ok (Host.run_update _ env)).trans ran
    | some nulls =>
      have marked := run_markSpent found n
      obtain ⟨u, last, ran⟩ := ih (Env.update _ (·.publish (.newNullifier n)))
      apply Exists.intro u
      apply Exists.intro last
      apply (Host.run_bind_ok (Host.run_tryCatch_ok _ marked)).trans
      exact (Host.run_bind_ok (Host.run_update _ _)).trans ran

theorem returns_markNullifiers (nullifiers : List U256) :
    Host.Returns (At l) (markNullifiers nullifiers) fun _ => At (l.mark nullifiers) :=
  Host.Returns.of_triple (spec_markNullifiers nullifiers) fun env _ => succeeds_markNullifiers nullifiers env

end Writing

section Deciding

variable {D : Deployment} {H : Hasher} {levels : Nat} {leaves : List U256} {l : Ledger} {roots : Roots}
  {auths : List Address} {proof : Proof} {extData : ExtData} {sender : Address}

def Files (H : Hasher) (levels : Nat) (leaves : List U256) (l : Ledger) : Prop :=
  Follows H levels { env := { storage := l, hashed := [] }, leaves := leaves }

/-- Only the tree matters. -/
theorem Files.beside (files : Files H levels leaves l) {l' : Ledger} (same : l'.pool.merkle = l.pool.merkle) :
    Files H levels leaves l' := by
  obtain ⟨log, indices, good⟩ := files
  refine ⟨log, indices, ?_⟩
  rw [same]
  exact good

theorem Files.isKnownRoot (files : Files H levels leaves l) (root : U256) {env : Env Ledger} (here : env.storage = l) :
    (merkle (MerkleTreeWithHistory.isKnownRoot root)).run env =
      .ok (decide (root ≠ 0 ∧ root ∈ (producedRoots H levels (leaves.map ofU256)).reverse.take 90), env) := by
  subst here
  obtain ⟨log, indices, good⟩ := files
  have searched := MerkleTreeWithHistory.Good.isKnownRoot
    (p := { env := { storage := env.storage.pool.merkle, hashed := env.hashed }, leaves := leaves, indices := indices })
    ⟨good.canonical, good.holds, good.indices, good.current, good.ring⟩ root
  have answered : (merkle (MerkleTreeWithHistory.isKnownRoot root)).run env = _ := Host.run_zoom_ok searched
  exact answered

theorem Files.returns_insert (files : Files H levels leaves l) (chain : Chain H.compress zeroAt 32)
    (positive : 0 < levels) (bounded : levels ≤ 32) (room : leaves.length + 2 ≤ 2 ^ levels) {leaf1 leaf2 : U256}
    (first : Canonical leaf1) (second : Canonical leaf2) :
    Host.Returns (At l) (merkle (MerkleTreeWithHistory.insertTwoLeaves H leaf1 leaf2)) fun _ _ => True := by
  refine Host.Returns.zoom fun env start => ?_
  obtain ⟨log, indices, good⟩ := files
  have holds : Holds H levels (leaves.map ofU256)
      ({ storage := env.storage.pool.merkle, hashed := env.hashed } : Env MerkleTreeWithHistory.Storage).storage := by
    rw [start]
    exact good.holds
  obtain ⟨next, run, -⟩ := run_insertTwoLeaves chain positive bounded holds (by rw [List.length_map]; exact room)
    (ofU256 leaf1) (ofU256 leaf2)
  rw [toU256_ofU256 first, toU256_ofU256 second] at run
  exact ⟨_, next, run, trivial⟩

/-- A tree without room refuses the leaves, so a transaction that returned found room. -/
theorem Files.room (files : Files H levels leaves l) (bounded : levels ≤ 32) {leaf1 leaf2 : U256} {idx0 idx1 : Nat}
    {tree : MerkleTreeWithHistory.Storage} (inserted : Inserted H l.pool.merkle leaf1 leaf2 idx0 idx1 tree) :
    leaves.length + 2 ≤ 2 ^ levels := by
  by_contra full
  obtain ⟨log, indices, good⟩ := files
  obtain ⟨before, after, run⟩ := inserted
  have holds : Holds H levels (leaves.map ofU256)
      ({ storage := l.pool.merkle, hashed := before } : Env MerkleTreeWithHistory.Storage).storage := good.holds
  have refused := run_insertTwoLeaves_full bounded holds (by rw [List.length_map]; exact Nat.not_le.mp full) leaf1 leaf2
  cases refused.symm.trans run

theorem returns_aspRoot (field : Storage → Option Address) {answer : Address → Option U256} {root : U256}
    (answered : ∃ asp, field l.pool = some asp ∧ answer asp = some root) :
    Host.Returns (At l) (do
      let asp ← Host.okOr (field (← Host.storage).pool) .notInitialized
      Host.called (answer asp) : Contract U256) fun read env => At l env ∧ read = root := by
  obtain ⟨asp, found, isRoot⟩ := answered
  exact returns_field found (returns_called isRoot)

namespace Admissible

variable (admissible : Admissible D H levels roots auths proof extData sender leaves l)
    (files : Files H levels leaves l)

include admissible files

/-- The checks are passed, whoever has paid by then. -/
theorem returns_validate (balances : Balances) : Host.Returns (At (l.setBalances balances))
    (validate D roots proof extData) fun _ => At (l.setBalances balances) := by
  obtain ⟨verifier, isVerifier, verified⟩ := admissible.verified
  have later : Files H levels leaves (l.setBalances balances) := files.beside rfl
  have known : Host.Returns (At (l.setBalances balances)) (merkle (MerkleTreeWithHistory.isKnownRoot proof.root))
      fun known env => At (l.setBalances balances) env ∧ known = true := by
    intro env start
    exact ⟨_, env, later.isKnownRoot proof.root start, start, decide_eq_true admissible.recent⟩
  refine known.bind fun known => carried fun isKnown => ?_
  rw [isKnown]
  refine Host.Returns.guard Bool.false_ne_true ?_
  refine (returns_checkNullifiers (l := l.setBalances balances) admissible.unspent).bind fun _ => ?_
  refine Host.Returns.guard (not_not.mpr admissible.extDataHash) ?_
  refine (returns_calculatePublicAmount admissible.publicAmount).bind fun amount => carried fun isAmount => ?_
  rw [isAmount]
  refine Host.Returns.guard (not_not.mpr rfl) ?_
  refine (returns_aspRoot (l := l.setBalances balances) (·.aspMembership) admissible.membershipRoot).bind
    fun memberRoot => carried fun isMember => ?_
  refine (returns_aspRoot (l := l.setBalances balances) (·.aspNonMembership) admissible.nonMembershipRoot).bind
    fun nonMemberRoot => carried fun isNonMember => ?_
  rw [isMember, isNonMember]
  refine Host.Returns.guard (not_or.mpr ⟨not_not.mpr rfl, not_not.mpr rfl⟩) ?_
  refine (returns_verifyProof (l := l.setBalances balances) admissible.points isVerifier admissible.canonical
    verified).bind fun valid => carried fun isValid => ?_
  rw [isValid]
  exact Host.Returns.ite (fun never => absurd never Bool.false_ne_true) fun _ => Host.Returns.pure fun _ start => start

theorem returns_settle (chain : Chain H.compress zeroAt 32) (positive : 0 < levels) (bounded : levels ≤ 32)
    {token : Address} {middle balances : Balances} (isToken : l.pool.token = some token)
    (withdrawn : Withdrawn D token extData.recipient extData.extAmount middle balances) :
    Host.Returns (At (l.setBalances middle)) (settle D H proof extData) fun _ _ => True := by
  have marked : Files H levels leaves (((l.setBalances middle).mark proof.inputNullifiers).setBalances balances) :=
    files.beside rfl
  refine (returns_markNullifiers proof.inputNullifiers).bind fun _ => ?_
  refine Host.Returns.bind (Q := fun read env =>
    At ((l.setBalances middle).mark proof.inputNullifiers) env ∧ read = token) ?_ fun read => carried fun isRead => ?_
  · refine returns_storage.bind fun s => carried fun same => ?_
    rw [same]
    exact Host.Returns.okOr isToken fun _ start => ⟨start, rfl⟩
  · rw [isRead]
    refine returns_withdraw admissible.fits withdrawn ?_
    refine (marked.returns_insert chain positive bounded admissible.room admissible.canonical.outputCommitment0
      admissible.canonical.outputCommitment1).bind fun indices => ?_
    exact Host.Returns.bind (Q := fun _ _ => True) (Host.Returns.update fun _ _ => trivial) fun _ =>
      Host.Returns.update fun _ _ => trivial

theorem returns (chain : Chain H.compress zeroAt 32) (positive : 0 < levels) (bounded : levels ≤ 32) :
    Host.Returns (At l) (transact D H roots auths proof extData sender) fun _ after =>
      Accepted D H roots auths proof extData sender l after.storage := by
  have runs : Host.Returns (At l) (transact D H roots auths proof extData sender) fun _ _ => True := by
    obtain ⟨token, middle, balances, isToken, deposited, withdrawn⟩ := admissible.tokens
    refine (Host.Returns.requireAuth (Q := fun _ => At l) admissible.authorized fun _ start => start).bind fun _ => ?_
    refine Host.Returns.bind (Q := fun read env => At l env ∧ read = token) ?_ fun read => carried fun isRead => ?_
    · refine returns_storage.bind fun s => carried fun same => ?_
      rw [same]
      exact Host.Returns.okOr isToken fun _ start => ⟨start, rfl⟩
    · rw [isRead]
      refine (returns_deposit admissible.limit admissible.fits deposited).bind fun _ => ?_
      refine (admissible.returns_validate files middle).bind fun _ => ?_
      exact admissible.returns_settle files chain positive bounded isToken withdrawn
  refine Host.Returns.of_triple (fun env here u next returned => ?_) fun env here => runs.succeeds here
  exact here ▸ transact_accepted returned

end Admissible

theorem admissible_of_returned (files : Files H levels leaves l) (bounded : levels ≤ 32)
    {env next : Env Ledger} {u : Unit}
    (here : env.storage = l) (returned : (transact D H roots auths proof extData sender).run env = .ok (u, next)) :
    Admissible D H levels roots auths proof extData sender leaves l := by
  have accepted := transact_accepted returned
  rw [here] at accepted
  obtain ⟨token, middle, idx0, idx1, tree, balances, isToken, deposited, withdrawn, inserted, -⟩ := accepted.settled
  have limits : Host.Triple (At l) (transact D H roots auths proof extData sender) fun _ _ =>
      0 < extData.extAmount.toInt → extData.extAmount.toInt < 2 ^ 127 ∧
        ∃ max, l.pool.maximumDepositAmount = some max ∧ extData.extAmount.toNat ≤ max.toNat := by
    refine (Host.keeps_requireAuth _ _).bind fun _ => spec_getToken.bind fun token => carry fun _ => ?_
    exact (spec_limit token sender extData.extAmount).bind fun _ env limit _ _ _ => limit
  have later : Host.Triple (At l) (transact D H roots auths proof extData sender) fun _ _ =>
      (∀ n ∈ proof.inputNullifiers, ∃ nulls, l.pool.nullifiers = some nulls ∧ nulls n ≠ some true) ∧
        proof.proof.isEmpty = false ∧ (extData.extAmount.toInt < 0 → -2 ^ 127 < extData.extAmount.toInt) := by
    refine (Host.keeps_requireAuth _ _).bind fun _ => spec_getToken.bind fun token => carry fun _ => ?_
    refine (spec_deposit token sender extData.extAmount).bind fun _ env between => ?_
    obtain ⟨paid, -, start⟩ := between
    refine Host.Triple.bind (P := At (l.setBalances paid)) (Q := fun _ env => At (l.setBalances paid) env ∧
      (∀ n ∈ proof.inputNullifiers, ∃ nulls, l.pool.nullifiers = some nulls ∧ nulls n ≠ some true) ∧
        proof.proof.isEmpty = false) ?_ (fun _ => carry fun passed => ?_) env start
    · refine (spec_isKnownRoot proof.root).bind fun _ => carry fun _ => Host.Triple.guard fun _ => ?_
      refine (spec_checkNullifiers proof.inputNullifiers).bind fun _ => carry fun unspent => ?_
      refine Host.Triple.guard fun _ => (spec_calculatePublicAmount extData.extAmount).bind fun amount =>
        carry fun _ => ?_
      refine Host.Triple.guard fun _ => ?_
      refine (spec_aspRoot (·.aspMembership) roots.membership).bind fun memberRoot => carry fun _ => ?_
      refine (spec_aspRoot (·.aspNonMembership) roots.nonMembership).bind fun nonMemberRoot => carry fun _ => ?_
      refine Host.Triple.guard fun _ => (spec_points proof).bind fun valid => carry fun points => ?_
      exact Host.Triple.ite (fun _ => Host.Triple.fail _) fun _ => Host.Triple.pure fun _ start =>
        ⟨start, unspent, points⟩
    · refine (spec_markNullifiers proof.inputNullifiers).bind fun _ => spec_getToken.bind fun token => carry fun _ => ?_
      exact spec_withdraw_fits.consequence (fun _ start => start) fun _ _ fits => ⟨passed.1, passed.2, fits⟩
  obtain ⟨unspent, points, least⟩ := later env here u next returned
  have limit := limits env here u next returned
  obtain ⟨start, after, isPool, known⟩ := accepted.validated.rootKnown
  have beside : Files H levels leaves start.storage := files.beside (congrArg Storage.merkle isPool)
  have searched := beside.isKnownRoot proof.root rfl
  have recent := of_decide_eq_true (congrArg Prod.fst (Except.ok.inj (searched.symm.trans known)))
  exact
    { authorized := accepted.authorized
      limit := fun positive => (limit positive).2
      fits := by
        rcases Int.lt_trichotomy extData.extAmount.toInt 0 with negative | zero | positive
        · have bound := least negative
          omega
        · rw [zero]
          decide
        · have bound := (limit positive).1
          omega
      tokens := ⟨token, middle, balances, isToken, deposited, withdrawn⟩
      recent := recent
      unspent := unspent
      extDataHash := accepted.validated.extDataHash
      publicAmount := accepted.validated.publicAmount
      membershipRoot := accepted.validated.membershipRoot
      nonMembershipRoot := accepted.validated.nonMembershipRoot
      points := points
      canonical := accepted.validated.canonical
      verified := accepted.validated.verified
      room := files.room bounded inserted }

theorem transact_succeeds_iff (files : Files H levels leaves l) (chain : Chain H.compress zeroAt 32)
    (positive : 0 < levels) (bounded : levels ≤ 32) {env : Env Ledger} (here : env.storage = l) :
    Host.Succeeds (transact D H roots auths proof extData sender) env ↔
      Admissible D H levels roots auths proof extData sender leaves l := by
  constructor
  · rintro ⟨u, next, returned⟩
    exact admissible_of_returned files bounded here returned
  · intro admissible
    exact (admissible.returns files chain positive bounded).succeeds here

end Deciding

/-- At every ledger that a history of an admitted deployment comes to, the pool takes exactly the admissible
transactions: it refuses for no other reason. -/
theorem transact_accepts_iff {D : Deployment} {config : Config} (positive : 0 < config.levels)
    (bounded : config.levels ≤ 32) (balances : Balances) (calls : List Call) (roots : Roots) (auths : List Address)
    (proof : Proof) (extData : ExtData) (sender : Address) :
    Host.Succeeds (transact D poseidon2 roots auths proof extData sender) (run D poseidon2 config balances calls).env ↔
      Admissible D poseidon2 config.levels roots auths proof extData sender
        (run D poseidon2 config balances calls).leaves (run D poseidon2 config balances calls).env.storage :=
  transact_succeeds_iff (follows_run zeroAt_chain positive bounded calls) zeroAt_chain positive bounded rfl

theorem transact_accepts_iff_withdrawal : Admissible sampleDeployment poseidon2 2 sampleRoots [⟨4⟩] withdrawalProof
    withdrawalExtData ⟨4⟩ (run sampleDeployment poseidon2 sampleConfig sampleBalances [depositCall]).leaves
    (run sampleDeployment poseidon2 sampleConfig sampleBalances [depositCall]).env.storage := by
  have taken : Host.Succeeds (transact sampleDeployment poseidon2 sampleRoots
      [⟨4⟩] withdrawalProof withdrawalExtData ⟨4⟩)
      (run sampleDeployment poseidon2 sampleConfig sampleBalances [depositCall]).env := by
    unfold depositCall sampleRoots
    rw [sampleDeployment_eq, depositProof_eq, withdrawalProof_eq]
    decide +kernel
  exact (transact_accepts_iff Nat.two_pos (by decide) _ [depositCall] _ _ _ _ _).mp taken

end PrivatePayments.Pool
