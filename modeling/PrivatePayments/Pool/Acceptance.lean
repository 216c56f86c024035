import PrivatePayments.Pool.History

/-!
What a transaction that returned has passed, and what it has done to the ledger.
-/

namespace PrivatePayments.Pool
open Bn254 Poseidon2 Soroban

abbrev At (l : Ledger) : Env Ledger → Prop := fun env => env.storage = l

/-- The public amount of an external amount. -/
def Encodes (extAmount : I256) (publicAmount : U256) : Prop :=
  extAmount.toInt.natAbs < maxExtAmount ∧
    (publicAmount.toNat : Int) = if 0 ≤ extAmount.toInt then extAmount.toInt else bn256Modulus + extAmount.toInt

def Deposited (D : Deployment) (token sender : Address) (extAmount : I256) (before after : Balances) : Prop :=
  if 0 < extAmount.toInt then D.transfer token sender D.this extAmount.toInt before = some after else after = before

def Withdrawn (D : Deployment) (token recipient : Address) (extAmount : I256) (before after : Balances) : Prop :=
  if extAmount.toInt < 0 then D.transfer token D.this recipient (-extAmount.toInt) before = some after
  else after = before

structure CanonicalInputs (proof : Proof) : Prop where
  root : Canonical proof.root
  publicAmount : Canonical proof.publicAmount
  inputNullifiers : ∀ n ∈ proof.inputNullifiers, Canonical n
  outputCommitment0 : Canonical proof.outputCommitment0
  outputCommitment1 : Canonical proof.outputCommitment1
  aspMembershipRoot : Canonical proof.aspMembershipRoot
  aspNonMembershipRoot : Canonical proof.aspNonMembershipRoot

def Inserted (H : Hasher) (before : MerkleTreeWithHistory.Storage) (leaf1 leaf2 : U256) (idx0 idx1 : Nat)
    (after : MerkleTreeWithHistory.Storage) : Prop :=
  ∃ log log', (MerkleTreeWithHistory.insertTwoLeaves H leaf1 leaf2).run { storage := before, hashed := log } =
    .ok ((idx0, idx1), { storage := after, hashed := log' })

structure Validated (D : Deployment) (roots : Roots) (proof : Proof) (extData : ExtData) (pool : Storage) : Prop where
  rootKnown : ∃ env next : Env Ledger, env.storage.pool = pool ∧ (isKnownRoot proof.root).run env = .ok (true, next)
  unspent : ∀ nulls, pool.nullifiers = some nulls → ∀ n ∈ proof.inputNullifiers, nulls n ≠ some true
  extDataHash : hashExtData D.keccak256 extData = proof.extDataHash
  publicAmount : Encodes extData.extAmount proof.publicAmount
  membershipRoot : ∃ asp, pool.aspMembership = some asp ∧ roots.membership asp = some proof.aspMembershipRoot
  nonMembershipRoot : ∃ asp, pool.aspNonMembership = some asp ∧
    roots.nonMembership asp = some proof.aspNonMembershipRoot
  verified : ∃ verifier, pool.verifier = some verifier ∧ D.verify verifier proof.proof (publicInputs proof) = some true
  canonical : CanonicalInputs proof

def marked (nullifiers : List U256) (nulls : U256 → Option Bool) : U256 → Option Bool :=
  nullifiers.foldl (fun f n => Function.update f n (some true)) nulls

def Ledger.mark (l : Ledger) (nullifiers : List U256) : Ledger :=
  { l with pool :=
    { l.pool with nullifiers := l.pool.nullifiers.map (marked nullifiers)
                  events := l.pool.events ++ nullifiers.map .newNullifier } }

/-- The ledger after a transaction that returned: the nullifiers are marked, the commitments filed, both
told, and the tokens moved. -/
def Ledger.settled (l : Ledger) (proof : Proof) (extData : ExtData) (idx0 idx1 : Nat)
    (tree : MerkleTreeWithHistory.Storage) (balances : Balances) : Ledger where
  pool :=
    { l.pool with
      nullifiers := l.pool.nullifiers.map (marked proof.inputNullifiers)
      merkle := tree
      events := l.pool.events ++ proof.inputNullifiers.map .newNullifier ++
        [.newCommitment proof.outputCommitment0 idx0 extData.encryptedOutput0,
          .newCommitment proof.outputCommitment1 idx1 extData.encryptedOutput1] }
  balances := balances

structure Accepted (D : Deployment) (H : Hasher) (roots : Roots) (auths : List Address) (proof : Proof)
    (extData : ExtData) (sender : Address) (before after : Ledger) : Prop where
  authorized : sender ∈ auths
  validated : Validated D roots proof extData before.pool
  settled : ∃ token middle idx0 idx1 tree balances, before.pool.token = some token ∧
    Deposited D token sender extData.extAmount before.balances middle ∧
    Withdrawn D token extData.recipient extData.extAmount middle balances ∧
    Inserted H before.pool.merkle proof.outputCommitment0 proof.outputCommitment1 idx0 idx1 tree ∧
    after = before.settled proof extData idx0 idx1 tree balances

section Reading

variable {l : Ledger} {D : Deployment}

theorem reads {α : Type} {program : Contract α} (keeps : Host.Keeps (At l) program) {fact : α → Prop}
    (told : ∀ env a next, env.storage = l → program.run env = .ok (a, next) → fact a) :
    Host.Triple (At l) program fun a env => At l env ∧ fact a :=
  fun env start a next run => ⟨keeps env start a next run, told env a next start run⟩

theorem carry {P : Prop} {α : Type} {program : Contract α} {Q : α → Env Ledger → Prop}
    (triple : P → Host.Triple (At l) program Q) : Host.Triple (fun env => At l env ∧ P) program Q :=
  fun env start => triple start.2 env start.1

theorem spec_called {α : Type} (x : Option α) :
    Host.Triple (At l) (Host.called x : Contract α) fun a env => At l env ∧ x = some a := by
  cases x with
  | none => exact Host.Triple.trap
  | some a => exact Host.Triple.pure fun _ start => ⟨start, rfl⟩

theorem spec_storage : Host.Triple (At l) (Host.storage : Contract Ledger) fun s env => At l env ∧ s = l :=
  Host.Triple.storage fun _ start => ⟨start, start⟩

theorem spec_field {α β : Type} (field : Storage → Option α) {e : Error} {rest : α → Contract β}
    {Q : β → Env Ledger → Prop} (step : ∀ a, field l.pool = some a → Host.Triple (At l) (rest a) Q) :
    Host.Triple (At l) (do
      let a ← Host.okOr (field (← Host.storage).pool) e
      rest a) Q := by
  refine spec_storage.bind fun s => carry fun same => ?_
  rw [same]
  refine Host.Triple.bind (Q := fun a env => At l env ∧ field l.pool = some a)
    (Host.Triple.okOr fun a found _ start => ⟨start, found⟩) fun a => carry (step a)

theorem spec_getNullifiers : Host.Triple (At l) getNullifiers fun nulls env =>
    At l env ∧ l.pool.nullifiers = some nulls := by
  refine spec_storage.bind fun s => carry fun same => ?_
  rw [same]
  exact Host.Triple.okOr fun nulls found _ start => ⟨start, found⟩

theorem spec_isSpent (n : U256) : Host.Triple (At l) (isSpent n) fun spent env =>
    At l env ∧ ∃ nulls, l.pool.nullifiers = some nulls ∧ spent = (nulls n).getD false := by
  refine spec_getNullifiers.bind fun nulls => carry fun found => ?_
  exact Host.Triple.pure fun _ start => ⟨start, nulls, found, rfl⟩

theorem spec_checkNullifiers (nullifiers : List U256) : Host.Triple (At l) (checkNullifiers nullifiers) fun _ env =>
    At l env ∧ ∀ n ∈ nullifiers, ∃ nulls, l.pool.nullifiers = some nulls ∧ nulls n ≠ some true := by
  induction nullifiers with
  | nil => exact Host.Triple.pure fun _ start => ⟨start, fun n none => absurd none List.not_mem_nil⟩
  | cons n rest ih =>
    refine (spec_isSpent n).bind fun spent => carry fun read => Host.Triple.guard fun free => ?_
    refine ih.consequence (fun _ start => start) fun _ _ after => ⟨after.1, ?_⟩
    obtain ⟨nulls, found, isSpent⟩ := read
    refine List.forall_mem_cons.mpr ⟨⟨nulls, found, fun isTrue => free ?_⟩, after.2⟩
    rw [isSpent, isTrue]
    rfl

theorem spec_i256Neg (v : I256) : Host.Triple (At l) (Host.i256Neg v : Contract I256) fun a env =>
    At l env ∧ v ≠ BitVec.intMin 256 ∧ a = -v :=
  Host.Triple.ite (fun _ => Host.Triple.trap) fun negatable => Host.Triple.pure fun _ start => ⟨start, negatable, rfl⟩

theorem spec_u256Sub (a b : U256) : Host.Triple (At l) (Host.u256Sub a b : Contract U256) fun c env =>
    At l env ∧ b.toNat ≤ a.toNat ∧ c = a - b :=
  Host.Triple.ite (fun _ => Host.Triple.trap) fun enough =>
    Host.Triple.pure fun _ start => ⟨start, Nat.not_lt.mp enough, rfl⟩

theorem toNat_of_nonneg {v : I256} (positive : 0 ≤ v.toInt) : (v.toNat : Int) = v.toInt := by
  rw [BitVec.toInt_eq_toNat_of_msb]
  rw [BitVec.msb_eq_toInt, decide_eq_false (Int.not_lt.mpr positive)]

theorem toInt_neg_of_negative {v : I256} (negatable : v ≠ BitVec.intMin 256) : (-v).toInt = -v.toInt :=
  BitVec.toInt_neg_of_ne_intMin negatable

theorem spec_i256AbsToU256 (v : I256) : Host.Triple (At l) (i256AbsToU256 v) fun a env =>
    At l env ∧ a.toNat = v.toInt.natAbs := by
  apply Host.Triple.ite
  · intro positive
    refine Host.Triple.pure fun _ start => ⟨start, ?_⟩
    have value := toNat_of_nonneg positive
    omega
  · intro negative
    refine (spec_i256Neg v).consequence (fun _ start => start) ?_
    rintro a env ⟨start, negatable, rfl⟩
    have flipped := toInt_neg_of_negative negatable
    have value := toNat_of_nonneg (v := -v) (by omega)
    exact ⟨start, by omega⟩

theorem spec_calculatePublicAmount (extAmount : I256) : Host.Triple (At l) (calculatePublicAmount extAmount)
    fun a env => At l env ∧ Encodes extAmount a := by
  refine (spec_i256AbsToU256 extAmount).bind fun abs => carry fun value => ?_
  refine Host.Triple.ite (fun _ => Host.Triple.fail _) fun small => ?_
  rw [value, Nat.not_le] at small
  apply Host.Triple.ite
  · intro positive
    refine Host.Triple.pure fun _ start => ⟨start, small, ?_⟩
    rw [if_pos positive]
    exact toNat_of_nonneg positive
  · intro negative
    refine (spec_i256Neg extAmount).bind fun neg => carry fun isNeg => ?_
    refine (spec_u256Sub fieldSize neg).consequence (fun _ start => start) ?_
    rintro a env ⟨start, enough, rfl⟩
    obtain ⟨negatable, rfl⟩ := isNeg
    have flipped := toInt_neg_of_negative negatable
    have magnitude := toNat_of_nonneg (v := -extAmount) (by omega)
    refine ⟨start, small, ?_⟩
    rw [if_neg negative, BitVec.toNat_sub_of_le (BitVec.le_def.mpr enough)]
    rw [toNat_fieldSize] at enough ⊢
    omega

theorem spec_i256ToI128Nonneg (v : I256) : Host.Triple (At l) (i256ToI128Nonneg v) fun a env =>
    At l env ∧ a = v.toInt := by
  refine Host.Triple.ite (fun _ => Host.Triple.fail _) fun _ => Host.Triple.okOr fun a found _ start => ⟨start, ?_⟩
  split at found
  · exact (Option.some.inj found).symm
  · cases found

theorem spec_validateBn256PublicInput (value : U256) : Host.Triple (At l) (validateBn256PublicInput value fieldSize)
    fun _ env => At l env ∧ Canonical value := by
  refine Host.Triple.ite (fun _ => Host.Triple.fail _) fun below => Host.Triple.pure fun _ start => ⟨start, ?_⟩
  rw [toNat_fieldSize, Nat.not_le] at below
  exact below

theorem spec_validateNullifiers (nullifiers : List U256) : Host.Triple (At l) (validateNullifiers fieldSize nullifiers)
    fun _ env => At l env ∧ ∀ n ∈ nullifiers, Canonical n := by
  induction nullifiers with
  | nil => exact Host.Triple.pure fun _ start => ⟨start, fun n none => absurd none List.not_mem_nil⟩
  | cons n rest ih =>
    refine (spec_validateBn256PublicInput n).bind fun _ => carry fun canonical => ?_
    exact ih.consequence (fun _ start => start) fun _ _ after =>
      ⟨after.1, List.forall_mem_cons.mpr ⟨canonical, after.2⟩⟩

theorem spec_isKnownRoot (root : U256) : Host.Triple (At l) (merkle (MerkleTreeWithHistory.isKnownRoot root))
    fun known env => At l env ∧
      ∃ start next : Env Ledger, start.storage.pool = l.pool ∧ (isKnownRoot root).run start = .ok (known, next) :=
  reads (keeps_merkle_isKnownRoot root) fun env _ next start run => ⟨env, next, congrArg Ledger.pool start, run⟩

theorem spec_validateBn256PublicInputs (proof : Proof) :
    Host.Triple (At l) (validateBn256PublicInputs proof fieldSize) fun _ env => At l env ∧ CanonicalInputs proof := by
  refine (spec_validateBn256PublicInput proof.root).bind fun _ => carry fun root => ?_
  refine (spec_validateBn256PublicInput proof.publicAmount).bind fun _ => carry fun publicAmount => ?_
  refine (spec_validateNullifiers proof.inputNullifiers).bind fun _ => carry fun nullifiers => ?_
  refine (spec_validateBn256PublicInput proof.outputCommitment0).bind fun _ => carry fun commitment0 => ?_
  refine (spec_validateBn256PublicInput proof.outputCommitment1).bind fun _ => carry fun commitment1 => ?_
  refine (spec_validateBn256PublicInput proof.aspMembershipRoot).bind fun _ => carry fun member => ?_
  refine (spec_validateBn256PublicInput proof.aspNonMembershipRoot).consequence (fun _ start => start)
    fun _ _ after => ?_
  exact ⟨after.1, root, publicAmount, nullifiers, commitment0, commitment1, member, after.2⟩

theorem spec_verifyProof (proof : Proof) : Host.Triple (At l) (verifyProof D proof) fun valid env =>
    At l env ∧ CanonicalInputs proof ∧
      ∃ verifier, l.pool.verifier = some verifier ∧
        D.verify verifier proof.proof (publicInputs proof) = some valid := by
  unfold verifyProof
  refine Host.Triple.guard fun _ => spec_field (·.verifier) fun verifier found => ?_
  refine (spec_validateBn256PublicInputs proof).bind fun _ => carry fun canonical => ?_
  exact (spec_called _).consequence (fun _ start => start) fun _ _ after =>
    ⟨after.1, canonical, verifier, found, after.2⟩

theorem spec_aspRoot (field : Storage → Option Address) (answer : Address → Option U256) :
    Host.Triple (At l) (do
      let asp ← Host.okOr (field (← Host.storage).pool) .notInitialized
      Host.called (answer asp) : Contract U256)
      fun root env => At l env ∧ ∃ asp, field l.pool = some asp ∧ answer asp = some root := by
  refine spec_field field fun asp found => ?_
  exact (spec_called (answer asp)).consequence (fun _ start => start) fun _ _ after => ⟨after.1, asp, found, after.2⟩

theorem spec_validate (D : Deployment) (roots : Roots) (proof : Proof) (extData : ExtData) :
    Host.Triple (At l) (validate D roots proof extData) fun _ env =>
      At l env ∧ Validated D roots proof extData l.pool := by
  refine (spec_isKnownRoot proof.root).bind fun _ => carry fun rootKnown => Host.Triple.guard fun passed => ?_
  refine (spec_checkNullifiers proof.inputNullifiers).bind fun _ => carry fun unspent => ?_
  refine Host.Triple.guard fun sameHash => ?_
  refine (spec_calculatePublicAmount extData.extAmount).bind fun amount => carry fun encodes => ?_
  refine Host.Triple.guard fun sameAmount => ?_
  refine (spec_aspRoot (·.aspMembership) roots.membership).bind fun memberRoot => carry fun isMember => ?_
  refine (spec_aspRoot (·.aspNonMembership) roots.nonMembership).bind fun nonMemberRoot => carry fun isNonMember => ?_
  refine Host.Triple.guard fun sameRoots => (spec_verifyProof proof).bind fun valid => carry fun proved => ?_
  refine Host.Triple.ite (fun _ => Host.Triple.fail _) fun accepted => Host.Triple.pure fun _ start => ⟨start, ?_⟩
  rw [Bool.not_eq_true', Bool.not_eq_false] at passed accepted
  rw [not_or, not_not, not_not] at sameRoots
  rw [passed] at rootKnown
  rw [sameRoots.1] at isMember
  rw [sameRoots.2] at isNonMember
  rw [accepted] at proved
  have fresh (nulls : U256 → Option Bool) (found : l.pool.nullifiers = some nulls) (n : U256)
      (member : n ∈ proof.inputNullifiers) : nulls n ≠ some true := by
    obtain ⟨read, isRead, free⟩ := unspent n member
    rw [Option.some.inj (found.symm.trans isRead)]
    exact free
  exact
    { rootKnown := rootKnown, unspent := fresh, extDataHash := not_not.mp sameHash
      publicAmount := (not_not.mp sameAmount) ▸ encodes, membershipRoot := isMember
      nonMembershipRoot := isNonMember, verified := proved.2, canonical := proved.1 }

end Reading

section Writing

variable {l : Ledger} {D : Deployment}

theorem spec_update (f : Ledger → Ledger) : Host.Triple (At l) (Host.update f : Contract Unit) fun _ => At (f l) :=
  Host.Triple.update fun _ start => congrArg f start

theorem spec_tokenTransfer (token source target : Address) (amount : Int) :
    Host.Triple (At l) (tokenTransfer D token source target amount) fun _ env =>
      ∃ balances, D.transfer token source target amount l.balances = some balances ∧
        At (l.setBalances balances) env := by
  refine spec_storage.bind fun s => carry fun same => (spec_called _).bind fun balances => carry fun moved => ?_
  rw [same] at moved
  exact (spec_update _).consequence (fun _ start => start) fun _ _ after => ⟨balances, moved, after⟩

theorem spec_deposit (token sender : Address) (extAmount : I256) :
    Host.Triple (At l) (deposit D token sender extAmount) fun _ env =>
      ∃ balances, Deposited D token sender extAmount l.balances balances ∧ At (l.setBalances balances) env := by
  apply Host.Triple.ite
  · intro positive
    refine spec_field (·.maximumDepositAmount) fun max _ => Host.Triple.guard fun _ => ?_
    refine (spec_i256ToI128Nonneg extAmount).bind fun amount => carry fun isAmount => ?_
    rw [isAmount]
    refine (spec_tokenTransfer token sender D.this _).consequence (fun _ start => start) ?_
    rintro _ env ⟨balances, moved, after⟩
    exact ⟨balances, by rw [Deposited, if_pos positive]; exact moved, after⟩
  · intro nothing
    exact Host.Triple.pure fun env start => ⟨l.balances, by rw [Deposited, if_neg nothing], start⟩

theorem mark_cons (l : Ledger) (n : U256) (rest : List U256) : l.mark (n :: rest) = (l.mark [n]).mark rest := by
  have nulls : l.pool.nullifiers.map (marked (n :: rest)) =
      (l.pool.nullifiers.map (marked [n])).map (marked rest) := by
    rw [Option.map_map]
    rfl
  simp only [Ledger.mark, nulls, List.map_cons, List.map_nil, List.append_assoc, List.singleton_append]

theorem run_markSpent {env : Env Ledger} {nulls : U256 → Option Bool} (found : env.storage.pool.nullifiers = some nulls)
    (n : U256) : (markSpent n).run env = .ok ((), env.update (·.setNullifiers (marked [n] nulls))) := by
  simp only [markSpent, getNullifiers, StateT.run_bind, Host.run_storage, Library.ok_bind, found, Host.run_okOr_some,
    Host.run_update]
  rfl

theorem run_markSpent_none {env : Env Ledger} (missing : env.storage.pool.nullifiers = none) (n : U256) :
    (markSpent n).run env = .error (.error .notInitialized) := by
  simp only [markSpent, getNullifiers, StateT.run_bind, Host.run_storage, Library.ok_bind, missing]
  rfl

/-- The marking of a nullifier; its error is dropped. -/
theorem spec_markSpent (n : U256) : Host.Triple (At l) (tryCatch (markSpent n) fun
      | .error _ => pure ()
      | .trap => throw .trap : Contract Unit)
    fun _ => At { l with pool := { l.pool with nullifiers := l.pool.nullifiers.map (marked [n]) } } := by
  intro env start u next run
  cases found : l.pool.nullifiers with
  | none =>
    have missing : env.storage.pool.nullifiers = none := by rw [start, found]
    have failed := run_markSpent_none missing n
    rw [Host.run_tryCatch_error _ failed] at run
    cases run
    change env.storage = _
    rw [start, Option.map_none, ← found]
  | some nulls =>
    rw [Host.run_tryCatch_ok _ (run_markSpent (by rw [start, found]) n)] at run
    cases run
    change env.storage.setNullifiers _ = _
    rw [start]
    rfl

theorem spec_markNullifiers (nullifiers : List U256) :
    Host.Triple (At l) (markNullifiers nullifiers) fun _ => At (l.mark nullifiers) := by
  induction nullifiers generalizing l with
  | nil =>
    refine Host.Triple.pure fun env start => start.trans ?_
    have none_ : l.pool.nullifiers.map (marked []) = l.pool.nullifiers := Option.map_id' ..
    simp only [Ledger.mark, none_, List.map_nil, List.append_nil]
  | cons n rest ih =>
    refine (spec_markSpent n).bind fun _ => (spec_update _).bind fun _ => ih.consequence (fun _ start => start) ?_
    exact fun _ env after => after.trans (mark_cons l n rest).symm

theorem spec_insertTwoLeaves (H : Hasher) (leaf1 leaf2 : U256) :
    Host.Triple (At l) (merkle (MerkleTreeWithHistory.insertTwoLeaves H leaf1 leaf2)) fun indices env =>
      ∃ m, Inserted H l.pool.merkle leaf1 leaf2 indices.1 indices.2 m ∧ At (l.setMerkle m) env := by
  refine Host.Triple.zoom fun env start indices next returned => ?_
  refine ⟨next.storage, ⟨env.hashed, next.hashed, ?_⟩, congrArg (Ledger.setMerkle next.storage) start⟩
  rw [← start, returned]

theorem spec_getToken : Host.Triple (At l) getToken fun token env => At l env ∧ l.pool.token = some token := by
  refine spec_storage.bind fun s => carry fun same => ?_
  rw [same]
  exact Host.Triple.okOr fun token found _ start => ⟨start, found⟩

theorem spec_withdraw {β : Type} (token recipient : Address) (extAmount : I256) {rest : Contract β}
    {Q : β → Env Ledger → Prop}
    (step : ∀ balances, Withdrawn D token recipient extAmount l.balances balances →
      Host.Triple (At (l.setBalances balances)) rest Q) :
    Host.Triple (At l) (do
      if extAmount.toInt < 0 then
        let abs ← Host.i256Neg extAmount
        let amount ← i256ToI128Nonneg abs
        tokenTransfer D token D.this recipient amount
      rest) Q := by
  apply Host.Triple.ite
  · intro negative
    refine (spec_i256Neg extAmount).bind fun abs => carry fun isAbs => ?_
    refine (spec_i256ToI128Nonneg abs).bind fun amount => carry fun isAmount => ?_
    obtain ⟨negatable, rfl⟩ := isAbs
    rw [isAmount, toInt_neg_of_negative negatable]
    refine (spec_tokenTransfer token D.this recipient _).bind fun _ env ⟨balances, moved, start⟩ => ?_
    exact step balances (by rw [Withdrawn, if_pos negative]; exact moved) env start
  · intro nothing
    exact step l.balances (by rw [Withdrawn, if_neg nothing])

theorem spec_settle (H : Hasher) (proof : Proof) (extData : ExtData) :
    Host.Triple (At l) (settle D H proof extData) fun _ env =>
      ∃ token idx0 idx1 tree balances, l.pool.token = some token ∧
        Withdrawn D token extData.recipient extData.extAmount l.balances balances ∧
        Inserted H l.pool.merkle proof.outputCommitment0 proof.outputCommitment1 idx0 idx1 tree ∧
        At (l.settled proof extData idx0 idx1 tree balances) env := by
  refine (spec_markNullifiers proof.inputNullifiers).bind fun _ => spec_getToken.bind fun token =>
    carry fun isToken => ?_
  refine spec_withdraw token extData.recipient extData.extAmount fun balances withdrawn => ?_
  refine (spec_insertTwoLeaves H _ _).bind fun indices env ⟨tree, inserted, start⟩ => ?_
  refine (spec_update _).bind (fun _ => (spec_update _).consequence (fun _ start => start) ?_) env start
  intro _ env after
  refine ⟨token, indices.1, indices.2, tree, balances, isToken, withdrawn, inserted, after.trans ?_⟩
  simp only [Ledger.settled, Ledger.publish, Ledger.setMerkle, Ledger.setBalances, Ledger.mark, List.append_assoc,
    List.singleton_append]

theorem transact_accepted {H : Hasher} {roots : Roots} {auths : List Address} {proof : Proof} {extData : ExtData}
    {sender : Address} {env next : Env Ledger} {u : Unit}
    (returned : (transact D H roots auths proof extData sender).run env = .ok (u, next)) :
    Accepted D H roots auths proof extData sender env.storage next.storage := by
  have triple : Host.Triple (At env.storage) (transact D H roots auths proof extData sender) fun _ after =>
      Accepted D H roots auths proof extData sender env.storage after.storage := by
    refine (Host.Triple.requireAuth (Q := fun _ start => At env.storage start ∧ sender ∈ auths)
      fun member _ start => ⟨start, member⟩).bind fun _ => carry fun authorized => ?_
    refine spec_getToken.bind fun token => carry fun isToken => ?_
    refine (spec_deposit token sender extData.extAmount).bind fun _ middle ⟨paid, deposited, start⟩ => ?_
    refine (spec_validate D roots proof extData).bind (fun _ => carry fun validated => ?_) middle start
    refine (spec_settle H proof extData).consequence (fun _ start => start) ?_
    rintro _ after ⟨token', idx0, idx1, tree, balances, isToken', withdrawn, inserted, settled⟩
    obtain rfl : token = token' := Option.some.inj (isToken.symm.trans isToken')
    exact ⟨authorized, validated, token, paid, idx0, idx1, tree, balances, isToken, deposited, withdrawn,
      inserted, settled⟩
  exact triple env rfl u next returned

end Writing

end PrivatePayments.Pool
