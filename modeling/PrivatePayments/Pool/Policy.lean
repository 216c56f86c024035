import PrivatePayments.AspMembership.Refinement
import PrivatePayments.AspNonMembership.CircuitSoundness
import PrivatePayments.Pool.Spending

/-!
The pool beside the two contracts of its policy, called in any order. The roots of the policy move
between the calls; a transaction that returns answers to those of its moment.
-/

namespace PrivatePayments.Pool
open Bn254 Poseidon2 Soroban Library Merkle Circuits PolicyTransaction

/-- Where the contracts of the policy are, and who deployed them. -/
structure Policy where
  membership : Address
  nonMembership : Address
  membershipAdmin : Address
  nonMembershipAdmin : Address

/-- A call of one of the three contracts. The roots in a transaction are those of any other contract. -/
inductive Action where
  | pool (call : Call)
  | membership (call : AspMembership.Call)
  | nonMembership (call : AspNonMembership.Call)

structure World where
  pool : Journal
  membership : AspMembership.Progress
  nonMembership : Env AspNonMembership.Storage

namespace World

def roots (P : Policy) (w : World) (others : Roots) : Roots where
  membership a :=
    if a = P.membership then Host.value? AspMembership.getRoot w.membership.env else others.membership a
  nonMembership a :=
    if a = P.nonMembership then (AspNonMembership.getRoot w.nonMembership.storage).toOption
    else others.nonMembership a

end World

def Call.within (P : Policy) (w : World) : Call → Call
  | .transact others auths proof extData sender => .transact (w.roots P others) auths proof extData sender
  | .updateAdmin auths newAdmin => .updateAdmin auths newAdmin
  | .updateAspMembership auths newAspMembership => .updateAspMembership auths newAspMembership
  | .updateAspNonMembership auths newAspNonMembership => .updateAspNonMembership auths newAspNonMembership
  | .moveTokens balances => .moveTokens balances

namespace World

def next (D : Deployment) (P : Policy) (w : World) : Action → World
  | .pool call => { w with pool := w.pool.advance D (call.within P w) }
  | .membership call => { w with membership := AspMembership.advance poseidon2 w.membership call }
  | .nonMembership call => { w with nonMembership := AspNonMembership.step poseidon2 w.nonMembership call }

def deployed (P : Policy) (config : Config) (balances : Balances) : World where
  pool := .fresh config balances
  membership := { env := AspMembership.deployed P.membershipAdmin config.levels, leaves := [] }
  nonMembership := AspNonMembership.deployed P.nonMembershipAdmin

def run (D : Deployment) (P : Policy) (config : Config) (balances : Balances) (actions : List Action) : World :=
  actions.foldl (next D P) (deployed P config balances)

/-- Each contract has a run of its own. -/
theorem run_parts (D : Deployment) (P : Policy) (config : Config) (balances : Balances) (actions : List Action) :
    ∃ calls members blocks, (run D P config balances actions).pool = journal D config balances calls ∧
      (run D P config balances actions).membership =
        AspMembership.run poseidon2 P.membershipAdmin config.levels members ∧
      (run D P config balances actions).nonMembership =
        AspNonMembership.run poseidon2 P.nonMembershipAdmin blocks := by
  induction actions using List.reverseRecOn with
  | nil => exact ⟨[], [], [], rfl, rfl, rfl⟩
  | append_singleton actions action ih =>
    obtain ⟨calls, members, blocks, isPool, isMembership, isNonMembership⟩ := ih
    have last : run D P config balances (actions ++ [action]) =
        next D P (run D P config balances actions) action := by
      unfold run
      rw [List.foldl_append]
      rfl
    rw [last]
    cases action with
    | pool call =>
      refine ⟨calls ++ [call.within P (run D P config balances actions)], members, blocks, ?_, isMembership,
        isNonMembership⟩
      rw [journal_concat, ← isPool]
      rfl
    | membership call =>
      refine ⟨calls, members ++ [call], blocks, isPool, ?_, isNonMembership⟩
      rw [AspMembership.run_concat, ← isMembership]
      rfl
    | nonMembership call =>
      refine ⟨calls, members, blocks ++ [call], isPool, isMembership, ?_⟩
      rw [AspNonMembership.run_concat, ← isNonMembership]
      rfl

end World

section Assignment

variable {C : Circomlib} {size : Size} {x : Inputs} {w : Signals} {tx i : Nat} {inPlay : Set Query}

def ownerKey (x : Inputs) (tx : Nat) : Fr := keypair poseidon2 (x.inPrivateKey tx)

theorem pubkey_inNote (x : Inputs) (tx : Nat) : (inNote poseidon2 x tx).pubkey = ownerKey x tx := by
  rw [inNote, ownerKey]

def memberQuery (x : Inputs) (tx i : Nat) : Query := .hash2 (ownerKey x tx) (x.membershipProofs tx i).blinding 1

def policyQueries (size : Size) (x : Inputs) (w : Signals) (tx i : Nat) : List Query :=
  memberQuery x tx i :: MerkleProof.queries size.levels (w.membershipVerifiers tx i) ++
    SMTVerifier.queries size.smtLevels (nonMembershipVerifier x w tx i) (w.nonMembershipVerifiers tx i)

theorem MembershipSatisfied.leaf_mem (lib : C.Published) (sat : InputSatisfied C poseidon2 size x w tx)
    (proof : MembershipSatisfied C poseidon2 size.levels x w tx i) (small : 2 ^ size.levels ≤ bn256Modulus)
    (inj : Set.InjOn poseidon2.answer inPlay) {leaves : List Fr}
    (treeInPlay : MerkleProof.treeQueries poseidon2 size.levels (leafAt leaves) ⊆ inPlay)
    (empty : emptyLeaf ∈ inPlay) (logged : ∀ q ∈ policyQueries size x w tx i, q ∈ inPlay)
    (root : x.membershipRoots tx i = FullTree.node poseidon2.compress (leafAt leaves) size.levels 0) :
    poseidon2.answer (memberQuery x tx i) ∈ leaves := by
  have leaf : (x.membershipProofs tx i).leaf = poseidon2.answer (memberQuery x tx i) := by
    rw [proof.leaf, proof.hasher, sat.inKeypair]
    rfl
  have found := proof.verifier.leaf_eq lib small inj treeInPlay
    (fun q member => logged q (List.mem_cons_of_mem _ (List.mem_append_left _ member))) (proof.root.trans root)
  have opened : poseidon2.answer (memberQuery x tx i) = leafAt leaves (x.membershipProofs tx i).pathIndices.val := by
    rw [← leaf]
    exact found.2
  have filled : poseidon2.answer (memberQuery x tx i) ≠ zeroAt 0 := by
    intro same
    cases inj (logged _ List.mem_cons_self) empty (same.trans answer_emptyLeaf.symm)
  exact List.mem_of_getElem? (getElem?_of_leafAt opened filled)

theorem NonMembershipSatisfied.not_blocked (lib : C.Published) (sat : InputSatisfied C poseidon2 size x w tx)
    (proof : NonMembershipSatisfied C poseidon2 size.smtLevels x w tx i) (free : CollisionFree poseidon2 inPlay)
    {admin : Address} {calls : List AspNonMembership.Call}
    (runInPlay : ∀ q ∈ (AspNonMembership.run poseidon2 admin calls).hashed, q ∈ inPlay)
    (logged : ∀ q ∈ policyQueries size x w tx i, q ∈ inPlay)
    (root : (AspNonMembership.run poseidon2 admin calls).storage.root = some (toU256 (x.nonMembershipRoots tx i)))
    (value : U256) :
    ¬AspNonMembership.Blocks (AspNonMembership.run poseidon2 admin calls).storage (toU256 (ownerKey x tx)) value := by
  intro blocked
  have key : (nonMembershipVerifier x w tx i).key = ownerKey x tx := proof.key.trans sat.inKeypair
  have bits := (lib.num2Bits _ _ _).mp proof.n2bs
  rw [← key] at blocked
  exact AspNonMembership.blocked_key_not_satisfied free runInPlay lib rfl rfl root blocked
    (bits.1 0 Nat.zero_lt_one) (fun q member => logged q (List.mem_append_right _ member)) proof.verifier

end Assignment

section History

variable {C : Circomlib} {D : Deployment} {P : Policy} {config : Config} {balances : Balances} {smtLevels : Nat}

def World.queries (E : Extractor C D config.verifier (circuitSize config.levels smtLevels)) (w : World) : Set Query :=
  E.queries w.pool ∪ MerkleProof.treeQueries poseidon2 config.levels (leafAt (w.membership.leaves.map ofU256)) ∪
    {q | q ∈ w.nonMembership.hashed}

theorem membershipRoot_eq {levels : Nat} {M : AspMembership.Members} {p : AspMembership.Progress}
    (follows : AspMembership.Follows poseidon2 levels M p) {root : U256}
    (answered : Host.value? AspMembership.getRoot p.env = some root) :
    ofU256 root = FullTree.node poseidon2.compress (leafAt (p.leaves.map ofU256)) levels 0 := by
  obtain ⟨next, returned⟩ := Host.value?_eq_some.mp answered
  have holds := follows.represents
  simp only [AspMembership.getRoot, StateT.run_bind, Host.run_storage, ok_bind, holds.root,
    Host.run_okOr_some, Except.ok.injEq, Prod.mk.injEq] at returned
  rw [← returned.1, ofU256_toU256, follows.leaves]

theorem toU256_mem_leaves {levels : Nat} {M : AspMembership.Members} {p : AspMembership.Progress}
    (follows : AspMembership.Follows poseidon2 levels M p) {leaf : Fr} (member : leaf ∈ p.leaves.map ofU256) :
    toU256 leaf ∈ p.leaves := by
  obtain ⟨value, inside, rfl⟩ := List.mem_map.mp member
  rw [toU256_ofU256 (follows.represents.canonical value (follows.leaves ▸ inside))]
  exact inside

theorem nonMembershipRoot_eq {s : AspNonMembership.Storage} {root : U256}
    (answered : (AspNonMembership.getRoot s).toOption = some root) : s.root = some root := by
  unfold AspNonMembership.getRoot at answered
  cases stored : s.root with
  | none =>
    rw [stored] at answered
    cases answered
  | some r =>
    rw [stored] at answered
    exact answered

/-- What the policy asks of an input at the moment of its transaction: its key is a member, it is not blocked, and
it is the owner of the note that is spent. -/
structure Complies (E : Extractor C D config.verifier (circuitSize config.levels smtLevels)) (w : World)
    (t : Transaction)
    (tx : Nat) : Prop where
  member : ∃ blinding, toU256 (poseidon2.hash2 (ownerKey (E.x t.proof) tx) blinding 1) ∈ w.membership.leaves
  notBlocked : ∀ value,
    ¬AspNonMembership.Blocks w.nonMembership.storage (toU256 (ownerKey (E.x t.proof) tx)) value
  owner : (E.x t.proof).inAmount tx ≠ 0 → ∃ note,
    (E.notes w.pool.accepted)[((E.x t.proof).inPathIndices tx).val]? = some note ∧
      note.amount = (E.x t.proof).inAmount tx ∧ note.pubkey = ownerKey (E.x t.proof) tx

/-- Whatever calls of the three contracts came before, a transaction that returns complies with the policy as it
is at that moment, with each of its inputs. -/
theorem policy_enforced (lib : C.Published) (E : Extractor C D config.verifier (circuitSize config.levels smtLevels))
    (positive : 0 < config.levels) (bounded : config.levels ≤ 32) (actions : List Action)
    {others : Roots} {auths : List Address} {t : Transaction} {sender : Address} {u : Unit} {next : Env Ledger}
    (returned : (transact D poseidon2 ((World.run D P config balances actions).roots P others) auths t.proof t.extData
      sender).run (World.run D P config balances actions).pool.progress.env = .ok (u, next))
    (membershipAt : (World.run D P config balances actions).pool.ledger.pool.aspMembership = some P.membership)
    (nonMembershipAt : (World.run D P config balances actions).pool.ledger.pool.aspNonMembership = some P.nonMembership)
    {inPlay : Set Query} (free : CollisionFree poseidon2 inPlay)
    (known : (World.run D P config balances actions).queries E ⊆ inPlay)
    (logged : ∀ q ∈ noteQueries poseidon2 (circuitSize config.levels smtLevels) (E.x t.proof) (E.w t.proof), q ∈ inPlay)
    (policyLogged : ∀ tx, tx < 2 →
      ∀ q ∈ policyQueries (circuitSize config.levels smtLevels) (E.x t.proof) (E.w t.proof) tx 0, q ∈ inPlay)
    {tx : Nat} (low : tx < 2) : Complies E (World.run D P config balances actions) t tx := by
  obtain ⟨calls, members, blocks, isPool, isMembership, isNonMembership⟩ := World.run_parts D P config balances actions
  generalize World.run D P config balances actions = w at *
  have poolKnown : E.queries w.pool ⊆ inPlay := fun q member => known (Or.inl (Or.inl member))
  have books : Consistent E w.pool := by
    rw [isPool] at poolKnown ⊢
    exact consistent_journal lib positive bounded calls (free.injOn.mono poolKnown)
  have follows : Follows poseidon2 config.levels w.pool.progress := by
    rw [isPool, journal_progress]
    exact follows_run zeroAt_chain positive bounded calls
  have accepted := transact_accepted returned
  have passing : Passing E inPlay w.pool t :=
    { books := books, follows := follows, known := poolKnown, logged := logged, valid := ⟨_, accepted.validated⟩ }
  obtain ⟨carries, satisfied⟩ := passing.proved
  have input := satisfied.inputs tx low
  have canonical := accepted.validated.canonical
  constructor
  · obtain ⟨asp, isAsp, answered⟩ := accepted.validated.membershipRoot
    obtain rfl := Option.some.inj (membershipAt.symm.trans isAsp)
    have followsMembers : AspMembership.Follows poseidon2 config.levels
        (AspMembership.Members.run config.levels P.membershipAdmin members)
        (AspMembership.run poseidon2 P.membershipAdmin config.levels members) :=
      AspMembership.follows_run zeroAt_chain positive bounded members
    rw [← isMembership] at followsMembers
    have root : (E.x t.proof).membershipRoots tx 0 =
        FullTree.node poseidon2.compress (leafAt (w.membership.leaves.map ofU256)) config.levels 0 := by
      rw [carries.membershipRoot tx low]
      exact membershipRoot_eq followsMembers ((if_pos rfl).symm.trans answered)
    have small : 2 ^ config.levels ≤ bn256Modulus :=
      le_trans (Nat.pow_le_pow_right (by decide) bounded) (by decide)
    have leaf := MembershipSatisfied.leaf_mem lib input (input.membership 0 Nat.zero_lt_one) small free.injOn
      (fun q member => known (Or.inl (Or.inr member))) (poolKnown (Or.inl (Or.inl rfl))) (policyLogged tx low) root
    exact ⟨((E.x t.proof).membershipProofs tx 0).blinding, toU256_mem_leaves followsMembers leaf⟩
  · intro value
    obtain ⟨asp, isAsp, answered⟩ := accepted.validated.nonMembershipRoot
    obtain rfl := Option.some.inj (nonMembershipAt.symm.trans isAsp)
    have stored := nonMembershipRoot_eq ((if_pos rfl).symm.trans answered)
    have runInPlay : ∀ q ∈ w.nonMembership.hashed, q ∈ inPlay := fun q member => known (Or.inr member)
    rw [isNonMembership] at stored runInPlay ⊢
    refine NonMembershipSatisfied.not_blocked lib input (input.nonMembership 0 Nat.zero_lt_one) free runInPlay
      (policyLogged tx low) ?_ value
    rw [stored, carries.nonMembershipRoot tx low, toU256_ofU256 canonical.aspNonMembershipRoot]
  · intro amount
    exact ⟨inNote poseidon2 (E.x t.proof) tx, passing.spends lib bounded free.injOn low amount, rfl,
      pubkey_inNote (E.x t.proof) tx⟩

end History

section Samples

def samplePolicy : Policy where
  membership := ⟨7⟩
  nonMembership := ⟨9⟩
  membershipAdmin := ⟨2⟩
  nonMembershipAdmin := ⟨2⟩

def sampleMember : Fr := (depositInputs.membershipProofs 0 0).leaf

/-- A key is blocked, the owner of another is made a member, and the member deposits. -/
def sampleActions : List Action :=
  [.nonMembership (.insertLeaf [⟨2⟩] 7 9), .membership (.insertLeaf [⟨2⟩] (toU256 sampleMember)), .pool depositCall]

def sampleWorld : World := World.run sampleDeployment samplePolicy sampleConfig sampleBalances sampleActions

theorem sampleWorld_runs :
    Host.Succeeds (transact sampleDeployment poseidon2 (sampleWorld.roots samplePolicy sampleRoots)
      [⟨4⟩] withdrawalProof
      withdrawalExtData ⟨4⟩) sampleWorld.pool.progress.env ∧
    sampleWorld.pool.ledger.pool.aspMembership = some ⟨7⟩ ∧ sampleWorld.pool.ledger.pool.aspNonMembership = some ⟨9⟩ ∧
    sampleWorld.membership.leaves.map ofU256 = [sampleMember] ∧
    sampleWorld.pool.accepted = [{ proof := depositProof, extData := depositExtData }] ∧
    sampleWorld.pool.leaves = (List.range 2).map depositInputs.outputCommitment := by
  unfold sampleWorld sampleActions depositCall sampleRoots
  rw [sampleDeployment_eq, depositProof_eq, withdrawalProof_eq]
  decide +kernel

def sampleWorldQueries : List Query :=
  let size : Size := circuitSize sampleConfig.levels 2
  let w (x : PolicyTransaction.Inputs) : Signals := honest poseidon2 size x fun _ _ => 0
  rootQueryList 2 ((List.range 2).map depositInputs.outputCommitment) ++ treeQueryList 2 [sampleMember] ++
    sampleWorld.nonMembership.hashed ++ noteQueries poseidon2 size depositInputs (w depositInputs) ++
    noteQueries poseidon2 size withdrawalInputs (w withdrawalInputs) ++
    (List.range 2).flatMap fun tx => policyQueries size withdrawalInputs (w withdrawalInputs) tx 0

theorem sampleWorld_queries : sampleWorld.queries sampleExtractor ⊆ {q | q ∈ sampleWorldQueries} := by
  obtain ⟨-, -, -, members, accepted, leaves⟩ := sampleWorld_runs
  simp only [sampleWorldQueries, List.append_assoc]
  rintro q (((root | ⟨t, inside, member⟩) | tree) | query)
  · rw [leaves] at root
    exact List.mem_append_left _ (rootQueries_subset (by decide) _ root)
  · rw [accepted] at inside
    obtain rfl := List.mem_singleton.mp inside
    exact List.mem_append_right _ (List.mem_append_right _ (List.mem_append_right _ (List.mem_append_left _ member)))
  · rw [members] at tree
    exact List.mem_append_right _ (List.mem_append_left _ (treeQueries_subset (by decide) _ tree))
  · exact List.mem_append_right _ (List.mem_append_right _ (List.mem_append_left _ query))

theorem policy_enforced_withdrawal :
    Complies sampleExtractor sampleWorld { proof := withdrawalProof, extData := withdrawalExtData } 0 := by
  obtain ⟨⟨u, next, returned⟩, membershipAt, nonMembershipAt, -, -, -⟩ := sampleWorld_runs
  rw [sampleWorld] at returned membershipAt nonMembershipAt
  exact policy_enforced Circomlib.standard_published sampleExtractor Nat.two_pos (by decide) sampleActions
    (P := samplePolicy) (t := { proof := withdrawalProof, extData := withdrawalExtData })
    returned membershipAt nonMembershipAt
    (CollisionFree.of_log sampleWorldQueries (by decide +kernel)) sampleWorld_queries
    (fun q member => List.mem_append_left _ (List.mem_append_right _ member))
    (fun tx low q member => List.mem_append_right _ (List.mem_flatMap.mpr ⟨tx, List.mem_range.mpr low, member⟩))
    Nat.two_pos

end Samples

end PrivatePayments.Pool
