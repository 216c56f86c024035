import PrivatePayments.Pool.Spending

/-!
The tokens of the pool cover the notes that are not spent. An accepted transaction moves the tokens
its external amount names, and what the accepted transactions bring in is what the ledger of notes
has left.
-/

namespace PrivatePayments.Pool
open Bn254 Poseidon2 Soroban Library Merkle Circuits PolicyTransaction

variable {D : Deployment}

/-- The token moves what a transfer names, or the transfer fails. -/
def MovesExactly (D : Deployment) (token : Address) : Prop :=
  ∀ source target amount before after, D.transfer token source target amount before = some after →
    ∀ holder, after token holder =
      before token holder - (if holder = source then amount else 0) + (if holder = target then amount else 0)

/-- The pool authorizes no call, and nobody else moves its tokens away. -/
def Custody (D : Deployment) (token : Address) (j : Journal) : Call → Prop
  | .transact _ auths _ _ _ => D.this ∉ auths
  | .moveTokens balances => j.ledger.balances token D.this ≤ balances token D.this
  | _ => True

/-- What the accepted transactions brought in, less what they took out. -/
def Journal.external (j : Journal) : Int := (j.accepted.map fun t => t.extData.extAmount.toInt).sum

/-- What came in through transactions is still there, over what the pool had at the start. -/
structure Backed (D : Deployment) (token : Address) (initial : Int) (j : Journal) : Prop where
  named : j.ledger.pool.token = some token
  backed : initial + j.external ≤ j.ledger.balances token D.this

section Transfers

variable {token : Address} {extAmount : I256} {before after : Balances}

theorem Deposited.balance (exact_ : MovesExactly D token) {sender : Address} (outside : sender ≠ D.this)
    (deposited : Deposited D token sender extAmount before after) :
    after token D.this = before token D.this + max 0 extAmount.toInt := by
  unfold Deposited at deposited
  split at deposited
  next positive =>
    have moved := exact_ _ _ _ _ _ deposited D.this
    rw [if_neg outside.symm, if_pos rfl] at moved
    omega
  next nothing =>
    rw [deposited]
    omega

/-- A withdrawal to the pool itself leaves the tokens where they are. -/
theorem Withdrawn.balance (exact_ : MovesExactly D token) {recipient : Address}
    (withdrawn : Withdrawn D token recipient extAmount before after) :
    before token D.this + min 0 extAmount.toInt ≤ after token D.this := by
  unfold Withdrawn at withdrawn
  split at withdrawn
  next negative =>
    have moved := exact_ _ _ _ _ _ withdrawn D.this
    rw [if_pos rfl] at moved
    split at moved <;> omega
  next nothing =>
    rw [withdrawn]
    omega

end Transfers

section Run

variable {token : Address} {initial : Int} {j : Journal}

theorem Backed.entered (exact_ : MovesExactly D token) (backed : Backed D token initial j) {t : Transaction}
    {roots : Roots} {auths : List Address} {sender : Address} {next : Env Ledger} (outside : D.this ∉ auths)
    (accepted : Accepted D poseidon2 roots auths t.proof t.extData sender j.ledger next.storage) :
    Backed D token initial (j.entered t next) := by
  obtain ⟨named, middle, idx0, idx1, tree, balances, isNamed, deposited, withdrawn, -, settled⟩ := accepted.settled
  obtain rfl : token = named := Option.some.inj (backed.named.symm.trans isNamed)
  have foreign : sender ≠ D.this := by
    rintro rfl
    exact outside accepted.authorized
  have paidIn := deposited.balance exact_ foreign
  have paidOut := withdrawn.balance exact_
  have now : next.storage.balances = balances := congrArg Ledger.balances settled
  constructor
  · exact (congrArg (fun l : Ledger => l.pool.token) settled).trans backed.named
  · have more : (j.entered t next).external = j.external + t.extData.extAmount.toInt := by
      change ((j.accepted ++ [t]).map _).sum = _
      rw [List.map_append, List.sum_append, List.map_singleton, List.sum_singleton]
      rfl
    have before := backed.backed
    change initial + (j.entered t next).external ≤ next.storage.balances token D.this
    rw [more, now]
    omega

theorem Backed.advance (exact_ : MovesExactly D token) (backed : Backed D token initial j) {call : Call}
    (custody : Custody D token j call) : Backed D token initial (j.advance D call) := by
  rcases advance_cases D j call with same | ⟨t, next, entry⟩ | ⟨next, books, moved, same⟩
  · rw [same]
    exact backed
  · obtain ⟨roots, auths, sender, rfl, accepted⟩ := entry.accepted
    rw [entry.advance]
    exact backed.entered exact_ custody accepted
  · rw [same]
    refine ⟨books.token.trans backed.named, backed.backed.trans ?_⟩
    change j.ledger.balances token D.this ≤ next.storage.balances token D.this
    rcases moved with still | rfl
    · rw [still]
    · exact custody

end Run

section History

variable {C : Circomlib} {config : Config} {balances : Balances} {smtLevels : Nat}

theorem backed_fresh (positive : 0 < config.levels) (bounded : config.levels ≤ 32) (balances : Balances) :
    Backed D config.token (balances config.token D.this) (.fresh config balances) := by
  obtain ⟨m, deployed⟩ := deployed_eq positive bounded balances
  have ledger := congrArg Env.storage deployed
  refine ⟨congrArg (fun l : Ledger => l.pool.token) ledger, ?_⟩
  rw [show (Journal.fresh config balances).ledger.balances = balances from congrArg Ledger.balances ledger]
  exact (Int.add_zero _).le

/-- Over its first balance the pool holds what the notes that are not spent are worth, and no more has been
withdrawn than was deposited. -/
theorem pool_solvent (lib : C.Published) (E : Extractor C D config.verifier (circuitSize config.levels smtLevels))
    (positive : 0 < config.levels) (bounded : config.levels ≤ 32) (exact_ : MovesExactly D config.token)
    (calls : List Call) (custody : Along (Journal.advance D) (Custody D config.token) (.fresh config balances) calls)
    (inj : Set.InjOn poseidon2.answer (E.queries (journal D config balances calls))) :
    balances config.token D.this + (E.ledger (journal D config balances calls).accepted).unspentTotal ≤
        (journal D config balances calls).ledger.balances config.token D.this ∧
      (journal D config balances calls).external =
      (E.ledger (journal D config balances calls).accepted).unspentTotal := by
  have books := consistent_journal lib positive bounded calls inj
  have left : ((E.ledger (journal D config balances calls).accepted).unspentTotal : Int) =
      (journal D config balances calls).external := by
    rw [Extractor.ledger, books.legal.unspentTotal, List.map_map]
    rfl
  have backed := custody.invariant (fun _ _ backed custody => backed.advance exact_ custody)
    (backed_fresh (D := D) positive bounded balances)
  refine ⟨?_, left.symm⟩
  rw [left]
  exact backed.backed

theorem movesExactly_sample : MovesExactly sampleDeployment sampleConfig.token := by
  intro source target amount before after moved holder
  obtain rfl := Option.some.inj moved
  exact if_pos rfl

theorem pool_solvent_withdrawal :
    sampleBalances sampleConfig.token sampleDeployment.this +
      (sampleExtractor.ledger sampleJournal.accepted).unspentTotal ≤
        sampleJournal.ledger.balances sampleConfig.token sampleDeployment.this ∧
      sampleJournal.external = (sampleExtractor.ledger sampleJournal.accepted).unspentTotal := by
  have outside : sampleDeployment.this ∉ [(⟨4⟩ : Address)] := by decide
  have custody : Along (Journal.advance sampleDeployment) (Custody sampleDeployment sampleConfig.token)
      (.fresh sampleConfig sampleBalances) [depositCall, withdrawalCall] := ⟨outside, outside, trivial⟩
  unfold sampleJournal
  exact pool_solvent Circomlib.standard_published sampleExtractor Nat.two_pos (by decide) movesExactly_sample _ custody
    sampleJournal_injOn

end History

end PrivatePayments.Pool
