import PrivatePayments.Spm.Votes

/-!
The lifecycle of a market from its first initialization on: which steps keep the status
moving forward and the counts in line with the accepted votes.
-/

namespace PrivatePayments.Spm
open Library

def MarketStatus.rank : MarketStatus → Nat
  | .opened => 0
  | .closed => 1
  | .resolved => 2

structure Market where
  storage : Storage
  accepted : Nat

namespace Market

def start (s : Storage) (vk nullifierRoot : Bn254.U256) : Market where
  storage := s.after (.initializeMarket vk nullifierRoot)
  accepted := 0

def next (K : Bn254Crypto) (m : Market) (call : Call) : Market :=
  let p := Progress.advance K { storage := m.storage, done := [] } call
  { storage := p.storage, accepted := m.accepted + (votes p.done).length }

/-- The counters and the stored result agree with the votes accepted. -/
structure Tally (m : Market) : Prop where
  totalVotes : m.storage.getTotalVotes = m.accepted
  voterCnt : m.storage.getVoterCnt = m.accepted
  result : ∀ r, m.storage.result = some r → r.votesYes.toNat + r.votesNo.toNat = m.accepted

/-- The step moves the status forward only, keeps what is resolved and counts votes on an open market. -/
structure Forward (m m' : Market) : Prop where
  status : m.storage.getStatus.rank ≤ m'.storage.getStatus.rank
  resolved : m.storage.getStatus = .resolved → m'.storage.result = m.storage.result
  counts : m'.accepted ≠ m.accepted → m.storage.getStatus = .opened

def Lifecycle (K : Bn254Crypto) (m : Market) (calls : List Call) : Prop :=
  Tally m ∧ Along (next K) (fun m call => Forward m (next K m call) ∧ Tally (next K m call)) m calls

/-- What the contract does not check of a call that returns. -/
def Orderly (K : Bn254Crypto) (m : Market) (call : Call) : Prop :=
  Accepts K m.storage call →
    match call with
    | .initializeMarket _ _ => m.storage.getStatus = .opened ∧ m.accepted = 0
    | .submitVote _ => m.storage.result = none
    | .closeMarket => m.storage.getStatus ≠ .resolved
    | .resolve votesYes votesNo _ _ => votesYes.toNat + votesNo.toNat = m.accepted

section Steps

variable {K : Bn254Crypto} {m : Market} {call : Call}

theorem next_accepted (accepts : Accepts K m.storage call) :
    m.next K call =
      { storage := m.storage.after call, accepted := m.accepted + (votes [call]).length } := by
  have step := advance_accepted (K := K) (p := { storage := m.storage, done := [] }) accepts
  simp only [next, step, List.nil_append]

theorem next_refused (refuses : ¬Accepts K m.storage call) : m.next K call = m := by
  have step := advance_refused (K := K) (p := { storage := m.storage, done := [] }) refuses
  simp only [next, step]
  rfl

theorem forward_refl (m : Market) : Forward m m := ⟨le_refl _, fun _ => rfl, fun moved => absurd rfl moved⟩

/-- On a market whose tally agrees, a step keeps the lifecycle just when it is orderly. -/
theorem orderly_iff (tally : Tally m) :
    Forward m (m.next K call) ∧ Tally (m.next K call) ↔ Orderly K m call := by
  by_cases accepts : Accepts K m.storage call
  · rw [next_accepted accepts]
    cases call with
    | initializeMarket vk nullifierRoot =>
      constructor
      · rintro ⟨forward, next⟩ -
        refine ⟨?_, next.totalVotes.symm⟩
        have back : m.storage.getStatus.rank ≤ 0 := forward.status
        cases status : m.storage.getStatus with
        | opened => rfl
        | closed =>
          rw [status] at back
          exact absurd back (by decide)
        | resolved =>
          rw [status] at back
          exact absurd back (by decide)
      · intro orderly
        obtain ⟨opened, zero⟩ := orderly accepts
        refine ⟨⟨?_, fun _ => rfl, fun _ => opened⟩, ⟨zero.symm, zero.symm, tally.result⟩⟩
        rw [opened]
        exact Nat.zero_le _
    | submitVote vote =>
      have opened : m.storage.getStatus = .opened := accepts.1
      constructor
      · rintro ⟨-, next⟩ -
        cases stored : m.storage.result with
        | none => rfl
        | some r =>
          have now := tally.result r stored
          have later : r.votesYes.toNat + r.votesNo.toNat = m.accepted + 1 := next.result r stored
          omega
      · intro orderly
        refine ⟨⟨le_refl _, fun _ => rfl, fun _ => opened⟩, ⟨?_, ?_, fun r stored => ?_⟩⟩
        · exact congrArg (· + 1) tally.totalVotes
        · exact congrArg (· + 1) tally.voterCnt
        · have unset : m.storage.result = none := orderly accepts
          exact absurd (unset.symm.trans stored) nofun
    | closeMarket =>
      constructor
      · rintro ⟨forward, -⟩ - resolved
        have back : m.storage.getStatus.rank ≤ 1 := forward.status
        rw [resolved] at back
        exact absurd back (by decide)
      · intro orderly
        have unresolved : m.storage.getStatus ≠ .resolved := orderly accepts
        refine ⟨⟨?_, fun resolved => absurd resolved unresolved, fun moved => absurd rfl moved⟩,
          ⟨tally.totalVotes, tally.voterCnt, tally.result⟩⟩
        cases status : m.storage.getStatus with
        | opened => exact Nat.zero_le _
        | closed => exact le_refl 1
        | resolved => exact absurd status unresolved
    | resolve votesYes votesNo totalVoters minorityThreshold =>
      have opened : m.storage.getStatus = .opened := accepts.1
      constructor
      · rintro ⟨-, next⟩ -
        exact next.result _ rfl
      · intro orderly
        refine ⟨⟨?_, fun resolved => ?_, fun moved => absurd rfl moved⟩,
          ⟨tally.totalVotes, tally.voterCnt, fun r stored => ?_⟩⟩
        · rw [opened]
          exact Nat.zero_le _
        · rw [opened] at resolved
          cases resolved
        · cases stored
          exact orderly accepts
  · rw [next_refused accepts]
    exact iff_of_true ⟨forward_refl m, tally⟩ fun accepted => absurd accepted accepts

end Steps

theorem along_orderly_iff {K : Bn254Crypto} {m : Market} (tally : Tally m) (calls : List Call) :
    Along (next K) (fun m call => Forward m (next K m call) ∧ Tally (next K m call)) m calls ↔
      Along (next K) (Orderly K) m calls := by
  induction calls generalizing m with
  | nil => exact Iff.rfl
  | cons call calls ih =>
    constructor
    · rintro ⟨step, rest⟩
      exact ⟨(orderly_iff tally).mp step, (ih step.2).mp rest⟩
    · rintro ⟨orderly, rest⟩
      have step := (orderly_iff tally).mpr orderly
      exact ⟨step, (ih step.2).mpr rest⟩

end Market

open Market in
/-- After the initialization, the lifecycle holds over a run just when no result with votes is stored from
before and every call that returns is orderly. -/
theorem market_lifecycle_iff (K : Bn254Crypto) (before after : List Call) (vk nullifierRoot : Bn254.U256) :
    Lifecycle K (start (run K before).storage vk nullifierRoot) after ↔
      (∀ r, (run K before).storage.result = some r → r.votesYes.toNat + r.votesNo.toNat = 0) ∧
        Along (next K) (Orderly K) (start (run K before).storage vk nullifierRoot) after := by
  constructor
  · rintro ⟨tally, along⟩
    exact ⟨tally.result, (along_orderly_iff tally after).mp along⟩
  · rintro ⟨stale, along⟩
    have tally : Tally (start (run K before).storage vk nullifierRoot) := ⟨rfl, rfl, stale⟩
    exact ⟨tally, (along_orderly_iff tally after).mpr along⟩

/-- A market that was resolved by the one vote it counted goes back to closed. -/
theorem resolved_market_closes :
    ¬Market.Lifecycle (sampleCrypto 9) (Market.start (run (sampleCrypto 9) []).storage 1 2)
      [.submitVote (sampleVote 7 9), .resolve 1 0 1 30, .closeMarket] := by
  rintro ⟨-, -, -, ⟨forward, -⟩, -⟩
  exact absurd forward.status (by decide +kernel)

end PrivatePayments.Spm
