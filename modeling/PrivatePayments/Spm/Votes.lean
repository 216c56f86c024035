import PrivatePayments.Library.Run
import PrivatePayments.Spm.Contract

/-!
Which votes the market accepts: one flag guards all nullifiers, and the proofs are checked
with the key and the inputs the caller brings.
-/

namespace PrivatePayments.Spm
open Bn254 Soroban Library

def Call.vote? : Call → Option Submission
  | .submitVote vote => some vote
  | _ => none

def votes (done : List Call) : List Submission := done.filterMap Call.vote?

/-- The votes of the market that is running: those after the last initialization. -/
def marketVotes (done : List Call) : List Submission :=
  done.foldl (fun accepted call =>
    match call with
    | .initializeMarket _ _ => []
    | .submitVote vote => accepted ++ [vote]
    | _ => accepted) []

/-- A vote of the running market carries the nullifier. -/
def Voted (done : List Call) (nullifier : U256) : Prop :=
  ∃ earlier ∈ marketVotes done, earlier.nullifier = nullifier

def RefusedAsDouble (K : Bn254Crypto) (p : Progress) (vote : Submission) : Prop :=
  (submitVote K vote).run p.env = .error (.error .nullifierAlreadyUsed)

section Guard

variable {K : Bn254Crypto}

theorem votes_concat (done : List Call) (call : Call) :
    votes (done ++ [call]) = votes done ++ call.vote?.toList := by
  unfold votes
  rw [List.filterMap_append]
  cases call <;> rfl

/-- The flag is set from the first accepted vote on, and no initialization clears it. -/
theorem used_advance {p : Progress} (flag : p.storage.used = true ↔ votes p.done ≠ []) (call : Call) :
    (p.advance K call).storage.used = true ↔ votes (p.advance K call).done ≠ [] := by
  by_cases accepts : Accepts K p.storage call
  · rw [advance_accepted accepts, votes_concat]
    have silent : votes p.done ++ [] ≠ [] ↔ votes p.done ≠ [] := by rw [List.append_nil]
    cases call with
    | initializeMarket vk nullifierRoot => exact flag.trans silent.symm
    | submitVote vote => exact iff_of_true rfl (List.append_ne_nil_of_right_ne_nil _ (List.cons_ne_nil _ _))
    | closeMarket => exact flag.trans silent.symm
    | resolve votesYes votesNo totalVoters minorityThreshold => exact flag.trans silent.symm
  · rw [advance_refused accepts]
    exact flag

theorem used_run (K : Bn254Crypto) (calls : List Call) :
    (run K calls).storage.used = true ↔ votes (run K calls).done ≠ [] := by
  induction calls using List.reverseRecOn with
  | nil => simp [run, Progress.fresh, Storage.empty, Storage.used, votes]
  | append_singleton calls call ih =>
    rw [run_concat]
    exact used_advance ih call

/-- On an open market the flag alone refuses a valid vote as a double one. -/
theorem refusedAsDouble_iff {p : Progress} {vote : Submission} (opened : p.storage.getStatus = .opened)
    (valid : Valid K vote) : RefusedAsDouble K p vote ↔ p.storage.used = true := by
  have opened : p.env.storage.getStatus = .opened := opened
  cases used : p.storage.used with
  | true => exact iff_of_true (run_submitVote_used opened used) rfl
  | false =>
    refine iff_of_false (fun refused => ?_) Bool.false_ne_true
    have ran := run_submitVote_unused K vote opened used
    rw [show verifyGroth16 K vote.proof (voteInputs vote) vote.vk = some (.ok true) from valid,
      show (submitVote K vote).run p.env = _ from refused] at ran
    by_cases counters : p.env.storage.getTotalVotes + 1 < 2 ^ 32 ∧ p.env.storage.getVoterCnt + 1 < 2 ^ 32
    · simp only [counters, and_self, if_true] at ran
      cases ran
    · simp only [counters, if_false] at ran
      cases ran

theorem votes_ne_nil_of_voted {done : List Call} {nullifier : U256} (voted : Voted done nullifier) :
    votes done ≠ [] := by
  induction done using List.reverseRecOn with
  | nil =>
    obtain ⟨earlier, member, -⟩ := voted
    cases member
  | append_singleton done call ih =>
    rw [votes_concat]
    have sub : ∀ earlier ∈ marketVotes (done ++ [call]),
        earlier ∈ marketVotes done ∨ call = .submitVote earlier := by
      intro earlier member
      unfold marketVotes at member
      rw [List.foldl_append] at member
      cases call with
      | initializeMarket vk nullifierRoot => cases member
      | submitVote vote =>
        rcases List.mem_append.mp member with before | last
        · exact Or.inl before
        · exact Or.inr (by rw [List.mem_singleton.mp last])
      | closeMarket => exact Or.inl member
      | resolve votesYes votesNo totalVoters minorityThreshold => exact Or.inl member
    obtain ⟨earlier, member, same⟩ := voted
    rcases sub earlier member with before | rfl
    · exact List.append_ne_nil_of_left_ne_nil (ih ⟨earlier, before, same⟩) _
    · exact List.append_ne_nil_of_right_ne_nil _ (List.cons_ne_nil _ _)

end Guard

/-- A valid vote on an open market is refused as a double vote just when its nullifier voted before in the
market, if and only if no vote at all was accepted before or the nullifier voted in the market. -/
theorem double_vote_guard_iff (K : Bn254Crypto) (calls : List Call) (vote : Submission)
    (opened : (run K calls).storage.getStatus = .opened) (valid : Valid K vote) :
    (RefusedAsDouble K (run K calls) vote ↔ Voted (run K calls).done vote.nullifier) ↔
      (votes (run K calls).done = [] ∨ Voted (run K calls).done vote.nullifier) := by
  rw [refusedAsDouble_iff opened valid, used_run]
  constructor
  · intro guard
    by_cases first : votes (run K calls).done = []
    · exact Or.inl first
    · exact Or.inr (guard.mp first)
  · rintro (first | voted)
    · refine iff_of_false (not_not_intro first) fun voted => ?_
      exact votes_ne_nil_of_voted voted first
    · exact iff_of_true (votes_ne_nil_of_voted voted) voted

section Sample

/-- Host functions under which the pairing check passes for one key. -/
def sampleCrypto (accepted : G1Affine) : Bn254Crypto where
  g1Neg := some
  g1Mul point _ := some point
  g1Add point _ := some point
  pairingCheck g1 _ := some (g1[1]? = some accepted)

def sampleKey (alpha : G1Affine) : VerificationKey :=
  { alpha := alpha, beta := 0, gamma := 0, delta := 0, ic := [0, 0, 0] }

def sampleVote (nullifier : U256) (alpha : G1Affine) : Submission where
  voter := ⟨0⟩
  nullifier := nullifier
  voteCommitment := 5
  proof := { a := 0, b := 0, c := 0 }
  vk := sampleKey alpha

end Sample

/-- The second voter is refused for the vote of the first. -/
theorem second_voter_refused :
    let calls := [.initializeMarket 1 2, .submitVote (sampleVote 7 9)]
    (run (sampleCrypto 9) calls).storage.getStatus = .opened ∧ Valid (sampleCrypto 9) (sampleVote 8 9) ∧
      ¬(RefusedAsDouble (sampleCrypto 9) (run (sampleCrypto 9) calls) (sampleVote 8 9) ↔
        Voted (run (sampleCrypto 9) calls).done (sampleVote 8 9).nullifier) := by
  have opened : (run (sampleCrypto 9) [.initializeMarket 1 2, .submitVote (sampleVote 7 9)]).storage.getStatus =
      .opened := by decide +kernel
  have valid : Valid (sampleCrypto 9) (sampleVote 8 9) := by decide +kernel
  refine ⟨opened, valid, fun guard => ?_⟩
  have used : (run (sampleCrypto 9) [.initializeMarket 1 2, .submitVote (sampleVote 7 9)]).storage.used = true := by
    decide +kernel
  obtain ⟨earlier, member, same⟩ := guard.mp ((refusedAsDouble_iff opened valid).mpr used)
  have only : marketVotes (run (sampleCrypto 9) [.initializeMarket 1 2, .submitVote (sampleVote 7 9)]).done =
      [sampleVote 7 9] := by decide +kernel
  rw [only, List.mem_singleton] at member
  rw [member] at same
  revert same
  decide

theorem double_vote_guard_iff_sample :
    let calls := [.initializeMarket 1 2, .submitVote (sampleVote 7 9)]
    (RefusedAsDouble (sampleCrypto 9) (run (sampleCrypto 9) calls) (sampleVote 7 9) ↔
        Voted (run (sampleCrypto 9) calls).done (sampleVote 7 9).nullifier) ↔
      (votes (run (sampleCrypto 9) calls).done = [] ∨
        Voted (run (sampleCrypto 9) calls).done (sampleVote 7 9).nullifier) :=
  double_vote_guard_iff _ _ _ (by decide +kernel) (by decide +kernel)

/-- The vote's proof verifies under the key, with the nullifier root and the commitment as its inputs. -/
def Bound (K : Bn254Crypto) (key : VerificationKey) (nullifierRoot : U256) (vote : Submission) : Prop :=
  verifyGroth16 K vote.proof [ofU256 nullifierRoot, ofU256 vote.voteCommitment] key = some (.ok true)

/-- The caller brings what the market stores: a submission comes with a key that hashes to the stored
value and with the stored root in the place of its nullifier, and an initialization after the first
stores what is stored. -/
def Tied (hashKey : VerificationKey → U256) (p : Progress) : Call → Prop
  | .submitVote vote => p.storage.vk = some (hashKey vote.vk) ∧
      ∃ root, p.storage.nullifierRoot = some root ∧ ofU256 vote.nullifier = ofU256 root
  | .initializeMarket vk nullifierRoot => p.storage.vk = none ∨
      (p.storage.vk = some vk ∧ p.storage.nullifierRoot = some nullifierRoot)
  | _ => True

/-- What the market stores is what was committed first, and the accepted votes are bound to it. -/
structure Committed (K : Bn254Crypto) (hashKey : VerificationKey → U256) (key : VerificationKey)
    (nullifierRoot : U256) (p : Progress) : Prop where
  isKey : p.storage.vk = some (hashKey key)
  isRoot : p.storage.nullifierRoot = some nullifierRoot
  bound : ∀ vote ∈ votes p.done, Bound K key nullifierRoot vote

section Commitment

variable {K : Bn254Crypto} {hashKey : VerificationKey → U256} {key : VerificationKey} {nullifierRoot : U256}
  {inPlay : Set VerificationKey}

theorem uncommitted_advance {p : Progress} {call : Call} (fresh : p.storage.vk = none ∧ votes p.done = [])
    (tied : Tied hashKey p call) (later : ∀ vk root, call ≠ .initializeMarket vk root) :
    (p.advance K call).storage.vk = none ∧ votes (p.advance K call).done = [] := by
  by_cases accepts : Accepts K p.storage call
  · rw [advance_accepted accepts, votes_concat, fresh.2]
    cases call with
    | initializeMarket vk root => exact absurd rfl (later vk root)
    | submitVote vote =>
      have stored := tied.1
      rw [fresh.1] at stored
      cases stored
    | closeMarket => exact ⟨fresh.1, rfl⟩
    | resolve votesYes votesNo totalVoters minorityThreshold => exact ⟨fresh.1, rfl⟩
  · rw [advance_refused accepts]
    exact fresh

theorem Committed.advance {p : Progress} {call : Call} (committed : Committed K hashKey key nullifierRoot p)
    (free : Set.InjOn hashKey inPlay) (known : key ∈ inPlay)
    (presented : ∀ vote, call = .submitVote vote → vote.vk ∈ inPlay) (tied : Tied hashKey p call) :
    Committed K hashKey key nullifierRoot (p.advance K call) := by
  by_cases accepts : Accepts K p.storage call
  · rw [advance_accepted accepts]
    cases call with
    | initializeMarket vk root =>
      rcases tied with fresh | ⟨sameKey, sameRoot⟩
      · rw [committed.isKey] at fresh
        cases fresh
      · refine ⟨sameKey.symm.trans committed.isKey, sameRoot.symm.trans committed.isRoot, ?_⟩
        rw [votes_concat, show (Call.initializeMarket vk root).vote?.toList = [] from rfl, List.append_nil]
        exact committed.bound
    | submitVote vote =>
      obtain ⟨sameKey, root, stored, sameRoot⟩ := tied
      have sameVk : key = vote.vk :=
        free known (presented vote rfl) (Option.some.inj (committed.isKey.symm.trans sameKey))
      have storedRoot : nullifierRoot = root := Option.some.inj (committed.isRoot.symm.trans stored)
      refine ⟨committed.isKey, committed.isRoot, fun other member => ?_⟩
      rw [votes_concat] at member
      rcases List.mem_append.mp member with before | last
      · exact committed.bound other before
      · have valid : Valid K vote := accepts.2.2.1
        rw [List.mem_singleton.mp last, Bound, sameVk, storedRoot, ← sameRoot]
        exact valid
    | closeMarket =>
      refine ⟨committed.isKey, committed.isRoot, ?_⟩
      rw [votes_concat, show Call.closeMarket.vote?.toList = [] from rfl, List.append_nil]
      exact committed.bound
    | resolve votesYes votesNo totalVoters minorityThreshold =>
      refine ⟨committed.isKey, committed.isRoot, ?_⟩
      rw [votes_concat, show (Call.resolve votesYes votesNo totalVoters minorityThreshold).vote?.toList = [] from rfl,
        List.append_nil]
      exact committed.bound
  · rw [advance_refused accepts]
    exact committed

end Commitment

/-- In a run whose calls bring what the market stores, every accepted vote is bound to the key and the
nullifier root that the first initialization committed. -/
theorem votes_bound_to_market (K : Bn254Crypto) (hashKey : VerificationKey → U256) (inPlay : Set VerificationKey)
    (free : Set.InjOn hashKey inPlay) (key : VerificationKey) (known : key ∈ inPlay) (nullifierRoot : U256)
    (before after : List Call) (first : ∀ call ∈ before, ∀ vk root, call ≠ .initializeMarket vk root)
    (presented : ∀ vote, .submitVote vote ∈ after → vote.vk ∈ inPlay)
    (tied : Along (Progress.advance K) (Tied hashKey) .fresh
      (before ++ .initializeMarket (hashKey key) nullifierRoot :: after)) :
    ∀ vote ∈ votes (run K (before ++ .initializeMarket (hashKey key) nullifierRoot :: after)).done,
      Bound K key nullifierRoot vote := by
  obtain ⟨early, start, late⟩ := Along.append.mp tied
  have fresh : (run K before).storage.vk = none ∧ votes (run K before).done = [] :=
    Along.invariant_mem (fun p => p.storage.vk = none ∧ votes p.done = [])
      (fun p call member inv meets => uncommitted_advance inv meets (first call member)) early ⟨rfl, rfl⟩
  have committed : Committed K hashKey key nullifierRoot
      ((run K before).advance K (.initializeMarket (hashKey key) nullifierRoot)) := by
    have accepts : Accepts K (run K before).storage (.initializeMarket (hashKey key) nullifierRoot) := trivial
    rw [advance_accepted accepts]
    refine ⟨rfl, rfl, ?_⟩
    rw [votes_concat, fresh.2]
    exact fun vote member => absurd member List.not_mem_nil
  have whole := Along.invariant_mem (Committed K hashKey key nullifierRoot)
    (fun p call member inv meets =>
      inv.advance free known (fun vote isVote => presented vote (isVote ▸ member)) meets) late committed
  rw [run, List.foldl_append, List.foldl_cons]
  exact whole.bound

section Sample

def sampleHash (key : VerificationKey) : U256 := BitVec.ofNat 256 key.alpha.toNat

theorem sampleHash_injOn : Set.InjOn sampleHash {sampleKey 9, sampleKey 10} := by
  rintro a (rfl | rfl) b (rfl | rfl) same
  · rfl
  · revert same
    decide +kernel
  · revert same
    decide +kernel
  · rfl

end Sample

theorem votes_bound_to_market_sample :
    Set.InjOn sampleHash {sampleKey 9, sampleKey 10} ∧ ∀ vote ∈ votes (run (sampleCrypto 9)
        ([] ++ .initializeMarket (sampleHash (sampleKey 9)) 7 :: [.submitVote (sampleVote 7 9)])).done,
      Bound (sampleCrypto 9) (sampleKey 9) 7 vote := by
  refine ⟨sampleHash_injOn, votes_bound_to_market (sampleCrypto 9) sampleHash {sampleKey 9,
    sampleKey 10} sampleHash_injOn
    (sampleKey 9) (Or.inl rfl) 7 [] _ (fun call member => absurd member List.not_mem_nil) ?_ ?_⟩
  · intro vote member
    obtain rfl : vote = sampleVote 7 9 := Call.submitVote.inj (List.mem_singleton.mp member)
    exact Or.inl rfl
  · exact ⟨Or.inl rfl, ⟨rfl, 7, rfl, rfl⟩, trivial⟩

/-- A vote is counted whose proof verifies under a key of the caller, and not under the committed one. -/
theorem foreign_key_accepted :
    Set.InjOn sampleHash {sampleKey 9, sampleKey 10} ∧
      ¬∀ vote ∈ votes (run (sampleCrypto 9)
          [.initializeMarket (sampleHash (sampleKey 10)) 7, .submitVote (sampleVote 7 9)]).done,
        Bound (sampleCrypto 9) (sampleKey 10) 7 vote := by
  have counted : votes (run (sampleCrypto 9)
      [.initializeMarket (sampleHash (sampleKey 10)) 7, .submitVote (sampleVote 7 9)]).done = [sampleVote 7 9] := by
    decide +kernel
  rw [counted]
  refine ⟨sampleHash_injOn, fun bound => ?_⟩
  have under : Bound (sampleCrypto 9) (sampleKey 10) 7 (sampleVote 7 9) := bound _ (List.mem_singleton.mpr rfl)
  revert under
  unfold Bound
  decide +kernel

end PrivatePayments.Spm
