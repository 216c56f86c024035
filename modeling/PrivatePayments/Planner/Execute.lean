import PrivatePayments.Library.Run
import PrivatePayments.Library.UniqueTable
import PrivatePayments.Planner.Plan

/-!
A spend session walks through a plan. A merged note has no commitment when the plan is made and is
found again by its amount among the notes of the wallet: that no other note has this amount follows from the
selection of as few notes as possible.
-/

namespace PrivatePayments.Planner
open Client Library Bn254

abbrev NotePublicKey := BitVec 256
abbrev EncryptionPublicKey := BitVec 256

inductive SpendTarget where
  | transfer (recipientNote : NotePublicKey) (recipientEnc : EncryptionPublicKey)
  | withdraw (recipient : String)

inductive SpendSessionError where
  | plan (error : PlanError)
  | complete
  | extAmountOverflow
  | missingWithdrawRecipient

structure Transact where
  inputCommitments : List Fr
  outputAmounts : NoteAmount × NoteAmount
  extAmount : ExtAmount
  extRecipient : String
  outRecipientNotePubkeys : Option NotePublicKey × Option NotePublicKey
  outRecipientEncryptionPubkeys : Option EncryptionPublicKey × Option EncryptionPublicKey

structure SpendSession where
  steps : List PlannedStep
  wallet : List SpendableNote
  poolAddress : String
  target : SpendTarget
  stepIndex : Nat

def resolveInputNote (input : StepNote) (notes : List SpendableNote) (sibling : Option StepNote) :
    Except PlanError SpendableNote :=
  match input.commitment with
  | some commitment =>
    match notes.find? fun note => decide (note.commitment = commitment) with
    | none => .error (.commitmentNotFound commitment)
    | some note =>
      if note.amount ≠ input.amount then .error (.noteAmountMismatch commitment note.amount input.amount) else .ok note
  | none =>
    let excluded := sibling.bind (·.commitment)
    match notes.filter fun note => decide (note.amount = input.amount ∧ excluded ≠ some note.commitment) with
    | [] => .error (.noNoteForAmount input.amount)
    | [note] => .ok note
    | _ => .error (.ambiguousNoteForAmount input.amount)

def PlannedStep.resolve (step : PlannedStep) (notes : List SpendableNote) : Except PlanError (List SpendableNote) := do
  let first ← resolveInputNote step.inputs.1 notes step.inputs.2
  match step.inputs.2 with
  | none => return [first]
  | some second => return [first, ← resolveInputNote second notes (some step.inputs.1)]

/-- `ExtAmount::try_from(NoteAmount)`. -/
def extAmountOf (amount : NoteAmount) : Option ExtAmount := if amount.toNat < 2 ^ 127 then some amount else none

def checkedNeg (amount : ExtAmount) : Option ExtAmount := if amount.toInt = -2 ^ 127 then none else some (-amount)

def materializeStep (step : PlannedStep) (poolAddress : String) (target : SpendTarget)
    (resolvedInputs : List SpendableNote) : Except SpendSessionError Transact :=
  let inputCommitments := resolvedInputs.map (·.commitment)
  match step.action with
  | .consolidate output => .ok
      { inputCommitments
        outputAmounts := (output, 0)
        extAmount := 0
        extRecipient := poolAddress
        outRecipientNotePubkeys := (none, none)
        outRecipientEncryptionPubkeys := (none, none) }
  | .final outputs =>
    match target with
    | .transfer recipientNote recipientEnc => .ok
        { inputCommitments
          outputAmounts := (outputs.1, outputs.2.getD 0)
          extAmount := 0
          extRecipient := poolAddress
          outRecipientNotePubkeys := (some recipientNote, if outputs.2.isSome then none else some recipientNote)
          outRecipientEncryptionPubkeys := (some recipientEnc, if outputs.2.isSome then none else some recipientEnc) }
    | .withdraw recipient =>
      match (extAmountOf outputs.1).bind checkedNeg with
      | none => .error .extAmountOverflow
      | some extAmount => .ok
          { inputCommitments
            outputAmounts := (outputs.2.getD 0, 0)
            extAmount
            extRecipient := recipient
            outRecipientNotePubkeys := (none, none)
            outRecipientEncryptionPubkeys := (none, none) }

def removeSpent (wallet spent : List SpendableNote) : List SpendableNote :=
  spent.foldl (fun wallet note => wallet.filter fun n => decide (n.commitment ≠ note.commitment)) wallet

def validateTarget : SpendTarget → Except SpendSessionError Unit
  | .withdraw "" => .error .missingWithdrawRecipient
  | _ => .ok ()

namespace SpendSession

def setup (sorter : UnstableSort) (wallet : List SpendableNote) (amount : NoteAmount) (poolAddress : String)
    (target : SpendTarget) : Except SpendSessionError SpendSession := do
  validateTarget target
  let txPlan ← (plan sorter amount wallet).mapError .plan
  return { steps := txPlan.steps, wallet, poolAddress, target, stepIndex := 0 }

def len (session : SpendSession) : Nat := session.steps.length

def isDone (session : SpendSession) : Bool := decide (session.len ≤ session.stepIndex)

def step (session : SpendSession) : Except SpendSessionError (Option Transact) :=
  match session.steps[session.stepIndex]? with
  | none => .ok none
  | some step => do
    let resolved ← (step.resolve session.wallet).mapError .plan
    return some (← materializeStep step session.poolAddress session.target resolved)

def completeStep (session : SpendSession) (outputCommitments : Fr × Fr) : Except SpendSessionError SpendSession :=
  match session.steps[session.stepIndex]? with
  | none => .error .complete
  | some step => do
    let spent ← (step.resolve session.wallet).mapError .plan
    let wallet := match step.action with
      | .consolidate output => removeSpent session.wallet spent ++ [⟨outputCommitments.1, output⟩]
      | .final _ => removeSpent session.wallet spent
    return { session with wallet, stepIndex := session.stepIndex + 1 }

/-- The caller's round: take the transaction of the step, submit it, and complete the step with the
commitments of its outputs. -/
def round (session : SpendSession) (outputCommitments : Fr × Fr) :
    Except SpendSessionError (Transact × SpendSession) := do
  match ← session.step with
  | none => throw .complete
  | some transact => return (transact, ← session.completeStep outputCommitments)

def drive (session : SpendSession) : List (Fr × Fr) → Except SpendSessionError (List Transact × SpendSession)
  | [] => .ok ([], session)
  | outputCommitments :: rest => do
    let (transact, next) ← session.round outputCommitments
    let (transacts, last) ← next.drive rest
    return (transact :: transacts, last)

end SpendSession

section Ledger

/-- The notes of the owner that a transaction makes: its outputs without another recipient. -/
def ownOutputs (transact : Transact) (outputCommitments : Fr × Fr) : List SpendableNote :=
  (if transact.outRecipientNotePubkeys.1 = none then [⟨outputCommitments.1, transact.outputAmounts.1⟩] else []) ++
    if transact.outRecipientNotePubkeys.2 = none then [⟨outputCommitments.2, transact.outputAmounts.2⟩] else []

def settled (live : List SpendableNote) (submitted : Transact × (Fr × Fr)) : List SpendableNote :=
  live.filter (fun note => decide (note.commitment ∉ submitted.1.inputCommitments)) ++
    ownOutputs submitted.1 submitted.2

/-- The transaction spends unspent notes, each once, and what they are worth with the external amount is what
its outputs are worth. -/
structure Lawful (live : List SpendableNote) (submitted : Transact × (Fr × Fr)) : Prop where
  unspent : submitted.1.inputCommitments ⊆ live.map (·.commitment)
  once : submitted.1.inputCommitments.Nodup
  balanced : (total value (live.filter fun note => decide (note.commitment ∈ submitted.1.inputCommitments)) : Int) +
    submitted.1.extAmount.toInt = submitted.1.outputAmounts.1.toNat + submitted.1.outputAmounts.2.toNat

def received (target : SpendTarget) (transact : Transact) : Int :=
  match target with
  | .transfer recipientNote _ =>
    (if transact.outRecipientNotePubkeys.1 = some recipientNote then (transact.outputAmounts.1.toNat : Int) else 0) +
      if transact.outRecipientNotePubkeys.2 = some recipientNote then (transact.outputAmounts.2.toNat : Int) else 0
  | .withdraw recipient => if transact.extRecipient = recipient then -transact.extAmount.toInt else 0

def changeOutput (transacts : List Transact) : Nat :=
  match transacts.getLast? with
  | none => 0
  | some transact => total value (ownOutputs transact (0, 0))

end Ledger

/-- No two notes share their commitment. -/
abbrev Distinct (notes : List SpendableNote) : Prop := (notes.map (·.commitment)).Nodup

section Resolve

variable {wallet : List SpendableNote} {note other : SpendableNote}

theorem Distinct.eq (distinct : Distinct wallet) (first : note ∈ wallet) (second : other ∈ wallet)
    (same : note.commitment = other.commitment) : note = other :=
  List.inj_on_of_nodup_map distinct first second same

theorem resolve_spendable (distinct : Distinct wallet) (member : note ∈ wallet) (sibling : Option StepNote) :
    resolveInputNote (.fromSpendable note) wallet sibling = .ok note := by
  unfold resolveInputNote
  cases found : wallet.find? fun other => decide (other.commitment = note.commitment) with
  | none => exact absurd (decide_eq_true rfl) (List.find?_eq_none.mp found note member)
  | some other =>
    have hit := List.find?_some found
    have same := distinct.eq (List.mem_of_find?_eq_some found) member (of_decide_eq_true hit)
    simp [StepNote.fromSpendable, found, same]

theorem resolve_amount (distinct : Distinct wallet) (member : note ∈ wallet)
    (apart : note.commitment ≠ other.commitment)
    (sole : ∀ m ∈ wallet, value m = value note → m = note) :
    resolveInputNote (.fromAmount note.amount) wallet (some (.fromSpendable other)) = .ok note := by
  unfold resolveInputNote
  have matching : wallet.filter (fun m => decide (m.amount = note.amount ∧ some other.commitment ≠ some m.commitment)) =
      [note] := by
    refine UniqueTable.filter_eq_singleton distinct.of_map member (decide_eq_true ⟨rfl, ?_⟩) ?_
    · intro same
      exact apart (Option.some.inj same).symm
    · intro m inside kept
      exact sole m inside (congrArg BitVec.toNat (of_decide_eq_true kept).1)
  change (match wallet.filter (fun m => decide
    (m.amount = note.amount ∧ some other.commitment ≠ some m.commitment)) with
    | [] => _
    | [note] => _
    | _ => _) = _
  rw [matching]

/-- A note of a step: one the plan knew, or a merged one, which is then the only note with its amount. -/
def Refers (wallet : List SpendableNote) (rest : List SpendableNote) (note : SpendableNote) (input : StepNote) : Prop :=
  input = .fromSpendable note ∨
    input = .fromAmount note.amount ∧ rest ≠ [] ∧ ∀ m ∈ wallet, value m = value note → m = note

theorem resolve_single {input : StepNote} {action : StepAction} (distinct : Distinct wallet) (member : note ∈ wallet)
    (refers : Refers wallet [] note input) :
    PlannedStep.resolve ⟨(input, none), action⟩ wallet = .ok [note] := by
  rcases refers with rfl | ⟨-, more, -⟩
  · unfold PlannedStep.resolve
    simp only [resolve_spendable distinct member]
    rfl
  · exact absurd rfl more

theorem resolve_pair {input : StepNote} (action : StepAction) {rest : List SpendableNote} (distinct : Distinct wallet)
    (member : note ∈ wallet) (second : other ∈ wallet) (apart : note.commitment ≠ other.commitment)
    (refers : Refers wallet (other :: rest) note input) :
    PlannedStep.resolve ⟨(input, some (.fromSpendable other)), action⟩ wallet = .ok [note, other] := by
  have first : resolveInputNote input wallet (some (.fromSpendable other)) = .ok note := by
    rcases refers with rfl | ⟨rfl, -, sole⟩
    · exact resolve_spendable distinct member _
    · exact resolve_amount distinct member apart sole
  unfold PlannedStep.resolve
  simp only [first, resolve_spendable distinct second]
  rfl

end Resolve

section Remove

variable {notes : List SpendableNote} {note other : SpendableNote}

theorem removeSpent_eq (wallet spent : List SpendableNote) :
    removeSpent wallet spent = wallet.filter fun n => decide (n.commitment ∉ spent.map (·.commitment)) := by
  unfold removeSpent
  induction spent generalizing wallet with
  | nil => simp
  | cons note spent ih =>
    rw [List.foldl_cons, ih, List.filter_filter]
    refine List.filter_congr fun n _ => ?_
    rw [Bool.eq_iff_iff]
    simp only [Bool.and_eq_true, decide_eq_true_eq, List.map_cons, List.mem_cons, not_or, ne_eq]
    exact and_comm

theorem perm_remove {spent : List SpendableNote} (distinct : Distinct notes) (within : spent ⊆ notes)
    (once : Distinct spent) :
    notes.Perm (spent ++ notes.filter fun n => decide (n.commitment ∉ spent.map (·.commitment))) := by
  rw [List.perm_ext_iff_of_nodup distinct.of_map]
  · intro n
    rw [List.mem_append, List.mem_filter, decide_eq_true_eq]
    constructor
    · intro member
      by_cases gone : n.commitment ∈ spent.map (·.commitment)
      · obtain ⟨m, inside, same⟩ := List.mem_map.mp gone
        exact Or.inl (distinct.eq (within inside) member same ▸ inside)
      · exact Or.inr ⟨member, gone⟩
    · rintro (inside | stays)
      · exact within inside
      · exact stays.1
  · refine List.Nodup.append once.of_map (distinct.of_map.filter _) ?_
    intro n inside stays
    exact of_decide_eq_true (List.mem_filter.mp stays).2 (List.mem_map_of_mem inside)

theorem total_remove {spent : List SpendableNote} (distinct : Distinct notes) (within : spent ⊆ notes)
    (once : Distinct spent) : total value notes =
      total value spent + total value (notes.filter fun n => decide (n.commitment ∉ spent.map (·.commitment))) := by
  rw [total_perm value (perm_remove distinct within once), total_append]

theorem total_spent {spent : List SpendableNote} (distinct : Distinct notes) (within : spent ⊆ notes)
    (once : Distinct spent) :
    total value (notes.filter fun n => decide (n.commitment ∈ spent.map (·.commitment))) = total value spent := by
  have split := total_perm value (List.filter_append_perm
      (fun n => decide (n.commitment ∈ spent.map (·.commitment))) notes)
  have whole := total_remove distinct within once
  simp only [total_append, ← decide_not] at split
  omega

end Remove

section Rounds

variable {session : SpendSession} {live : List SpendableNote}

theorem lawful_of_spent {spent : List SpendableNote} {submitted : Transact × (Fr × Fr)} (apart : Distinct live)
    (within : spent ⊆ live) (once : Distinct spent) (inputs : submitted.1.inputCommitments = spent.map (·.commitment))
    (balanced : (total value spent : Int) + submitted.1.extAmount.toInt =
      submitted.1.outputAmounts.1.toNat + submitted.1.outputAmounts.2.toNat) : Lawful live submitted := by
  refine ⟨?_, inputs ▸ once, ?_⟩
  · rw [inputs]
    exact List.map_subset _ within
  · rw [inputs, total_spent apart within once]
    exact balanced

theorem settled_commitments (live : List SpendableNote) (submitted : Transact × (Fr × Fr)) :
    ((settled live submitted).map (·.commitment)).Sublist
      (live.map (·.commitment) ++ [submitted.2.1, submitted.2.2]) := by
  have outputs : ((ownOutputs submitted.1 submitted.2).map (·.commitment)).Sublist [submitted.2.1, submitted.2.2] := by
    unfold ownOutputs
    split_ifs <;> simp
  rw [settled, List.map_append]
  exact (List.filter_sublist.map _).append outputs

theorem round_eq {step : PlannedStep} {later : List PlannedStep} {spent : List SpendableNote} {transact : Transact}
    (here : session.steps.drop session.stepIndex = step :: later) (resolved : step.resolve session.wallet = .ok spent)
    (made : materializeStep step session.poolAddress session.target spent = .ok transact)
    (outputCommitments : Fr × Fr) :
    session.round outputCommitments = .ok (transact,
      { session with
        wallet := match step.action with
          | .consolidate output => removeSpent session.wallet spent ++ [⟨outputCommitments.1, output⟩]
          | .final _ => removeSpent session.wallet spent
        stepIndex := session.stepIndex + 1 }) := by
  have current : session.steps[session.stepIndex]? = some step := by
    rw [← List.head?_drop, here]
    rfl
  unfold SpendSession.round SpendSession.step SpendSession.completeStep
  simp only [current, resolved, Except.mapError, bind, Except.bind, made]
  rfl

/-- No note of the wallet has the amount of a merge to come. -/
def Clear (wallet : List SpendableNote) (note : SpendableNote) (rest : List SpendableNote) : Prop :=
  ∀ pre post, rest = pre ++ post → pre ≠ [] → post ≠ [] → ∀ m ∈ wallet, m ∉ note :: pre →
    value m ≠ total value (note :: pre)

/-- A session before the steps that merge `rest` into `note` and pay. -/
structure Standing (session : SpendSession) (live : List SpendableNote) (amount : NoteAmount)
    (change : Option NoteAmount) (note : SpendableNote) (rest : List SpendableNote) : Prop where
  steps : ∃ input, session.steps.drop session.stepIndex = planned (.final (amount, change)) input note.amount rest ∧
    Refers session.wallet rest note input
  distinct : Distinct session.wallet
  members : note :: rest ⊆ session.wallet
  once : Distinct (note :: rest)
  clear : Clear session.wallet note rest
  reach : total value (note :: rest) = amount.toNat + (change.getD 0).toNat
  fits : total value (note :: rest) < 2 ^ 128
  held : session.wallet ⊆ live
  apart : Distinct live

variable {amount : NoteAmount} {change : Option NoteAmount} {note : SpendableNote}

theorem mem_removeSpent {wallet spent : List SpendableNote} {m : SpendableNote} :
    m ∈ removeSpent wallet spent ↔ m ∈ wallet ∧ m.commitment ∉ spent.map (·.commitment) := by
  rw [removeSpent_eq, List.mem_filter, decide_eq_true_eq]

theorem Clear.merged {wallet rest : List SpendableNote} {other next : SpendableNote} {commitment : Fr}
    (clear : Clear wallet note (other :: next :: rest))
    (sum_eq : (note.amount + other.amount).toNat = value note + value other) :
    Clear (removeSpent wallet [note, other] ++ [⟨commitment, note.amount + other.amount⟩])
      ⟨commitment, note.amount + other.amount⟩ (next :: rest) := by
  intro pre post same some_pre some_post m member outside
  rcases List.mem_append.mp member with stays | new
  · obtain ⟨member, kept⟩ := mem_removeSpent.mp stays
    simp only [List.map_cons, List.map_nil, List.mem_cons, List.not_mem_nil, or_false, not_or] at kept
    have apart := clear (other :: pre) post (by rw [same]; rfl) (by simp) some_post m member (by
      simp only [List.mem_cons, not_or] at outside ⊢
      exact ⟨fun is => kept.1 (by rw [is]), fun is => kept.2 (by rw [is]), outside.2⟩)
    intro equal
    refine apart (equal.trans ?_)
    calc value ⟨commitment, note.amount + other.amount⟩ + total value pre
        = (value note + value other) + total value pre := by rw [← sum_eq]
      _ = total value (note :: other :: pre) := Nat.add_assoc ..
  · exact absurd (List.mem_cons.mpr (Or.inl (List.mem_singleton.mp new))) outside

/-- The merged note is the only one with its amount. -/
theorem Clear.sole {wallet rest : List SpendableNote} {other next : SpendableNote} {commitment : Fr}
    (clear : Clear wallet note (other :: next :: rest))
    (sum_eq : (note.amount + other.amount).toNat = value note + value other) :
    ∀ m ∈ removeSpent wallet [note, other] ++ [⟨commitment, note.amount + other.amount⟩],
      value m = value ⟨commitment, note.amount + other.amount⟩ → m = ⟨commitment, note.amount + other.amount⟩ := by
  intro m member equal
  rcases List.mem_append.mp member with stays | new
  · obtain ⟨member, kept⟩ := mem_removeSpent.mp stays
    simp only [List.map_cons, List.map_nil, List.mem_cons, List.not_mem_nil, or_false, not_or] at kept
    refine absurd (equal.trans ?_) (clear [other] (next :: rest) rfl (by simp) (by simp) m member ?_)
    · simp [total, sum_eq]
    · simp only [List.mem_cons, List.not_mem_nil, or_false, not_or]
      exact ⟨fun is => kept.1 (by rw [is]), fun is => kept.2 (by rw [is])⟩
  · exact List.mem_singleton.mp new

/-- A merge succeeds, pays nobody, and the session stands before the merges that are left. -/
theorem round_consolidate {other next : SpendableNote} {rest : List SpendableNote}
    (stand : Standing session live amount change note (other :: next :: rest)) {outputCommitments : Fr × Fr}
    (fresh : (live.map (·.commitment) ++ [outputCommitments.1, outputCommitments.2]).Nodup) :
    ∃ transact session', session.round outputCommitments = .ok (transact, session') ∧
      Lawful live (transact, outputCommitments) ∧ received session.target transact = 0 ∧
      session'.steps = session.steps ∧ session'.target = session.target ∧
      session'.stepIndex = session.stepIndex + 1 ∧ total value session'.wallet = total value session.wallet ∧
      Standing session' (settled live (transact, outputCommitments)) amount change
        ⟨outputCommitments.1, note.amount + other.amount⟩ (next :: rest) := by
  obtain ⟨input, here, refers⟩ := stand.steps
  have pair : Distinct [note, other] := stand.once.sublist (List.Sublist.map _ (by simp))
  have within : [note, other] ⊆ session.wallet := fun m member => stand.members (by
    simp only [List.mem_cons, List.not_mem_nil, or_false] at member ⊢
    tauto)
  have apart : note.commitment ≠ other.commitment := by simpa [Distinct] using pair
  have resolved := resolve_pair (.consolidate (note.amount + other.amount)) stand.distinct
    (within (by simp)) (within (by simp)) apart refers
  have parts : total value (note :: other :: next :: rest) =
      note.amount.toNat + (other.amount.toNat + total value (next :: rest)) := rfl
  have fits := stand.fits
  obtain ⟨-, sum_eq⟩ := checkedAdd_eq (a := note.amount) (b := other.amount) (by omega)
  have pair_total : total value [note, other] = (note.amount + other.amount).toNat := by simp [total, sum_eq]
  refine ⟨_, _, round_eq here resolved rfl outputCommitments, ?_, ?_, rfl, rfl, rfl, ?_, ?_⟩
  · refine lawful_of_spent stand.apart (List.Subset.trans within stand.held) pair rfl ?_
    simp [pair_total]
  · unfold received
    cases session.target with
    | transfer => simp
    | withdraw => simp
  · simp only [removeSpent_eq, total_append]
    rw [total_remove stand.distinct within pair, pair_total, Nat.add_comm]
    rfl
  · have new_apart {m : SpendableNote} (member : m ∈ session.wallet) : m.commitment ≠ outputCommitments.1 := by
      intro same
      have inside := List.mem_map_of_mem (f := (·.commitment)) (stand.held member)
      exact (List.disjoint_of_nodup_append fresh) inside (by simp [same])
    have rest_stays : next :: rest ⊆ removeSpent session.wallet [note, other] := by
      intro m member
      refine mem_removeSpent.mpr ⟨stand.members (by simp only [List.mem_cons] at member ⊢; tauto), fun gone => ?_⟩
      have split : Distinct ([note, other] ++ (next :: rest)) := stand.once
      rw [Distinct, List.map_append] at split
      exact (List.disjoint_of_nodup_append split) gone (List.mem_map_of_mem member)
    refine ⟨⟨_, ?_, Or.inr ⟨rfl, by simp, stand.clear.sole sum_eq⟩⟩, ?_, ?_, ?_,
      stand.clear.merged sum_eq, ?_, ?_, ?_, ?_⟩
    · rw [← List.tail_drop, here]
      rfl
    · rw [Distinct, List.map_append]
      refine List.Nodup.append ?_ (List.nodup_singleton _) ?_
      · rw [removeSpent_eq]
        exact stand.distinct.sublist (List.filter_sublist.map _)
      · intro c stays new
        obtain ⟨m, member, rfl⟩ := List.mem_map.mp stays
        exact new_apart (mem_removeSpent.mp member).1 (by simpa using new)
    · exact List.cons_subset.mpr ⟨by simp, fun m member => List.mem_append_left _ (rest_stays member)⟩
    · rw [Distinct, List.map_cons, List.nodup_cons]
      refine ⟨fun inside => ?_, (stand.once.sublist (List.Sublist.map _ (by simp)))⟩
      obtain ⟨m, member, same⟩ := List.mem_map.mp inside
      exact new_apart (mem_removeSpent.mp (rest_stays member)).1 same
    · rw [← stand.reach, parts, total, List.map_cons, List.sum_cons, value, sum_eq, Nat.add_assoc]
    · rw [parts] at fits
      rw [total, List.map_cons, List.sum_cons, value, sum_eq, Nat.add_assoc]
      exact fits
    · intro m member
      rw [settled]
      rcases List.mem_append.mp member with stays | new
      · obtain ⟨member, kept⟩ := mem_removeSpent.mp stays
        exact List.mem_append_left _ (List.mem_filter.mpr ⟨stand.held member, decide_eq_true kept⟩)
      · refine List.mem_append_right _ (List.mem_append_left _ ?_)
        simpa using new
    · exact fresh.sublist (settled_commitments live _)

/-- A withdrawal has an external amount for what it pays. -/
abbrev Payable (target : SpendTarget) (amount : NoteAmount) : Prop :=
  ∀ recipient, target = .withdraw recipient → amount.toNat < 2 ^ 127

theorem extAmount_of_payable (small : amount.toNat < 2 ^ 127) :
    (extAmountOf amount).bind checkedNeg = some (-amount) ∧ (-amount).toInt = -(amount.toNat : Int) := by
  have positive : amount.toInt = amount.toNat := BitVec.toInt_eq_toNat_of_lt (by omega)
  have negated : (-amount).toInt = -(amount.toNat : Int) := by
    rw [BitVec.toInt_neg, positive, Int.bmod_def]
    omega
  refine ⟨?_, negated⟩
  rw [extAmountOf, if_pos small, Option.bind_some, checkedNeg, if_neg (by omega)]

/-- The last step materialises: it pays the amount, and what is left is its output to the owner. -/
theorem materialize_final (inputs : StepNote × Option StepNote) {spent : List SpendableNote} {target : SpendTarget}
    (payable : Payable target amount) (pool : String)
    (reach : total value spent = amount.toNat + (change.getD 0).toNat) :
    ∃ transact, materializeStep ⟨inputs, .final (amount, change)⟩ pool target spent = .ok transact ∧
      transact.inputCommitments = spent.map (·.commitment) ∧ received target transact = amount.toNat ∧
      changeOutput [transact] = (change.getD 0).toNat ∧
      (total value spent : Int) + transact.extAmount.toInt =
        transact.outputAmounts.1.toNat + transact.outputAmounts.2.toNat := by
  cases target with
  | transfer recipientNote recipientEnc =>
    refine ⟨_, rfl, rfl, ?_, ?_, ?_⟩
    · cases change <;> simp [received]
    · cases change <;> simp [changeOutput, ownOutputs, total]
    · simp [reach]
  | withdraw recipient =>
    obtain ⟨negates, ext⟩ := extAmount_of_payable (payable recipient rfl)
    unfold materializeStep
    simp only [negates]
    refine ⟨_, rfl, rfl, ?_, ?_, ?_⟩
    · simp [received, ext]
    · simp [changeOutput, ownOutputs, total, value]
    · simp only [ext, reach]
      simp

theorem round_final {rest : List SpendableNote} (stand : Standing session live amount change note rest)
    (few : rest.length ≤ 1) (payable : Payable session.target amount) (outputCommitments : Fr × Fr) :
    ∃ transact session', session.round outputCommitments = .ok (transact, session') ∧
      Lawful live (transact, outputCommitments) ∧ received session.target transact = amount.toNat ∧
      changeOutput [transact] = (change.getD 0).toNat ∧ session'.steps = session.steps ∧
      session'.stepIndex = session.stepIndex + 1 ∧
      total value session'.wallet + (amount.toNat + (change.getD 0).toNat) = total value session.wallet := by
  obtain ⟨input, here, refers⟩ := stand.steps
  obtain ⟨transact, made, inputs, pays, leaves, balanced⟩ :=
    materialize_final (input, rest.head?.map .fromSpendable) payable session.poolAddress stand.reach
  have resolved : PlannedStep.resolve ⟨(input, rest.head?.map .fromSpendable), .final (amount, change)⟩ session.wallet =
      .ok (note :: rest) := by
    match rest, few with
    | [], _ => exact resolve_single stand.distinct (stand.members (by simp)) refers
    | [other], _ =>
      have apart : note.commitment ≠ other.commitment := by simpa [Distinct] using stand.once
      exact resolve_pair _ stand.distinct (stand.members (by simp)) (stand.members (by simp)) apart refers
  have current : session.steps.drop session.stepIndex =
      [⟨(input, rest.head?.map .fromSpendable), .final (amount, change)⟩] := by
    rw [here]
    match rest, few with
    | [], _ => rfl
    | [other], _ => rfl
  refine ⟨_, _, round_eq current resolved made outputCommitments, ?_, pays, leaves, rfl, rfl, ?_⟩
  · exact lawful_of_spent stand.apart (List.Subset.trans stand.members stand.held) stand.once inputs balanced
  · simp only [removeSpent_eq]
    rw [total_remove stand.distinct stand.members stand.once, stand.reach, Nat.add_comm]

structure Driven (session : SpendSession) (live : List SpendableNote) (amount : NoteAmount) (change : Option NoteAmount)
    (left : Nat) (outs : List (Fr × Fr)) (transacts : List Transact) (last : SpendSession) : Prop where
  run : session.drive outs = .ok (transacts, last)
  length : transacts.length = outs.length
  steps : last.steps = session.steps
  stepIndex : last.stepIndex = session.stepIndex + outs.length
  lawful : Along settled Lawful live (transacts.zip outs)
  paid : outs.length = left → (transacts.map (received session.target)).sum = amount.toNat ∧
    changeOutput transacts = (change.getD 0).toNat ∧
    total value last.wallet + (amount.toNat + (change.getD 0).toNat) = total value session.wallet

theorem drive_cons {outs : Fr × Fr} {later : List (Fr × Fr)} {transact : Transact} {transacts : List Transact}
    {next last : SpendSession} (first : session.round outs = .ok (transact, next))
    (run : next.drive later = .ok (transacts, last)) :
    session.drive (outs :: later) = .ok (transact :: transacts, last) := by
  rw [SpendSession.drive, first]
  simp only [bind, Except.bind, run]
  rfl

theorem drive_nil (session : SpendSession) (live : List SpendableNote) (amount : NoteAmount)
    (change : Option NoteAmount)
    {left : Nat} (more : 0 < left) : Driven session live amount change left [] [] session :=
  ⟨rfl, rfl, rfl, rfl, trivial, fun no => absurd no more.ne⟩

theorem drive_final {rest : List SpendableNote} (stand : Standing session live amount change note rest)
    (few : rest.length ≤ 1) (payable : Payable session.target amount) (outs : Fr × Fr) :
    ∃ transacts last, Driven session live amount change (max 1 rest.length) [outs] transacts last := by
  obtain ⟨transact, next, run, lawful, pays, leaves, steps, index, whole⟩ := round_final stand few payable outs
  refine ⟨[transact], next, drive_cons run rfl, rfl, steps, index, ⟨lawful, trivial⟩, fun _ => ⟨?_, leaves, whole⟩⟩
  simpa using pays

/-- Every round of a run succeeds, by induction on the notes that are left to merge. -/
theorem drive_standing {rest : List SpendableNote} (stand : Standing session live amount change note rest)
    (payable : Payable session.target amount) (outs : List (Fr × Fr)) (count : outs.length ≤ max 1 rest.length)
    (fresh : (live.map (·.commitment) ++ outs.flatMap fun o => [o.1, o.2]).Nodup) :
    ∃ transacts last, Driven session live amount change (max 1 rest.length) outs transacts last := by
  induction rest generalizing session live note outs with
  | nil =>
    rcases outs with _ | ⟨o, _ | ⟨o', outs⟩⟩
    · exact ⟨_, _, drive_nil session live amount change (by omega)⟩
    · exact drive_final stand (by simp) payable o
    · simp at count
  | cons other rest ih =>
    rcases outs with _ | ⟨o, outs⟩
    · exact ⟨_, _, drive_nil session live amount change (by omega)⟩
    rcases rest with _ | ⟨next, rest⟩
    · obtain rfl : outs = [] := List.length_eq_zero_iff.mp (by simpa using count)
      exact drive_final stand (by simp) payable o
    · -- a note joins the running one, and the rest of the rounds go on from there
      have split : (live.map (·.commitment) ++ [o.1, o.2] ++ outs.flatMap fun o => [o.1, o.2]).Nodup := by
        rwa [List.append_assoc]
      obtain ⟨transact, session', run, lawful, unpaid, steps, target, index, whole, stand'⟩ :=
        round_consolidate stand (List.Nodup.of_append_left split)
      obtain ⟨transacts, last, driven⟩ := ih stand' (by rw [target]; exact payable) outs
        (by simp only [List.length_cons] at count ⊢; omega)
        (split.sublist ((settled_commitments live _).append (List.Sublist.refl _)))
      refine ⟨transact :: transacts, last, drive_cons run driven.run, ?_, driven.steps.trans steps, ?_,
        ⟨lawful, driven.lawful⟩, fun all => ?_⟩
      · rw [List.length_cons, List.length_cons, driven.length]
      · rw [driven.stepIndex, index, List.length_cons]
        omega
      · obtain ⟨pays, leaves, total_eq⟩ := driven.paid (by simp only [List.length_cons] at all ⊢; omega)
        refine ⟨?_, ?_, by rw [total_eq, whole]⟩
        · rw [List.map_cons, List.sum_cons, unpaid, ← target, pays, Int.zero_add]
        · have some_left : transacts ≠ [] := by
            intro none_left
            have length := driven.length
            rw [none_left] at length
            simp only [List.length_cons, List.length_nil] at all length
            omega
          rw [← leaves, changeOutput, changeOutput, List.getLast?_cons_of_ne_nil some_left]

end Rounds

section Once

/-- What a run of lawful transactions spends was there at its start or came out of one of them. -/
theorem inputs_within {live : List SpendableNote} {submitted : List (Transact × (Fr × Fr))}
    (lawful : Along settled Lawful live submitted) :
    ∀ c ∈ submitted.flatMap (·.1.inputCommitments),
      c ∈ live.map (·.commitment) ++ submitted.flatMap fun s => [s.2.1, s.2.2] := by
  induction submitted generalizing live with
  | nil => exact fun _ no => nomatch no
  | cons first later ih =>
    intro c member
    rw [List.flatMap_cons, List.mem_append] at member
    rw [List.flatMap_cons, ← List.append_assoc]
    rcases member with here | there
    · exact List.mem_append_left _ (List.mem_append_left _ (lawful.1.unspent here))
    · rcases List.mem_append.mp (ih lawful.2 c there) with old | new
      · exact List.mem_append_left _ ((settled_commitments live first).subset old)
      · exact List.mem_append_right _ new

/-- No note is spent twice: what a transaction spends is gone, and fresh commitments do not bring it back. -/
theorem inputs_nodup {live : List SpendableNote} {submitted : List (Transact × (Fr × Fr))}
    (lawful : Along settled Lawful live submitted)
    (fresh : (live.map (·.commitment) ++ submitted.flatMap fun s => [s.2.1, s.2.2]).Nodup) :
    (submitted.flatMap (·.1.inputCommitments)).Nodup := by
  induction submitted generalizing live with
  | nil => exact List.nodup_nil
  | cons first later ih =>
    rw [List.flatMap_cons, ← List.append_assoc] at fresh
    have kept := fresh.sublist ((settled_commitments live first).append (List.Sublist.refl _))
    rw [List.flatMap_cons]
    refine List.Nodup.append lawful.1.once (ih lawful.2 kept) ?_
    intro c spent again
    have there := lawful.1.unspent spent
    rw [List.append_assoc] at fresh
    have apart := List.disjoint_of_nodup_append fresh there
    rcases List.mem_append.mp (inputs_within lawful.2 c again) with old | new
    · rw [settled, List.map_append, List.mem_append] at old
      rcases old with stays | made
      · obtain ⟨m, member, rfl⟩ := List.mem_map.mp stays
        exact of_decide_eq_true (List.mem_filter.mp member).2 spent
      · refine apart (List.mem_append_left _ ?_)
        unfold ownOutputs at made
        split_ifs at made <;> simp at made ⊢ <;> tauto
    · exact apart (List.mem_append_right _ new)

end Once

section Start

variable {notes picked : List SpendableNote} {indices : List Nat}

theorem Looked.subset (looked : Looked notes indices picked) : picked ⊆ notes := by
  induction looked with
  | nil => exact List.nil_subset _
  | cons here _ ih => exact List.cons_subset.mpr ⟨List.mem_of_getElem? here, ih⟩

theorem Looked.index (looked : Looked notes indices picked) {note : SpendableNote} (member : note ∈ picked) :
    ∃ index ∈ indices, notes[index]? = some note := by
  induction looked with
  | nil => cases member
  | @cons index _ _ _ here _ ih =>
    rcases List.mem_cons.mp member with rfl | later
    · exact ⟨index, List.mem_cons_self, here⟩
    · obtain ⟨index, inside, found⟩ := ih later
      exact ⟨index, List.mem_cons_of_mem _ inside, found⟩

/-- Different indices stand for different notes. -/
theorem Looked.distinct (looked : Looked notes indices picked) (nodup : indices.Nodup) (distinct : Distinct notes) :
    Distinct picked := by
  induction looked with
  | nil => exact List.nodup_nil
  | @cons index note indices picked here later ih =>
    obtain ⟨apart, nodup⟩ := List.nodup_cons.mp nodup
    rw [Distinct, List.map_cons, List.nodup_cons]
    refine ⟨fun again => ?_, ih nodup⟩
    obtain ⟨other, member, same⟩ := List.mem_map.mp again
    obtain ⟨index', inside, found⟩ := Looked.index later member
    have equal := distinct.eq (List.mem_of_getElem? found) (List.mem_of_getElem? here) same
    obtain ⟨bound, -⟩ := List.getElem?_eq_some_iff.mp here
    have one_index := (List.getElem?_inj bound distinct.of_map).mp (here.trans (equal ▸ found.symm))
    exact apart (one_index ▸ inside)

variable {amount : NoteAmount} {change : Option NoteAmount} {note0 : SpendableNote} {rest : List SpendableNote}

/-- A note with the amount of a merge would replace the merged notes in a selection of fewer notes. -/
theorem Picked.clear (picked : Picked notes amount change (note0 :: rest)) (distinct : Distinct notes)
    (positive : 0 < amount.toNat) : Clear notes note0 rest := by
  intro pre post same some_pre some_post m member outside equal
  obtain ⟨indices, nodup, looked⟩ := picked.looked
  have once := looked.distinct nodup distinct
  have whole : total value (note0 :: rest) = total value (note0 :: pre) + total value post := by
    rw [same, ← List.cons_append, total_append]
  have pre_pos := List.length_pos_of_ne_nil some_pre
  have post_pos := List.length_pos_of_ne_nil some_post
  have size : rest.length = pre.length + post.length := by rw [same, List.length_append]
  have three : 3 ≤ (note0 :: rest).length := by rw [List.length_cons]; omega
  have order := picked.descending three
  have reach := picked.reach
  obtain ⟨second, pre, rfl⟩ := List.exists_cons_of_ne_nil some_pre
  subst same
  by_cases chosen : m ∈ post
  · -- a note merged later is no larger than the second one, so the first is worth nothing, and with it all of them
    have second_le : value m ≤ value second :=
      (List.pairwise_cons.mp (List.pairwise_cons.mp order).2).1 m (by simp [chosen])
    have parts : total value (note0 :: second :: pre) = value note0 + (value second + total value pre) := rfl
    have nothing : ∀ n ∈ note0 :: (second :: pre ++ post), value n = 0 := by
      have first_zero : value note0 = 0 := by omega
      intro n inside
      rcases List.mem_cons.mp inside with rfl | later
      · exact first_zero
      · have below := (List.pairwise_cons.mp order).1 n later
        omega
    have worthless : total value (note0 :: (second :: pre ++ post)) = 0 :=
      List.sum_eq_zero fun v inside => by
        obtain ⟨n, member, rfl⟩ := List.mem_map.mp inside
        exact nothing n member
    omega
  · have replaced : (m :: post).Subperm notes := by
      refine List.subperm_of_subset (List.nodup_cons.mpr ⟨chosen, ?_⟩) (List.cons_subset.mpr ⟨member, ?_⟩)
      · exact once.of_map.sublist (List.sublist_append_right (note0 :: second :: pre) post)
      · intro n inside
        exact looked.subset (by simp [inside])
    have below := total_le_largestSum value replaced
    have fewer := largestSum_mono (notes.map value)
        (show (m :: post).length ≤ (note0 :: (second :: pre ++ post)).length - 1 by
      simp only [List.length_cons, List.length_append]
      omega)
    have short := picked.fewest three
    have parts : total value (m :: post) = value m + total value post := rfl
    omega

end Start

/-- A session that was set up stands before the merges of its plan. -/
theorem standing_of_setup {sorter : UnstableSort} {wallet : List SpendableNote} {amount : NoteAmount} {pool : String}
    {target : SpendTarget} {session : SpendSession} (distinct : Distinct wallet) (fits : total value wallet < 2 ^ 128)
    (positive : 0 < amount.toNat) (start : SpendSession.setup sorter wallet amount pool target = .ok session) :
    session.wallet = wallet ∧ session.target = target ∧ session.stepIndex = 0 ∧ ∃ note rest change,
      session.len = max 1 rest.length ∧ Standing session wallet amount change note rest := by
  unfold SpendSession.setup at start
  cases valid : validateTarget target with
  | error e =>
    rw [valid] at start
    cases start
  | ok _ =>
    rw [valid] at start
    have nonempty : wallet ≠ [] := by
      rintro rfl
      cases start
    have outcome := plan_spec sorter nonempty positive fits
    cases result : plan sorter amount wallet with
    | error e =>
      rw [result] at start
      cases start
    | ok txPlan =>
      rw [result] at start outcome
      cases start
      cases outcome with
      | steps note rest change _ same picked =>
        obtain ⟨indices, nodup, looked⟩ := picked.looked
        refine ⟨rfl, rfl, rfl, note, rest, change, ?_, ⟨⟨_, same, Or.inl rfl⟩, distinct, looked.subset,
          looked.distinct nodup distinct, picked.clear distinct positive, picked.reach, picked.fits,
          List.Subset.refl _, distinct⟩⟩
        rw [SpendSession.len, same, planned_length]

/-- A spend runs to its end: with fresh output commitments every round succeeds, the session is done after
its number of steps and not before, every transaction is lawful, no note is spent twice, the recipient receives
the amount, and the owner keeps the rest. -/
theorem spend_session_runs (sorter : UnstableSort) (wallet : List SpendableNote) (amount : NoteAmount) (pool : String)
    (target : SpendTarget) (session : SpendSession) (distinct : Distinct wallet) (fits : total value wallet < 2 ^ 128)
    (positive : 0 < amount.toNat) (payable : Payable target amount)
    (start : SpendSession.setup sorter wallet amount pool target = .ok session) (outs : List (Fr × Fr))
    (count : outs.length ≤ session.len)
    (fresh : (wallet.map (·.commitment) ++ outs.flatMap fun o => [o.1, o.2]).Nodup) :
    ∃ transacts last, session.drive outs = .ok (transacts, last) ∧ transacts.length = outs.length ∧
      (last.isDone = true ↔ outs.length = session.len) ∧ Along settled Lawful wallet (transacts.zip outs) ∧
      (transacts.flatMap (·.inputCommitments)).Nodup ∧
      (outs.length = session.len → (transacts.map (received target)).sum = amount.toNat ∧
        total value last.wallet + changeOutput transacts = total value wallet - amount.toNat ∧
        amount.toNat ≤ total value wallet) := by
  obtain ⟨same_wallet, same_target, index, note, rest, change, len, stand⟩ :=
    standing_of_setup distinct fits positive start
  obtain ⟨transacts, last, driven⟩ := drive_standing stand (same_target ▸ payable) outs (len ▸ count) fresh
  have zipped : (transacts.zip outs).map Prod.fst = transacts := List.map_fst_zip driven.length.le
  have zipped_outs : (transacts.zip outs).map Prod.snd = outs := List.map_snd_zip driven.length.ge
  refine ⟨transacts, last, driven.run, driven.length, ?_, driven.lawful, ?_, ?_⟩
  · rw [SpendSession.isDone, SpendSession.len, driven.steps, driven.stepIndex, index, decide_eq_true_eq]
    rw [SpendSession.len] at count ⊢
    omega
  · have once := inputs_nodup driven.lawful (by
      rw [← List.flatMap_map Prod.snd (fun o : Fr × Fr => [o.1, o.2]), zipped_outs]
      exact fresh)
    rwa [← List.flatMap_map Prod.fst (fun t : Transact => t.inputCommitments), zipped] at once
  · intro all
    obtain ⟨pays, leaves, whole⟩ := driven.paid (all.trans len)
    rw [same_target] at pays
    rw [same_wallet] at whole
    exact ⟨pays, by omega, by omega⟩

/-- Three notes are merged in two rounds, and the last one leaves a change of one. -/
theorem spend_session_runs_sample :
    ∃ session, SpendSession.setup stableSort [⟨101, 2⟩, ⟨102, 3⟩, ⟨103, 5⟩] 9 "pool" (.transfer 1 2) = .ok session ∧
      ∃ transacts last, session.drive [(201, 202), (203, 204)] = .ok (transacts, last) ∧ last.isDone = true ∧
        (transacts.map (received (.transfer 1 2))).sum = 9 := by
  refine ⟨⟨planned (.final (9, some 1)) ⟨some 103, 5⟩ 5 [⟨102, 3⟩, ⟨101, 2⟩], [⟨101, 2⟩, ⟨102, 3⟩, ⟨103, 5⟩], "pool",
    .transfer 1 2, 0⟩, rfl, ?_⟩
  obtain ⟨transacts, last, run, -, done, -, -, ends⟩ := spend_session_runs stableSort [⟨101, 2⟩, ⟨102, 3⟩, ⟨103, 5⟩] 9
    "pool" (.transfer 1 2) _ (by decide) (by decide) (by decide) nofun rfl [(201, 202), (203, 204)]
      (by decide) (by decide)
  exact ⟨transacts, last, run, done.mpr rfl, (ends rfl).1⟩

end PrivatePayments.Planner
