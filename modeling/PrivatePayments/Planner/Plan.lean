import PrivatePayments.Planner.Combination

/-!
The plan of a spend: the selected notes are merged one after the other, and the last step
pays. Whether there is a plan depends on the ten largest notes only.
-/

namespace PrivatePayments.Planner
open Client Library

structure SpendableNote where
  commitment : Bn254.Fr
  amount : NoteAmount
  deriving DecidableEq

/-- A note of a step. Without a commitment it does not exist yet when the plan is made. -/
structure StepNote where
  commitment : Option Bn254.Fr
  amount : NoteAmount
  deriving DecidableEq

def StepNote.fromSpendable (note : SpendableNote) : StepNote := ⟨some note.commitment, note.amount⟩

def StepNote.fromAmount (amount : NoteAmount) : StepNote := ⟨none, amount⟩

inductive StepAction where
  | consolidate (output : NoteAmount)
  | final (outputs : NoteAmount × Option NoteAmount)
  deriving DecidableEq

structure PlannedStep where
  inputs : StepNote × Option StepNote
  action : StepAction
  deriving DecidableEq

def PlannedStep.isFinal (step : PlannedStep) : Bool :=
  match step.action with
  | .final _ => true
  | .consolidate _ => false

structure TransactionPlan where
  steps : List PlannedStep
  closed : steps.getLast?.any PlannedStep.isFinal = true

def TransactionPlan.assemble (steps : List PlannedStep) : Option TransactionPlan :=
  if closed : steps.getLast?.any PlannedStep.isFinal = true then some ⟨steps, closed⟩ else none

/-- The range check on the indices, with the notes they stand for. -/
def pickNotes (notes : List SpendableNote) : List Nat → Except PlanError (List SpendableNote)
  | [] => .ok []
  | index :: indices =>
    match notes[index]? with
    | none => .error (.noteIndexOutOfRange index)
    | some note =>
      match pickNotes notes indices with
      | .error e => .error e
      | .ok picked => .ok (note :: picked)

/-- The loop of `plan` over the notes after the first: each step takes what the one before it left. -/
def mergeSteps : StepNote → NoteAmount → List SpendableNote → Except PlanError (List PlannedStep)
  | _, _, [] => .ok []
  | prevNote, sum, currentNote :: rest =>
    match checkedAdd sum currentNote.amount with
    | none => .error .inputAmountOverflow
    | some sum =>
      match mergeSteps (.fromAmount sum) sum rest with
      | .error e => .error e
      | .ok steps => .ok (⟨(prevNote, some (.fromSpendable currentNote)), .consolidate sum⟩ :: steps)

/-- `steps.last_mut()` gets another action. -/
def setLastAction (action : StepAction) : List PlannedStep → List PlannedStep
  | [] => []
  | [last] => [{ last with action }]
  | step :: steps => step :: setLastAction action steps

/-- The steps of `plan` over the notes it picked. -/
def planSteps (outputs : NoteAmount × Option NoteAmount) : List SpendableNote → Except PlanError (List PlannedStep)
  -- `indices[0]` would panic here; no selection is empty
  | [] => .error (.internalError "index out of bounds")
  | [note0] => .ok [⟨(.fromSpendable note0, none), .final outputs⟩]
  | note0 :: rest => do return setLastAction (.final outputs) (← mergeSteps (.fromSpendable note0) note0.amount rest)

def plan (sorter : UnstableSort) (amount : NoteAmount) (notes : List SpendableNote) :
    Except PlanError TransactionPlan := do
  if notes.isEmpty then throw .noSpendableNotes
  match (← findCombination sorter (notes.map (·.amount)) amount).selection with
  | none => throw .noCombination
  | some (indices, change) =>
    if transactionLimit < indices.length then throw (.tooManyNotes indices.length transactionLimit)
    match TransactionPlan.assemble (← planSteps (amount, change) (← pickNotes notes indices)) with
    | none => throw .invalidPlan
    | some plan => return plan

/-- The steps that merge the notes into the one before them and end with the action. -/
def planned (action : StepAction) : StepNote → NoteAmount → List SpendableNote → List PlannedStep
  | prevNote, _, [] => [⟨(prevNote, none), action⟩]
  | prevNote, _, [last] => [⟨(prevNote, some (.fromSpendable last)), action⟩]
  | prevNote, sum, currentNote :: next :: rest =>
    ⟨(prevNote, some (.fromSpendable currentNote)), .consolidate (sum + currentNote.amount)⟩ ::
      planned action (.fromAmount (sum + currentNote.amount)) (sum + currentNote.amount) (next :: rest)

abbrev value (note : SpendableNote) : Nat := note.amount.toNat

theorem setLastAction_cons (action : StepAction) (step : PlannedStep) {steps : List PlannedStep} (more : steps ≠ []) :
    setLastAction action (step :: steps) = step :: setLastAction action steps := by
  cases steps with
  | nil => exact absurd rfl more
  | cons next steps => rfl

theorem mergeSteps_eq (action : StepAction) (prevNote : StepNote) (sum : NoteAmount) (last : SpendableNote)
    (rest : List SpendableNote) (fits : sum.toNat + total value (last :: rest) < 2 ^ 128) :
    ∃ steps, mergeSteps prevNote sum (last :: rest) = .ok steps ∧ steps ≠ [] ∧
      setLastAction action steps = planned action prevNote sum (last :: rest) := by
  induction rest generalizing prevNote sum last with
  | nil =>
    obtain ⟨added, -⟩ := checkedAdd_eq (a := sum) (b := last.amount) (by simpa [total] using fits)
    refine ⟨[⟨(prevNote, some (.fromSpendable last)), .consolidate (sum + last.amount)⟩], ?_, by simp, rfl⟩
    unfold mergeSteps
    rw [added]
    rfl
  | cons next rest ih =>
    have parts : total value (last :: next :: rest) = last.amount.toNat + total value (next :: rest) := rfl
    obtain ⟨added, sum_eq⟩ := checkedAdd_eq (a := sum) (b := last.amount) (by omega)
    obtain ⟨steps, run, more, same⟩ := ih (.fromAmount (sum + last.amount)) (sum + last.amount) next (by omega)
    refine ⟨⟨(prevNote, some (.fromSpendable last)), .consolidate (sum + last.amount)⟩ :: steps, ?_, by simp, ?_⟩
    · rw [mergeSteps, added]
      simp only [run]
    · rw [setLastAction_cons _ _ more, same]
      rfl

theorem planned_closed (outputs : NoteAmount × Option NoteAmount) (prevNote : StepNote) (sum : NoteAmount)
    (rest : List SpendableNote) :
    (planned (.final outputs) prevNote sum rest).getLast?.any PlannedStep.isFinal = true := by
  induction rest generalizing prevNote sum with
  | nil => rfl
  | cons note rest ih =>
    cases rest with
    | nil => rfl
    | cons next rest =>
      have ends := ih (.fromAmount (sum + note.amount)) (sum + note.amount)
      rw [planned, List.getLast?_cons]
      cases tail : (planned (.final outputs) (.fromAmount (sum + note.amount)) (sum + note.amount)
        (next :: rest)).getLast? with
      | none =>
        rw [tail] at ends
        cases ends
      | some last =>
        rw [tail] at ends
        exact ends

theorem planned_length (action : StepAction) (prevNote : StepNote) (sum : NoteAmount) (rest : List SpendableNote) :
    (planned action prevNote sum rest).length = max 1 rest.length := by
  induction rest generalizing prevNote sum with
  | nil => rfl
  | cons note rest ih =>
    cases rest with
    | nil => rfl
    | cons next rest =>
      rw [planned, List.length_cons, ih]
      simp only [List.length_cons]
      omega

theorem planSteps_eq (outputs : NoteAmount × Option NoteAmount) (note0 : SpendableNote) (rest : List SpendableNote)
    (fits : total value (note0 :: rest) < 2 ^ 128) :
    planSteps outputs (note0 :: rest) = .ok (planned (.final outputs) (.fromSpendable note0) note0.amount rest) := by
  cases rest with
  | nil => rfl
  | cons last rest =>
    obtain ⟨steps, run, -, same⟩ := mergeSteps_eq (.final outputs) (.fromSpendable note0) note0.amount last rest fits
    rw [planSteps, run, ← same]
    rfl
    nofun

def Looked (notes : List SpendableNote) (indices : List Nat) (picked : List SpendableNote) : Prop :=
  List.Forall₂ (fun index note => notes[index]? = some note) indices picked

theorem pickNotes_eq {notes picked : List SpendableNote} {indices : List Nat} (looked : Looked notes indices picked) :
    pickNotes notes indices = .ok picked := by
  induction looked with
  | nil => rfl
  | cons here _ ih =>
    unfold pickNotes
    simp only [here, ih]

theorem exists_looked {notes : List SpendableNote} {picks : List Candidate}
    (within : ∀ c ∈ picks, c ∈ enumerate (notes.map (·.amount))) :
    ∃ picked, Looked notes (picks.map Prod.fst) picked ∧ picked.map (·.amount) = picks.map Prod.snd := by
  induction picks with
  | nil => exact ⟨[], List.Forall₂.nil, rfl⟩
  | cons c picks ih =>
    obtain ⟨here, later⟩ := List.forall_mem_cons.mp within
    obtain ⟨picked, looked, same⟩ := ih later
    rw [mem_enumerate, List.getElem?_map, Option.map_eq_some_iff] at here
    obtain ⟨note, found, amount⟩ := here
    exact ⟨note :: picked, List.Forall₂.cons found looked, by rw [List.map_cons, List.map_cons, same, amount]⟩

/-- The notes of a plan, in the order it merges them. -/
structure Picked (notes : List SpendableNote) (amount : NoteAmount) (change : Option NoteAmount)
    (picked : List SpendableNote) : Prop where
  looked : ∃ indices : List Nat, indices.Nodup ∧ Looked notes indices picked
  reach : total value picked = amount.toNat + (change.getD 0).toNat
  fits : total value picked < 2 ^ 128
  descending : 3 ≤ picked.length → Descending value picked
  fewest : 3 ≤ picked.length → largestSum (picked.length - 1) (notes.map value) < amount.toNat

inductive Planned (notes : List SpendableNote) (amount : NoteAmount) : Except PlanError TransactionPlan → Prop
  | steps (note0 : SpendableNote) (rest : List SpendableNote) (change : Option NoteAmount) (result : TransactionPlan)
      (same : result.steps = planned (.final (amount, change)) (.fromSpendable note0) note0.amount rest)
      (picked : Picked notes amount change (note0 :: rest))
      (reaches : amount.toNat ≤ largestSum transactionLimit (notes.map value)) : Planned notes amount (.ok result)
  | tooMany (selected : Nat) (enough : amount.toNat ≤ (notes.map value).sum)
      (short : largestSum transactionLimit (notes.map value) < amount.toNat) :
      Planned notes amount (.error (.tooManyNotes selected transactionLimit))
  | impossible (short : (notes.map value).sum < amount.toNat) : Planned notes amount (.error .noCombination)

theorem plan_spec (sorter : UnstableSort) {notes : List SpendableNote} {amount : NoteAmount} (nonempty : notes ≠ [])
    (positive : 0 < amount.toNat) (fits : (notes.map value).sum < 2 ^ 128) :
    Planned notes amount (plan sorter amount notes) := by
  have values : amounts (notes.map (·.amount)) = notes.map value := List.map_map
  obtain ⟨combo, run, outcome⟩ := findCombination_spec sorter (notes.map (·.amount)) amount
    (by simpa using nonempty) positive (by rwa [values])
  unfold plan
  rw [if_neg (by simpa using nonempty)]
  simp only [bind, Except.bind, run]
  rcases outcome with ⟨rfl, short⟩ | ⟨indices, change, picks, selection, selected⟩
  · rw [values] at short
    exact Planned.impossible short
  have weights : total weight picks ≤ (notes.map value).sum := by
    obtain ⟨inOrder, same, sub⟩ := selected.chosen
    rw [← values, ← enumerate_weights, ← total_perm weight same]
    exact total_sublist weight sub
  have size : indices.length = picks.length := by rw [← selected.indices, List.length_map]
  simp only [selection]
  by_cases many : transactionLimit < indices.length
  · rw [if_pos many]
    have limit : transactionLimit = 10 := rfl
    have short := selected.fewest (by omega)
    rw [values] at short
    have fewer := largestSum_mono (notes.map value) (show transactionLimit ≤ picks.length - 1 by omega)
    exact Planned.tooMany _ (by have := selected.reach; omega) (by omega)
  rw [if_neg many]
  obtain ⟨picked, looked, same⟩ := exists_looked fun c member => selected.chosen.subset member
  have totals : picked.map value = picks.map weight := by
    calc picked.map value = (picked.map (·.amount)).map (·.toNat) := by rw [List.map_map]; rfl
      _ = picks.map weight := by rw [same, List.map_map]; rfl
  have reaches : amount.toNat ≤ largestSum transactionLimit (notes.map value) := by
    calc amount.toNat ≤ total weight picks := by have := selected.reach; omega
      _ ≤ largestSum picks.length ((enumerate (notes.map (·.amount))).map weight) :=
          total_le_largestSum weight selected.chosen
      _ = largestSum picks.length (notes.map value) := by rw [enumerate_weights, values]
      _ ≤ largestSum transactionLimit (notes.map value) := largestSum_mono _ (by omega)
  have length : picked.length = picks.length := by
    rw [← List.length_map (f := value), totals, List.length_map]
  have picked_spec : Picked notes amount change picked := by
    refine ⟨⟨indices, ?_, selected.indices ▸ looked⟩, ?_, ?_, ?_, ?_⟩
    · rw [← selected.indices]
      obtain ⟨inOrder, same, sub⟩ := selected.chosen
      exact (same.map Prod.fst).nodup ((enumerate_indices _).sublist (sub.map Prod.fst))
    · rw [total, totals]
      exact selected.reach
    · rw [total, totals]
      exact weights.trans_lt fits
    · intro three
      have pairs := selected.descending (length ▸ three)
      rw [Descending, ← List.pairwise_map (f := weight) (R := fun a b => b ≤ a), ← totals, List.pairwise_map] at pairs
      exact pairs
    · intro three
      rw [length, ← values]
      exact selected.fewest (length ▸ three)
  rw [selected.indices] at looked
  simp only [pickNotes_eq looked]
  clear looked same totals length
  cases picked with
  | nil =>
    have reach : 0 = amount.toNat + (change.getD 0).toNat := picked_spec.reach
    omega
  | cons note0 rest =>
    have closed := planned_closed (amount, change) (.fromSpendable note0) note0.amount rest
    simp only [planSteps_eq (amount, change) note0 rest picked_spec.fits, TransactionPlan.assemble, dif_pos closed]
    exact Planned.steps note0 rest change ⟨_, closed⟩ rfl picked_spec reaches

/-- The plan exists exactly for the amounts up to the sum of the ten largest notes, and the error
says why there is none. -/
theorem plan_feasible_iff (sorter : UnstableSort) (amount : NoteAmount) (notes : List SpendableNote)
    (nonempty : notes ≠ [])
    (fits : (notes.map value).sum < 2 ^ 128) (positive : 0 < amount.toNat) :
    ((∃ result, plan sorter amount notes = .ok result) ↔
      amount.toNat ≤ largestSum transactionLimit (notes.map value)) ∧
    ∀ failure, plan sorter amount notes = .error failure →
      (failure = .noCombination ∨ ∃ selected, failure = .tooManyNotes selected transactionLimit) ∧
      (failure = .noCombination ↔ (notes.map value).sum < amount.toNat) ∧
      ((∃ selected, failure = .tooManyNotes selected transactionLimit) ↔
        amount.toNat ≤ (notes.map value).sum ∧ largestSum transactionLimit (notes.map value) < amount.toNat) := by
  have outcome := plan_spec sorter nonempty positive fits
  cases result : plan sorter amount notes with
  | ok steps =>
    rw [result] at outcome
    cases outcome with
    | steps _ _ _ _ _ _ reaches => exact ⟨⟨fun _ => reaches, fun _ => ⟨steps, rfl⟩⟩, nofun⟩
  | error reason =>
    rw [result] at outcome
    have all := largestSum_le transactionLimit (notes.map value)
    have no_plan : ¬∃ result : TransactionPlan, Except.error reason = .ok result := nofun
    cases outcome with
    | tooMany selected enough short =>
      refine ⟨iff_of_false no_plan (by omega), ?_⟩
      rintro _ ⟨⟩
      exact ⟨Or.inr ⟨selected, rfl⟩, iff_of_false nofun (by omega), iff_of_true ⟨selected, rfl⟩ ⟨enough, short⟩⟩
    | impossible short =>
      refine ⟨iff_of_false no_plan (by omega), ?_⟩
      rintro _ ⟨⟩
      exact ⟨Or.inl rfl, iff_of_true rfl short, iff_of_false nofun (by omega)⟩

/-- Three notes that only together reach the amount. -/
theorem plan_feasible_iff_sample :
    ∃ result, plan stableSort 10 [⟨101, 2⟩, ⟨102, 3⟩, ⟨103, 5⟩] = .ok result := by
  have perm : [5, 3, 2].Perm [2, 3, 5] := by decide
  have order : Descending id [5, 3, 2] := by decide
  have reach : largestSum transactionLimit [2, 3, 5] = 10 := largestSum_eq perm order transactionLimit
  exact (plan_feasible_iff stableSort 10 [⟨101, 2⟩, ⟨102, 3⟩, ⟨103, 5⟩] (by simp) (by decide) (by decide)).1.mpr
    reach.ge

end PrivatePayments.Planner
