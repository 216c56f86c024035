import Mathlib.Data.List.Basic

/-!
Readers that take values off a tape at a position: what a run that succeeds has read, for
readers in sequence, under a check and in repetition.
-/

namespace PrivatePayments.Library.Reader

variable {σ β ε α γ : Type}

/-- The text stands on the tape from the position on. -/
def Lies (tape : List β) (position : Nat) (text : List β) : Prop :=
  ∃ before after, tape = before ++ text ++ after ∧ before.length = position

section Placement

variable {tape text x y : List β} {position : Nat}

theorem lies_nil : Lies tape position [] ↔ position ≤ tape.length := by
  constructor
  · rintro ⟨before, after, rfl, rfl⟩
    rw [List.append_nil, List.length_append]
    exact Nat.le_add_right _ _
  · intro within
    exact ⟨tape.take position, tape.drop position, by simp, List.length_take_of_le within⟩

theorem Lies.le (lies : Lies tape position text) : position + text.length ≤ tape.length := by
  obtain ⟨before, after, rfl, rfl⟩ := lies
  rw [List.length_append, List.length_append]
  exact Nat.le_add_right _ _

theorem lies_append : Lies tape position (x ++ y) ↔ Lies tape position x ∧ Lies tape (position + x.length) y := by
  constructor
  · rintro ⟨before, after, rfl, rfl⟩
    refine ⟨⟨before, y ++ after, ?_, rfl⟩, ⟨before ++ x, after, ?_, List.length_append⟩⟩
    · simp only [List.append_assoc]
    · simp only [List.append_assoc]
  · rintro ⟨⟨before, after, rfl, rfl⟩, ⟨before', after', same, length⟩⟩
    have split : before ++ x ++ after = before' ++ (y ++ after') := by rw [same, List.append_assoc]
    obtain ⟨-, rfl⟩ := List.append_inj split (by rw [length, List.length_append])
    exact ⟨before, after', by simp only [List.append_assoc], rfl⟩

theorem Lies.slice (lies : Lies tape position text) : (tape.drop position).take text.length = text := by
  obtain ⟨before, after, rfl, rfl⟩ := lies
  rw [List.append_assoc, List.drop_left, List.take_left]

theorem lies_slice {n : Nat} (within : position + n ≤ tape.length) :
    Lies tape position ((tape.drop position).take n) := by
  refine ⟨tape.take position, (tape.drop position).drop n, ?_, List.length_take_of_le (by omega)⟩
  rw [List.append_assoc, List.take_append_drop, List.take_append_drop]

theorem Lies.unique (lies : Lies tape position x) (lies' : Lies tape position y) (length : x.length = y.length) :
    x = y := by
  rw [← lies.slice, ← lies'.slice, length]

end Placement

/-- What a reader may find at a position: a text, and the value the text stands for. -/
abbrev Grammar (β α : Type) := Nat → List β → α → Prop

/-- The reader succeeds just where its grammar finds a text, and then stands behind that text. -/
def Reads (tape : List β) (stand : Nat → σ) (p : StateT σ (Except ε) α) (G : Grammar β α) : Prop :=
  ∀ position, position ≤ tape.length → ∀ a s, p.run (stand position) = .ok (a, s) ↔
    ∃ text, G position text a ∧ Lies tape position text ∧ s = stand (position + text.length)

def andThen (G : Grammar β α) (H : α → Grammar β γ) : Grammar β γ :=
  fun position text c => ∃ a x y, text = x ++ y ∧ G position x a ∧ H a (position + x.length) y c

inductive Repeated (G : Grammar β α) : Grammar β (List α)
  | nil {position : Nat} : Repeated G position [] []
  | cons {position : Nat} {x y : List β} {a : α} {rest : List α} (head : G position x a)
      (tail : Repeated G (position + x.length) y rest) : Repeated G position (x ++ y) (a :: rest)

def times (p : StateT σ (Except ε) α) : Nat → StateT σ (Except ε) (List α)
  | 0 => pure []
  | n + 1 => do
      let a ← p
      let rest ← times p n
      return a :: rest

theorem run_bind_iff {p : StateT σ (Except ε) α} {k : α → StateT σ (Except ε) γ} {s s'' : σ} {c : γ} :
    (p >>= k).run s = .ok (c, s'') ↔ ∃ a s', p.run s = .ok (a, s') ∧ (k a).run s' = .ok (c, s'') := by
  have split : (p >>= k).run s = p.run s >>= fun next => (k next.1).run next.2 := rfl
  rw [split]
  constructor
  · intro run
    cases first : p.run s with
    | error e => rw [first] at run; cases run
    | ok next => rw [first] at run; exact ⟨next.1, next.2, rfl, run⟩
  · rintro ⟨a, s', first, second⟩
    rw [first]
    exact second

theorem run'_iff {p : StateT σ (Except ε) α} {s : σ} {a : α} : p.run' s = .ok a ↔ ∃ s', p.run s = .ok (a, s') := by
  have split : p.run' s = (p.run s).map Prod.fst := rfl
  rw [split]
  cases p.run s with
  | error e =>
    constructor
    · intro run
      cases run
    · rintro ⟨s', run⟩
      cases run
  | ok next =>
    constructor
    · intro run
      cases run
      exact ⟨next.2, rfl⟩
    · rintro ⟨s', run⟩
      cases run
      rfl

section Rules

variable {tape : List β} {stand : Nat → σ} {p : StateT σ (Except ε) α} {G G' : Grammar β α}

theorem Reads.congr (reads : Reads tape stand p G)
    (same : ∀ position text a, Lies tape position text → (G position text a ↔ G' position text a)) :
    Reads tape stand p G' := by
  intro position within a s
  rw [reads position within a s]
  apply exists_congr
  intro text
  constructor
  · rintro ⟨found, lies, ended⟩
    exact ⟨(same position text a lies).mp found, lies, ended⟩
  · rintro ⟨found, lies, ended⟩
    exact ⟨(same position text a lies).mpr found, lies, ended⟩

theorem Reads.of_pure (a : α) :
    Reads tape stand (pure a : StateT σ (Except ε) α) fun _ text b => text = [] ∧ b = a := by
  intro position within b s
  constructor
  · intro run
    cases run
    exact ⟨[], ⟨rfl, rfl⟩, lies_nil.mpr within, rfl⟩
  · rintro ⟨text, ⟨rfl, rfl⟩, -, rfl⟩
    rfl

theorem Reads.of_get :
    Reads tape stand (get : StateT σ (Except ε) σ) fun position text s => text = [] ∧ s = stand position := by
  intro position within b s
  constructor
  · intro run
    cases run
    exact ⟨[], ⟨rfl, rfl⟩, lies_nil.mpr within, rfl⟩
  · rintro ⟨text, ⟨rfl, rfl⟩, -, rfl⟩
    rfl

theorem Reads.bind {k : α → StateT σ (Except ε) γ} {H : α → Grammar β γ} (first : Reads tape stand p G)
    (second : ∀ a, Reads tape stand (k a) (H a)) : Reads tape stand (p >>= k) (andThen G H) := by
  intro position within c s
  rw [run_bind_iff]
  constructor
  · rintro ⟨a, s', ended, run⟩
    obtain ⟨x, found, lies, rfl⟩ := (first position within a s').mp ended
    obtain ⟨y, found', lies', rfl⟩ := (second a _ lies.le c s).mp run
    refine ⟨x ++ y, ⟨a, x, y, rfl, found, found'⟩, lies_append.mpr ⟨lies, lies'⟩, ?_⟩
    rw [List.length_append, Nat.add_assoc]
  · rintro ⟨text, ⟨a, x, y, rfl, found, found'⟩, lies, rfl⟩
    obtain ⟨lies, lies'⟩ := lies_append.mp lies
    refine ⟨a, _, (first position within a _).mpr ⟨x, found, lies, rfl⟩,
      (second a _ lies.le c _).mpr ⟨y, found', lies', ?_⟩⟩
    rw [List.length_append, Nat.add_assoc]

/-- A reader behind a check that asks nothing of the tape. -/
theorem Reads.check {c : Prop} [Decidable c] {e : ε} (reads : Reads tape stand p G) :
    Reads tape stand (if c then p else throw e) fun position text a => c ∧ G position text a := by
  intro position within a s
  by_cases passed : c
  · rw [if_pos passed, reads position within a s]
    simp only [passed, true_and]
  · rw [if_neg passed]
    constructor
    · intro run
      cases run
    · rintro ⟨text, ⟨holds, -⟩, -⟩
      exact absurd holds passed

theorem Reads.of_times (reads : Reads tape stand p G) (n : Nat) :
    Reads tape stand (times p n) fun position text values => Repeated G position text values ∧ values.length = n := by
  induction n with
  | zero =>
    refine (Reads.of_pure []).congr fun position text values _ => ?_
    constructor
    · rintro ⟨rfl, rfl⟩
      exact ⟨.nil, rfl⟩
    · rintro ⟨repeated, none⟩
      cases repeated with
      | nil => exact ⟨rfl, rfl⟩
      | cons head tail => cases none
  | succ n ih =>
    refine (reads.bind fun a => ih.bind fun rest => Reads.of_pure (a :: rest)).congr fun position text values _ => ?_
    constructor
    · rintro ⟨a, x, y, rfl, head, rest, y, z, rfl, ⟨tail, length⟩, rfl, rfl⟩
      rw [List.append_nil]
      exact ⟨.cons head tail, congrArg Nat.succ length⟩
    · rintro ⟨repeated, length⟩
      cases repeated with
      | nil => cases length
      | cons head tail =>
        exact ⟨_, _, _, rfl, head, _, _, [], (List.append_nil _).symm, ⟨tail, Nat.succ.inj length⟩, rfl, rfl⟩

theorem repeated_iff {g : List β → α → Prop} {position : Nat} {text : List β} {values : List α} :
    Repeated (fun _ => g) position text values ↔ ∃ parts, text = parts.flatten ∧ List.Forall₂ g parts values := by
  constructor
  · intro repeated
    induction repeated with
    | nil => exact ⟨[], rfl, .nil⟩
    | cons head _ ih =>
      obtain ⟨parts, rfl, all⟩ := ih
      exact ⟨_ :: parts, rfl, .cons head all⟩
  · rintro ⟨parts, rfl, all⟩
    induction all generalizing position with
    | nil => exact .nil
    | cons head _ ih => exact .cons head ih

theorem Reads.unique (reads : Reads tape stand p G) (injective : Function.Injective stand) {position : Nat}
    {x y : List β} {a b : α} (found : G position x a) (lies : Lies tape position x) (found' : G position y b)
    (lies' : Lies tape position y) : x = y ∧ a = b := by
  have within : position ≤ tape.length := Nat.le_trans (Nat.le_add_right _ _) lies.le
  have run := (reads position within a _).mpr ⟨x, found, lies, rfl⟩
  have run' := (reads position within b _).mpr ⟨y, found', lies', rfl⟩
  rw [run] at run'
  obtain ⟨rfl, states⟩ := Prod.mk.inj (Except.ok.inj run')
  have lengths : x.length = y.length := Nat.add_left_cancel (injective states)
  exact ⟨lies.unique lies' lengths, rfl⟩

end Rules

end PrivatePayments.Library.Reader
