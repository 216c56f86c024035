import PrivatePayments.Prover.R1csFormat

/-!
A whole `.r1cs` file as the parser takes it: the sections of the first pass, the last header
and the last constraints among them, and when a file is accepted.
-/

namespace PrivatePayments.Prover
open Bn254 Library.LittleEndian Library.Reader

variable {word : Nat} (data : Slice word)

structure Section where
  kind : BitVec 32
  size : BitVec 64
  body : List UInt8

def Section.text (s : Section) : List UInt8 :=
  toLeBytes 4 s.kind.toNat ++ (toLeBytes 8 s.size.toNat ++ s.body)

/-- How many bytes the first pass takes: of a header it reads all fields, whatever size is declared. -/
def Section.span (s : Section) : Nat :=
  if s.kind.toNat = 1 then max 64 s.size.toNat else s.size.toNat

def Begins {α : Type} (g : List UInt8 → α → Prop) (text : List UInt8) (a : α) : Prop :=
  ∃ x y, text = x ++ y ∧ g x a

def Collects (position : Nat) (found : Collected) (s : Section) (found' : Collected) : Prop :=
  match s.kind.toNat with
  | 1 => ∃ header, Begins headerText s.body header ∧ found' = { found with header := some header }
  | 2 => found' = { found with constraintsData := some (position + 12, s.size.toNat) }
  | _ => found' = found

def contentText (found : Collected) (kind : BitVec 32) (start size : Nat) (text : List UInt8)
    (found' : Collected) : Prop :=
  match kind.toNat with
  | 1 => ∃ header, headerText text header ∧ found' = { found with header := some header }
  | 2 => text.length = size ∧ found' = { found with constraintsData := some (start, size) }
  | _ => text.length = size ∧ found' = found

theorem reads_skip_return {α : Type} (size : Nat) (a : α) :
    Reads data.bytes (stand data) (do skip size; return a) fun _ text b => text.length = size ∧ b = a := by
  refine ((reads_skip data size).bind fun _ => Reads.of_pure a).congr fun position text b _ => ?_
  constructor
  · rintro ⟨_, x, _, rfl, length, rfl, rfl⟩
    rw [List.append_nil]
    exact ⟨length, rfl⟩
  · rintro ⟨length, rfl⟩
    exact ⟨(), text, [], (List.append_nil _).symm, length, rfl, rfl⟩

theorem reads_collectContent (found : Collected) (kind : BitVec 32) (start size : Nat) :
    Reads data.bytes (stand data) (collectContent found kind start size) fun _ text found' =>
      contentText found kind start size text found' := by
  unfold collectContent contentText
  rcases kind.toNat with _ | _ | _ | _
  · exact reads_skip_return data size _
  · refine ((reads_parseHeader data).bind fun header =>
      Reads.of_pure { found with header := some header }).congr fun position text found' _ => ?_
    constructor
    · rintro ⟨header, x, _, rfl, is, rfl, rfl⟩
      rw [List.append_nil]
      exact ⟨header, is, rfl⟩
    · rintro ⟨header, is, rfl⟩
      exact ⟨header, text, [], (List.append_nil _).symm, is, rfl, rfl⟩
  · exact reads_skip_return data size _
  · exact reads_skip_return data size _

theorem reads_skipRemaining (start size : Nat) :
    Reads data.bytes (stand data) (skipRemaining start size) fun position text _ =>
      start ≤ position ∧ text.length = size - (position - start) := by
  have rest (position : Nat) : Reads data.bytes (stand data)
      (if position - start < size then
        if position - start ≤ size then skip (size - (position - start)) else throw .invalidRemainingBytes
      else pure ()) fun _ text _ => text.length = size - (position - start) := by
    split
    · refine (reads_skip data (size - (position - start))).check.congr fun _ text _ _ => ?_
      exact and_iff_right (by omega)
    · refine (Reads.of_pure ()).congr fun _ text _ _ => ?_
      rw [show size - (position - start) = 0 by omega, List.length_eq_zero_iff]
      exact and_iff_left rfl
  refine (Reads.of_get.bind fun cursor : Cursor word => (rest cursor.position).check).congr fun position text _ _ => ?_
  constructor
  · rintro ⟨_, _, x, rfl, ⟨rfl, rfl⟩, order, length⟩
    exact ⟨order, length⟩
  · rintro ⟨order, length⟩
    exact ⟨_, [], text, rfl, ⟨rfl, rfl⟩, order, length⟩

private theorem skipped_iff {body : List UInt8} {size : Nat} {c : Prop} :
    body.length = size ∧ c ↔
      ∃ content left, body = content ++ left ∧ (content.length = size ∧ c) ∧ left.length = size - content.length := by
  constructor
  · rintro ⟨length, holds⟩
    exact ⟨body, [], (List.append_nil _).symm, ⟨length, holds⟩, by rw [length, Nat.sub_self]; rfl⟩
  · rintro ⟨content, left, rfl, ⟨length, holds⟩, rest⟩
    rw [List.length_append]
    exact ⟨by omega, holds⟩

/-- The body of a section: what the match on the type reads, and what is skipped after it. -/
theorem collects_iff {position : Nat} {found found' : Collected} {s : Section} :
    s.body.length = s.span ∧ Collects position found s found' ↔
      ∃ content left, s.body = content ++ left ∧
        contentText found s.kind (position + 12) s.size.toNat content found' ∧
        left.length = s.size.toNat - content.length := by
  unfold Section.span Collects contentText
  rcases s.kind.toNat with _ | _ | _ | _
  · exact skipped_iff
  · constructor
    · rintro ⟨length, header, ⟨content, left, body, is⟩, rfl⟩
      refine ⟨content, left, body, ⟨header, is, rfl⟩, ?_⟩
      rw [body, List.length_append, length_headerText is, if_pos rfl] at length
      rw [length_headerText is]
      omega
    · rintro ⟨content, left, body, ⟨header, is, rfl⟩, rest⟩
      refine ⟨?_, header, ⟨content, left, body, is⟩, rfl⟩
      rw [body, List.length_append, rest, length_headerText is, if_pos rfl]
      omega
  · exact skipped_iff
  · exact skipped_iff

theorem Section.size_le_span (s : Section) : s.size.toNat ≤ s.span := by
  unfold Section.span
  split <;> omega

theorem reads_collectSection (found : Collected) :
    Reads data.bytes (stand data) (collectSection found) fun position text found' =>
      ∃ s : Section, text = s.text ∧ s.body.length = s.span ∧ Collects position found s found' := by
  refine ((reads_readU32Le data).bind fun kind => (reads_readU64Le data).bind fun size =>
    Reads.of_get.bind fun cursor : Cursor word =>
      ((reads_collectContent data found kind cursor.position size.toNat).bind fun found' =>
        (reads_skipRemaining data cursor.position size.toNat).bind fun _ => Reads.of_pure found').check).congr
    fun position text found' lies => ?_
  constructor
  · rintro ⟨kind, _, _, rfl, rfl, size, _, _, rfl, rfl, _, _, _, rfl, ⟨rfl, rfl⟩, -, found', content, _, rfl, is, _,
      left, _, rfl, ⟨-, length⟩, rfl, rfl⟩
    refine ⟨⟨kind, size, content ++ left⟩, by rw [List.append_nil]; rfl, collects_iff.mpr ⟨content, left, rfl, ?_, ?_⟩⟩
    · simpa only [stand, length_toLeBytes] using is
    · simpa [stand] using length
  · rintro ⟨s, rfl, step⟩
    obtain ⟨content, left, body, is, length⟩ := collects_iff.mp step
    have fits : s.size.toNat < 2 ^ word := by
      have inside := lies.le
      have declared := s.size_le_span
      have addressable := data.addressable
      simp only [Section.text, List.length_append, length_toLeBytes, step.1] at inside
      omega
    refine ⟨s.kind, _, _, rfl, rfl, s.size, _, s.body, rfl, rfl, _, [], s.body, rfl, ⟨rfl, rfl⟩, fits, found', content,
      left, body, ?_, (), left, [], (List.append_nil _).symm, ⟨?_, ?_⟩, rfl, rfl⟩
    · simpa only [stand, length_toLeBytes] using is
    · exact Nat.le_add_right _ _
    · simpa [stand] using length

def lastOf (kind : Nat) : List Section → Option (Nat × Section)
  | [] => none
  | s :: secs =>
    match lastOf kind secs with
    | some (offset, t) => some (s.text.length + offset, t)
    | none => if s.kind.toNat = kind then some (0, s) else none

theorem lastOf_eq_none {kind : Nat} {secs : List Section} :
    lastOf kind secs = none ↔ ∀ s ∈ secs, s.kind.toNat ≠ kind := by
  induction secs with
  | nil => simp [lastOf]
  | cons s secs ih =>
    rw [lastOf, List.forall_mem_cons, ← ih]
    cases lastOf kind secs with
    | some place => simp
    | none => simp

theorem lastOf_eq_some {kind offset : Nat} {secs : List Section} {s : Section}
    (last : lastOf kind secs = some (offset, s)) : s.kind.toNat = kind ∧ ∃ before after,
      secs = before ++ s :: after ∧ offset = (before.flatMap Section.text).length := by
  induction secs generalizing offset with
  | nil => cases last
  | cons t secs ih =>
    rw [lastOf] at last
    cases later : lastOf kind secs with
    | some place =>
      rw [later] at last
      obtain ⟨offset', s'⟩ := place
      cases last
      obtain ⟨is, before, after, rfl, rfl⟩ := ih later
      exact ⟨is, t :: before, after, rfl, by rw [List.flatMap_cons, List.length_append]⟩
    | none =>
      simp only [later] at last
      split at last
      · cases last
        exact ⟨‹_›, [], secs, rfl, rfl⟩
      · cases last

structure Walks (position : Nat) (found : Collected) (secs : List Section) (found' : Collected) : Prop where
  headers : ∀ s ∈ secs, s.kind.toNat = 1 → ∃ header, Begins headerText s.body header
  header : match lastOf 1 secs with
    | some (_, s) => ∃ header, Begins headerText s.body header ∧ found'.header = some header
    | none => found'.header = found.header
  constraintsData : found'.constraintsData = match lastOf 2 secs with
    | some (offset, s) => some (position + offset + 12, s.size.toNat)
    | none => found.constraintsData

theorem walks_nil {position : Nat} {found found' : Collected} : Walks position found [] found' ↔ found' = found := by
  constructor
  · rintro ⟨-, header, constraintsData⟩
    cases found
    cases found'
    exact congrArg₂ Collected.mk header constraintsData
  · rintro rfl
    exact ⟨fun s member => (List.not_mem_nil member).elim, rfl, rfl⟩

/-- A turn of the first pass, by the fields of what it finds. -/
theorem collects_fields {position : Nat} {found mid : Collected} {s : Section} :
    Collects position found s mid ↔
      (if s.kind.toNat = 1 then ∃ header, Begins headerText s.body header ∧ mid.header = some header
        else mid.header = found.header) ∧
      mid.constraintsData =
        if s.kind.toNat = 2 then some (position + 12, s.size.toNat) else found.constraintsData := by
  have same {c : Collected} : mid = c ↔ mid.header = c.header ∧ mid.constraintsData = c.constraintsData := by
    cases mid
    cases c
    exact Collected.mk.injEq _ _ _ _ ▸ Iff.rfl
  unfold Collects
  rcases s.kind.toNat with _ | _ | _ | _
  · exact same
  · simp only [zero_add, ↓reduceIte, same, OfNat.one_ne_ofNat]
    constructor
    · rintro ⟨header, begins, set, kept⟩
      exact ⟨⟨header, begins, set⟩, kept⟩
    · rintro ⟨⟨header, begins, set⟩, kept⟩
      exact ⟨header, begins, set, kept⟩
  · exact same
  · simpa using same

theorem walks_cons {position : Nat} {found found' : Collected} {s : Section} {secs : List Section} :
    Walks position found (s :: secs) found' ↔
      ∃ mid, Collects position found s mid ∧ Walks (position + s.text.length) mid secs found' := by
  simp only [collects_fields]
  constructor
  · rintro ⟨headers, header, constraintsData⟩
    obtain ⟨here, later⟩ := List.forall_mem_cons.mp headers
    -- the header of this section, which is the one found if no later section has one
    obtain ⟨first, isFirst, kept⟩ : ∃ first : Option R1CSHeader,
        (if s.kind.toNat = 1 then ∃ header, Begins headerText s.body header ∧ first = some header
          else first = found.header) ∧ (lastOf 1 secs = none → found'.header = first) := by
      rw [lastOf] at header
      cases last : lastOf 1 secs with
      | some place =>
        by_cases kind : s.kind.toNat = 1
        · obtain ⟨header, begins⟩ := here kind
          exact ⟨some header, by rw [if_pos kind]; exact ⟨header, begins, rfl⟩, by simp⟩
        · exact ⟨found.header, by rw [if_neg kind], by simp⟩
      | none =>
        rw [last] at header
        by_cases kind : s.kind.toNat = 1
        · simp only [if_pos kind] at header ⊢
          obtain ⟨header, begins, set⟩ := header
          exact ⟨some header, ⟨header, begins, rfl⟩, fun _ => set⟩
        · simp only [if_neg kind] at header ⊢
          exact ⟨found.header, rfl, fun _ => header⟩
    refine ⟨⟨first, if s.kind.toNat = 2 then some (position + 12, s.size.toNat) else found.constraintsData⟩,
      ⟨isFirst, rfl⟩, later, ?_, ?_⟩
    · rw [lastOf] at header
      cases last : lastOf 1 secs with
      | some place => rw [last] at header; exact header
      | none => exact kept last
    · rw [constraintsData, lastOf]
      cases lastOf 2 secs with
      | some place => simp only [Nat.add_assoc]
      | none =>
        by_cases kind : s.kind.toNat = 2
        · simp only [if_pos kind, Nat.add_zero]
        · simp only [if_neg kind]
  · rintro ⟨mid, ⟨isMid, placed⟩, headers, header, constraintsData⟩
    refine ⟨List.forall_mem_cons.mpr ⟨fun kind => ?_, headers⟩, ?_, ?_⟩
    · rw [if_pos kind] at isMid
      obtain ⟨header, begins, -⟩ := isMid
      exact ⟨header, begins⟩
    · rw [lastOf]
      cases last : lastOf 1 secs with
      | some place => rw [last] at header; exact header
      | none =>
        rw [last] at header
        by_cases kind : s.kind.toNat = 1
        · simp only [if_pos kind] at isMid ⊢
          rwa [header]
        · simp only [if_neg kind] at isMid ⊢
          rwa [header]
    · rw [constraintsData, lastOf]
      cases lastOf 2 secs with
      | some place => simp only [Nat.add_assoc]
      | none =>
        simp only [placed]
        split <;> rfl

theorem reads_collectSections (n : Nat) (found : Collected) :
    Reads data.bytes (stand data) (collectSections n found) fun position text found' =>
      ∃ secs : List Section, secs.length = n ∧ text = secs.flatMap Section.text ∧
        (∀ s ∈ secs, s.body.length = s.span) ∧ Walks position found secs found' := by
  induction n generalizing found with
  | zero =>
    refine (Reads.of_pure found).congr fun position text found' _ => ?_
    constructor
    · rintro ⟨rfl, rfl⟩
      exact ⟨[], rfl, rfl, by simp, walks_nil.mpr rfl⟩
    · rintro ⟨secs, none, rfl, -, walks⟩
      rw [List.length_eq_zero_iff.mp none] at walks ⊢
      exact ⟨rfl, walks_nil.mp walks⟩
  | succ n ih =>
    refine ((reads_collectSection data found).bind fun mid => ih mid).congr fun position text found' _ => ?_
    constructor
    · rintro ⟨mid, _, _, rfl, ⟨s, rfl, length, step⟩, secs, rfl, rfl, lengths, walks⟩
      exact ⟨s :: secs, rfl, rfl, List.forall_mem_cons.mpr ⟨length, lengths⟩, walks_cons.mpr ⟨mid, step, walks⟩⟩
    · rintro ⟨secs, count, rfl, lengths, walks⟩
      cases secs with
      | nil => cases count
      | cons s secs =>
        obtain ⟨mid, step, walks⟩ := walks_cons.mp walks
        obtain ⟨length, lengths⟩ := List.forall_mem_cons.mp lengths
        exact ⟨mid, _, _, rfl, ⟨s, rfl, length, step⟩, secs, Nat.succ.inj count, rfl, lengths, walks⟩

/-- The bytes of a file: its start, the sections and what follows them. -/
def Laid (bytes : List UInt8) (secs : List Section) (rest : List UInt8) : Prop :=
  secs.length < 2 ^ 32 ∧
    bytes = magicNumber ++ (toLeBytes 4 1 ++ (toLeBytes 4 secs.length ++ secs.flatMap Section.text)) ++ rest

theorem reads_firstPass :
    Reads data.bytes (stand data) firstPass fun position text found => ∃ secs : List Section,
      secs.length < 2 ^ 32 ∧
      text = magicNumber ++ (toLeBytes 4 1 ++ (toLeBytes 4 secs.length ++ secs.flatMap Section.text)) ∧
      (∀ s ∈ secs, s.body.length = s.span) ∧ Walks (position + 12) ⟨none, none⟩ secs found := by
  refine ((reads_readBytes data 4).bind fun magic => ((reads_readU32Le data).bind fun version =>
    ((reads_readU32Le data).bind fun numSections =>
      reads_collectSections data numSections.toNat ⟨none, none⟩).check).check).congr fun position text found _ => ?_
  constructor
  · rintro ⟨magic, _, _, rfl, ⟨length, rfl⟩, rfl, version, _, _, rfl, rfl, rfl, numSections, _, _, rfl,
      rfl, secs, count,
      rfl, lengths, walks⟩
    rw [length_toLeBytes, length_toLeBytes, length] at walks
    exact ⟨secs, by rw [count]; exact numSections.isLt, by rw [count]; rfl, lengths, walks⟩
  · rintro ⟨secs, bound, rfl, lengths, walks⟩
    have count : (BitVec.ofNat 32 secs.length).toNat = secs.length := by
      rw [BitVec.toNat_ofNat, Nat.mod_eq_of_lt bound]
    refine ⟨magicNumber, magicNumber, _, rfl, ⟨rfl, rfl⟩, rfl, 1, _, _, rfl, rfl, rfl, BitVec.ofNat 32 secs.length, _,
      secs.flatMap Section.text, rfl, congrArg (toLeBytes 4) count.symm, secs, count.symm, rfl, lengths, ?_⟩
    rw [length_toLeBytes, length_toLeBytes]
    exact walks

def R1CSHeader.r1cs (header : R1CSHeader) (constraints : List Constraint) : R1CS where
  numWires := header.numWires
  numPubOut := header.numPubOut
  numPubIn := header.numPubIn
  numPrvIn := header.numPrvIn
  numPublic := header.numPubOut + header.numPubIn
  constraints := constraints

theorem finish_iff {header : R1CSHeader} {constraints : List Constraint} {r : R1CS} {s s' : Cursor word} :
    (finish header constraints).run s = .ok (r, s') ↔
      header.numPubOut.toNat + header.numPubIn.toNat < 2 ^ 32 ∧ r = header.r1cs constraints ∧ s' = s := by
  unfold finish checkedAdd
  by_cases fits : header.numPubOut.toNat + header.numPubIn.toNat < 2 ^ 32
  · rw [if_pos fits]
    constructor
    · intro run
      cases run
      exact ⟨fits, rfl, rfl⟩
    · rintro ⟨-, rfl, rfl⟩
      rfl
  · rw [if_neg fits]
    constructor
    · intro run
      cases run
    · rintro ⟨below, -⟩
      exact absurd below fits

/-- The constraints stand where they start, if they start somewhere; no section for them means none. -/
def ConstraintsAt (bytes : List UInt8) (n : Nat) (constraints : List Constraint) : Option Nat → Prop
  | some start => ∃ text, constraintsText n text constraints ∧ Lies bytes start text
  | none => constraints = []

/-- The second pass finds the constraints where they start, whatever size is declared. -/
theorem readConstraints_iff {header : R1CSHeader} (size : header.fieldSize = 32) {place : Option (Nat × Nat)}
    (within : ∀ start size, place = some (start, size) → start ≤ data.bytes.length) {position : Nat}
    {constraints : List Constraint} :
    (∃ s, (readConstraints header place).run (stand data position) = .ok (constraints, s)) ↔
      ConstraintsAt data.bytes header.numConstraints.toNat constraints (place.map Prod.fst) := by
  cases place with
  | none =>
    constructor
    · rintro ⟨s, run⟩
      cases run
      rfl
    · rintro rfl
      exact ⟨_, rfl⟩
  | some place =>
    obtain ⟨start, declared⟩ := place
    have reads := reads_parseConstraints data size start (within start declared rfl) constraints
    change (∃ s, (parseConstraints header).run (stand data start) = .ok (constraints, s)) ↔ _
    simp only [reads]
    constructor
    · rintro ⟨s, text, is, lies, -⟩
      exact ⟨text, is, lies⟩
    · rintro ⟨text, is, lies⟩
      exact ⟨_, text, is, lies, rfl⟩

/-- A file in sections where a header stands with all its fields whatever size it declares, and where the
constraints of the last header stand from the start of their last section on, wherever they end. -/
structure Sectioned (bytes : List UInt8) (secs : List Section) (rest : List UInt8) (header : R1CSHeader)
    (constraints : List Constraint) : Prop where
  laid : Laid bytes secs rest
  spans : ∀ s ∈ secs, s.body.length = s.span
  headers : ∀ s ∈ secs, s.kind.toNat = 1 → ∃ header, Begins headerText s.body header
  last : ∃ offset s, lastOf 1 secs = some (offset, s) ∧ Begins headerText s.body header
  constraints : ConstraintsAt bytes header.numConstraints.toNat constraints
    ((lastOf 2 secs).map fun last => 24 + last.1)
  publics : header.numPubOut.toNat + header.numPubIn.toNat < 2 ^ 32

theorem Laid.lies_body {bytes rest : List UInt8} {secs : List Section} (laid : Laid bytes secs rest)
    {kind offset : Nat} {s : Section} (last : lastOf kind secs = some (offset, s)) :
    Lies bytes (24 + offset) s.body := by
  obtain ⟨-, before, after, rfl, rfl⟩ := lastOf_eq_some last
  refine ⟨magicNumber ++ toLeBytes 4 1 ++ toLeBytes 4 (before ++ s :: after).length ++ before.flatMap Section.text ++
    toLeBytes 4 s.kind.toNat ++ toLeBytes 8 s.size.toNat, after.flatMap Section.text ++ rest, ?_, ?_⟩
  · rw [laid.2, List.flatMap_append, List.flatMap_cons, Section.text]
    simp only [List.append_assoc]
  · simp only [List.length_append, length_toLeBytes, magicNumber, List.length_cons, List.length_nil]
    omega

theorem lies_start {tape text : List UInt8} : Lies tape 0 text ↔ ∃ rest, tape = text ++ rest := by
  constructor
  · rintro ⟨before, rest, rfl, none⟩
    rw [List.length_eq_zero_iff.mp none]
    exact ⟨rest, rfl⟩
  · rintro ⟨rest, rfl⟩
    exact ⟨[], rest, rfl, rfl⟩

theorem firstPass_iff {found : Collected} {s : Cursor word} :
    firstPass.run (stand data 0) = .ok (found, s) ↔ ∃ secs rest, Laid data.bytes secs rest ∧
      (∀ s ∈ secs, s.body.length = s.span) ∧ Walks 12 ⟨none, none⟩ secs found ∧
      s = stand data (data.bytes.length - rest.length) := by
  rw [reads_firstPass data 0 (Nat.zero_le _) found s]
  constructor
  · rintro ⟨text, ⟨secs, bound, rfl, spans, walks⟩, lies, rfl⟩
    obtain ⟨rest, laid⟩ := lies_start.mp lies
    have length := congrArg List.length laid
    rw [List.length_append] at length
    exact ⟨secs, rest, ⟨bound, laid⟩, spans, walks, congrArg (stand data) (by omega)⟩
  · rintro ⟨secs, rest, ⟨bound, laid⟩, spans, walks, rfl⟩
    have length := congrArg List.length laid
    rw [List.length_append] at length
    exact ⟨_, ⟨secs, bound, rfl, spans, walks⟩, lies_start.mpr ⟨rest, laid⟩, congrArg (stand data) (by omega)⟩

theorem parseFound_iff {found : Collected} {s : Cursor word} {r : R1CS} :
    (∃ s', (parseFound found).run s = .ok (r, s')) ↔ ∃ header, found.header = some header ∧ ∃ constraints,
      (∃ s', (readConstraints header found.constraintsData).run s = .ok (constraints, s')) ∧
      header.numPubOut.toNat + header.numPubIn.toNat < 2 ^ 32 ∧ r = header.r1cs constraints := by
  unfold parseFound
  cases found.header with
  | none =>
    constructor
    · rintro ⟨s', run⟩
      cases run
    · rintro ⟨header, none, -⟩
      cases none
  | some header =>
    constructor
    · rintro ⟨s', run⟩
      obtain ⟨constraints, s'', first, second⟩ := run_bind_iff.mp run
      obtain ⟨publics, answer, -⟩ := finish_iff.mp second
      exact ⟨header, rfl, constraints, ⟨s'', first⟩, publics, answer⟩
    · rintro ⟨header, same, constraints, ⟨s'', first⟩, publics, answer⟩
      cases same
      exact ⟨s'', run_bind_iff.mpr ⟨constraints, s'', first, finish_iff.mpr ⟨publics, answer, rfl⟩⟩⟩

/-- What the parser accepts, and what it answers. -/
theorem parse_iff {r : R1CS} : R1CS.parse data = .ok r ↔ ∃ secs rest header constraints,
    Sectioned data.bytes secs rest header constraints ∧ r = header.r1cs constraints := by
  have passes : R1CS.parse data = .ok r ↔ ∃ found s, firstPass.run (stand data 0) = .ok (found, s) ∧
      ∃ s', (parseFound found).run s = .ok (r, s') := by
    change (parseData.run' (stand data 0)) = _ ↔ _
    rw [run'_iff]
    constructor
    · rintro ⟨s', run⟩
      obtain ⟨found, s, first, second⟩ := run_bind_iff.mp run
      exact ⟨found, s, first, s', second⟩
    · rintro ⟨found, s, first, s', second⟩
      exact ⟨s', run_bind_iff.mpr ⟨found, s, first, second⟩⟩
  -- where the second pass starts, once the sections are laid out
  have second {secs : List Section} {rest : List UInt8} {found : Collected} {header : R1CSHeader}
      (laid : Laid data.bytes secs rest) (walks : Walks 12 ⟨none, none⟩ secs found)
      (size : header.fieldSize = 32) {position : Nat} {constraints : List Constraint} :
      (∃ s, (readConstraints header found.constraintsData).run (stand data position) = .ok (constraints, s)) ↔
        ConstraintsAt data.bytes header.numConstraints.toNat constraints
          ((lastOf 2 secs).map fun last => 24 + last.1) := by
    have place : found.constraintsData.map Prod.fst = (lastOf 2 secs).map fun last => 24 + last.1 := by
      rw [walks.constraintsData]
      cases lastOf 2 secs with
      | none => rfl
      | some last => exact congrArg some (show 12 + last.1 + 12 = 24 + last.1 by omega)
    rw [← place]
    apply readConstraints_iff data size
    intro start declared starts
    cases last : lastOf 2 secs with
    | none =>
      rw [last, starts] at place
      cases place
    | some last' =>
      rw [last, starts] at place
      cases place
      exact le_trans (Nat.le_add_right _ _) (laid.lies_body last).le
  rw [passes]
  constructor
  · rintro ⟨found, s, first, rest'⟩
    obtain ⟨secs, rest, laid, spans, walks, rfl⟩ := (firstPass_iff data).mp first
    obtain ⟨header, set, constraints, read, publics, rfl⟩ := parseFound_iff.mp rest'
    have isLast := walks.header
    cases last : lastOf 1 secs with
    | none =>
      rw [last, set] at isLast
      cases isLast
    | some place =>
      rw [last, set] at isLast
      obtain ⟨header', begins, same⟩ := isLast
      cases same
      obtain ⟨x, y, split, is⟩ := id begins
      exact ⟨secs, rest, header, constraints, ⟨laid, spans, walks.headers, ⟨_, _, last, begins⟩,
        (second laid walks is.1).mp read, publics⟩, rfl⟩
  · rintro ⟨secs, rest, header, constraints, sectioned, rfl⟩
    obtain ⟨offset, s, last, begins⟩ := sectioned.last
    obtain ⟨x, y, split, is⟩ := id begins
    have walks : Walks 12 ⟨none, none⟩ secs ⟨some header, (lastOf 2 secs).map fun last =>
        (12 + last.1 + 12, last.2.size.toNat)⟩ := by
      refine ⟨sectioned.headers, ?_, ?_⟩
      · rw [last]
        exact ⟨header, begins, rfl⟩
      · cases lastOf 2 secs with
        | none => rfl
        | some last => rfl
    exact ⟨_, _, (firstPass_iff data).mpr ⟨secs, rest, sectioned.laid, sectioned.spans, walks, rfl⟩,
      parseFound_iff.mpr ⟨header, rfl, constraints, (second sectioned.laid walks is.1).mpr sectioned.constraints,
        sectioned.publics, rfl⟩⟩

end PrivatePayments.Prover
