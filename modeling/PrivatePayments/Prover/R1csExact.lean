import PrivatePayments.Prover.R1csSections

/-!
Constraint systems and their encodings in the section format, and when the parser answers a
byte string as the format says.
-/

namespace PrivatePayments.Prover
open Bn254 Library.LittleEndian Library.Reader

/-- A constraint system, whose numbers the format has room for: wire 0 is the constant 1, and the
outputs and inputs are among the other wires. -/
structure ConstraintSystem where
  numWires : BitVec 32
  numPubOut : BitVec 32
  numPubIn : BitVec 32
  numPrvIn : BitVec 32
  numLabels : BitVec 64
  constraints : List Constraint
  wires : 1 + numPubOut.toNat + numPubIn.toNat + numPrvIn.toNat ≤ numWires.toNat
  counted : constraints.length < 2 ^ 32
  terms : ∀ c ∈ constraints, c.a.terms.length < 2 ^ 32 ∧ c.b.terms.length < 2 ^ 32 ∧ c.c.terms.length < 2 ^ 32

section Encoding

def Term.encode (t : Term) : List UInt8 := toLeBytes 4 t.wireId.toNat ++ toLeBytes 32 t.coefficient.val

def LinearCombination.encode (lc : LinearCombination) : List UInt8 :=
  toLeBytes 4 lc.terms.length ++ (lc.terms.map Term.encode).flatten

def Constraint.encode (c : Constraint) : List UInt8 := c.a.encode ++ (c.b.encode ++ c.c.encode)

namespace ConstraintSystem

variable (sys : ConstraintSystem)

def r1cs : R1CS where
  numWires := sys.numWires
  numPubOut := sys.numPubOut
  numPubIn := sys.numPubIn
  numPrvIn := sys.numPrvIn
  numPublic := sys.numPubOut + sys.numPubIn
  constraints := sys.constraints

/-- The header section: the size of the field, its order and the counts. -/
def headerBytes : List UInt8 :=
  toLeBytes 4 32 ++ (toLeBytes 32 bn256Modulus ++ (toLeBytes 4 sys.numWires.toNat ++
    (toLeBytes 4 sys.numPubOut.toNat ++ (toLeBytes 4 sys.numPubIn.toNat ++
      (toLeBytes 4 sys.numPrvIn.toNat ++ (toLeBytes 8 sys.numLabels.toNat ++
        toLeBytes 4 sys.constraints.length))))))

def constraintsBytes : List UInt8 := (sys.constraints.map Constraint.encode).flatten

end ConstraintSystem

/-- A file for the system: sections in any order, each of its declared size, with one header section,
one constraints section and whatever wire maps and unknown sections. -/
structure Encodes (sys : ConstraintSystem) (bytes : List UInt8) (secs : List Section) : Prop where
  laid : Laid bytes secs []
  sizes : ∀ s ∈ secs, s.body.length = s.size.toNat
  header : (secs.filter fun s => s.kind.toNat = 1).map Section.body = [sys.headerBytes]
  constraints : (secs.filter fun s => s.kind.toNat = 2).map Section.body = [sys.constraintsBytes]

theorem termText_encode (t : Term) : termText t.encode t := by
  refine ⟨toLeBytes 32 t.coefficient.val, length_toLeBytes _ _, rfl, ?_⟩
  have small := ZMod.val_lt t.coefficient
  have bound := bn256Modulus_lt
  rw [fromLeBytes_toLeBytes (by omega), ZMod.natCast_zmod_val]

theorem forall₂_map {α β : Type} {g : β → α → Prop} {encode : α → β} {values : List α}
    (each : ∀ a ∈ values, g (encode a) a) : List.Forall₂ g (values.map encode) values := by
  induction values with
  | nil => exact .nil
  | cons a values ih =>
    obtain ⟨head, tail⟩ := List.forall_mem_cons.mp each
    exact .cons head (ih tail)

theorem combinationText_encode {lc : LinearCombination} (counted : lc.terms.length < 2 ^ 32) :
    combinationText lc.encode lc := by
  have length : (lc.terms.map Term.encode).length = lc.terms.length := List.length_map _
  refine ⟨lc.terms.map Term.encode, by rw [length]; exact counted, by rw [length]; rfl, ?_⟩
  exact forall₂_map fun t _ => termText_encode t

theorem constraintsText_encode (sys : ConstraintSystem) :
    constraintsText sys.constraints.length sys.constraintsBytes sys.constraints := by
  refine ⟨_, List.length_map _, rfl, forall₂_map fun c member => ?_⟩
  obtain ⟨a, b, c'⟩ := sys.terms c member
  exact ⟨_, _, _, rfl, combinationText_encode a, combinationText_encode b, combinationText_encode c'⟩

def ConstraintSystem.header (sys : ConstraintSystem) : R1CSHeader where
  fieldSize := 32
  numWires := sys.numWires
  numPubOut := sys.numPubOut
  numPubIn := sys.numPubIn
  numPrvIn := sys.numPrvIn
  numConstraints := BitVec.ofNat 32 sys.constraints.length

theorem headerText_headerBytes (sys : ConstraintSystem) : headerText sys.headerBytes sys.header := by
  refine ⟨rfl, toLeBytes 32 bn256Modulus, sys.numLabels, length_toLeBytes _ _, ?_⟩
  have count : sys.header.numConstraints.toNat = sys.constraints.length := by
    rw [ConstraintSystem.header, BitVec.toNat_ofNat, Nat.mod_eq_of_lt sys.counted]
  rw [count]
  rfl

theorem lastOf_of_filter {kind : Nat} {secs : List Section} {body : List UInt8}
    (only : (secs.filter fun s => s.kind.toNat = kind).map Section.body = [body]) :
    (∃ offset s, lastOf kind secs = some (offset, s) ∧ s.body = body) ∧
      ∀ s ∈ secs, s.kind.toNat = kind → s.body = body := by
  have all : ∀ s ∈ secs, s.kind.toNat = kind → s.body = body := by
    intro s member is
    have kept : s.body ∈ (secs.filter fun s => s.kind.toNat = kind).map Section.body :=
      List.mem_map_of_mem (List.mem_filter.mpr ⟨member, decide_eq_true is⟩)
    rw [only] at kept
    exact List.mem_singleton.mp kept
  refine ⟨?_, all⟩
  cases last : lastOf kind secs with
  | none =>
    have empty : secs.filter (fun s => s.kind.toNat = kind) = [] :=
      List.filter_eq_nil_iff.mpr fun s member => by simpa using lastOf_eq_none.mp last s member
    rw [empty] at only
    cases only
  | some place =>
    obtain ⟨is, before, after, rfl, -⟩ := lastOf_eq_some last
    exact ⟨_, _, rfl, all place.2 (by simp) is⟩

theorem Encodes.sectioned {sys : ConstraintSystem} {bytes : List UInt8} {secs : List Section}
    (encodes : Encodes sys bytes secs) : Sectioned bytes secs [] sys.header sys.constraints := by
  obtain ⟨⟨offset, s, last, body⟩, headers⟩ := lastOf_of_filter encodes.header
  obtain ⟨⟨offset', s', last', body'⟩, -⟩ := lastOf_of_filter encodes.constraints
  have begins {s : Section} (body : s.body = sys.headerBytes) : Begins headerText s.body sys.header :=
    ⟨sys.headerBytes, [], by rw [body, List.append_nil], headerText_headerBytes sys⟩
  refine ⟨encodes.laid, ?_, fun s member is => ⟨_, begins (headers s member is)⟩,
    ⟨offset, s, last, begins body⟩, ?_, ?_⟩
  · intro s member
    have declared := encodes.sizes s member
    unfold Section.span
    split
    · have length := length_headerText (headerText_headerBytes sys)
      rw [← headers s member ‹_›] at length
      omega
    · exact declared
  · rw [last', Option.map_some]
    refine ⟨sys.constraintsBytes, ?_, ?_⟩
    · have count : sys.header.numConstraints.toNat = sys.constraints.length := by
        rw [ConstraintSystem.header, BitVec.toNat_ofNat, Nat.mod_eq_of_lt sys.counted]
      rw [count]
      exact constraintsText_encode sys
    · rw [← body']
      exact encodes.laid.lies_body last'
  · have wires := sys.wires
    have bound := sys.numWires.isLt
    change sys.numPubOut.toNat + sys.numPubIn.toNat < 2 ^ 32
    omega

end Encoding

section Exactness

/-- A file whose header and constraints sections hold their contents within their declared sizes. -/
structure Fits (bytes : List UInt8) (secs : List Section) (rest : List UInt8) : Prop where
  laid : Laid bytes secs rest
  sizes : ∀ s ∈ secs, s.body.length = s.size.toNat
  headers : ∀ s ∈ secs, s.kind.toNat = 1 → 64 ≤ s.body.length
  constraints : ∀ offset t header, lastOf 1 secs = some (offset, t) → Begins headerText t.body header →
    ∀ s ∈ secs, s.kind.toNat = 2 →
      ∃ constraints, Begins (constraintsText header.numConstraints.toNat) s.body constraints

variable {word : Nat}

/-- The parser answers the byte string as the format says: an encoding with the system it encodes, and
one that ends early or whose contents do not fit with an error. -/
def ParsesExactly (data : Slice word) : Prop :=
  (∀ sys secs, Encodes sys data.bytes secs → R1CS.parse data = .ok sys.r1cs) ∧
    ((¬ ∃ secs rest, Fits data.bytes secs rest) → ∃ e, R1CS.parse data = .error e)

/-- A file in sections that goes on behind a content that leaves its section: a header in a section declared
too small for it, or constraints that do not fit in the size declared for them. -/
def Overruns (bytes : List UInt8) : Prop :=
  ∃ secs rest header constraints, Sectioned bytes secs rest header constraints ∧
    ((∃ s ∈ secs, s.kind.toNat = 1 ∧ s.size.toNat < 64) ∨
      ∃ s ∈ secs, s.kind.toNat = 2 ∧
        ¬ ∃ constraints, Begins (constraintsText header.numConstraints.toNat) s.body constraints)

theorem toLeBytes_toNat_inj {width bits : Nat} (room : 2 ^ bits ≤ 256 ^ width) {v v' : BitVec bits}
    (same : toLeBytes width v.toNat = toLeBytes width v'.toNat) : v = v' := by
  apply BitVec.eq_of_toNat_eq
  rw [← fromLeBytes_toLeBytes (lt_of_lt_of_le v.isLt room), same, fromLeBytes_toLeBytes (lt_of_lt_of_le v'.isLt room)]

theorem sections_unique {secs secs' : List Section} {rest rest' : List UInt8} (count : secs.length = secs'.length)
    (spans : ∀ s ∈ secs, s.body.length = s.span) (spans' : ∀ s ∈ secs', s.body.length = s.span)
    (same : secs.flatMap Section.text ++ rest = secs'.flatMap Section.text ++ rest') : secs = secs' := by
  induction secs generalizing secs' with
  | nil => exact (List.length_eq_zero_iff.mp count.symm).symm
  | cons s secs ih =>
    cases secs' with
    | nil => cases count
    | cons s' secs' =>
      obtain ⟨span, spans⟩ := List.forall_mem_cons.mp spans
      obtain ⟨span', spans'⟩ := List.forall_mem_cons.mp spans'
      simp only [List.flatMap_cons, Section.text, List.append_assoc] at same
      obtain ⟨kinds, same⟩ := List.append_inj same (by rw [length_toLeBytes, length_toLeBytes])
      obtain ⟨sizes, same⟩ := List.append_inj same (by rw [length_toLeBytes, length_toLeBytes])
      have kind := toLeBytes_toNat_inj (by decide) kinds
      have size := toLeBytes_toNat_inj (by decide) sizes
      have length : s.body.length = s'.body.length := by
        rw [span, span', Section.span, Section.span, kind, size]
      obtain ⟨body, same⟩ := List.append_inj same length
      have head : s = s' := by
        cases s
        cases s'
        exact (Section.mk.injEq ..).mpr ⟨kind, size, body⟩
      rw [head, ih (Nat.succ.inj count) spans spans' same]

theorem Laid.unique {bytes rest rest' : List UInt8} {secs secs' : List Section} (laid : Laid bytes secs rest)
    (laid' : Laid bytes secs' rest') (spans : ∀ s ∈ secs, s.body.length = s.span)
    (spans' : ∀ s ∈ secs', s.body.length = s.span) : secs = secs' := by
  have same := laid.2.symm.trans laid'.2
  simp only [List.append_assoc] at same
  obtain ⟨counts, same⟩ := List.append_inj (List.append_cancel_left (List.append_cancel_left same))
    (by rw [length_toLeBytes, length_toLeBytes])
  have count : secs.length = secs'.length := by
    have bound := laid.1
    have bound' := laid'.1
    have small : secs.length < 256 ^ 4 := bound
    have small' : secs'.length < 256 ^ 4 := bound'
    rw [← fromLeBytes_toLeBytes small, counts, fromLeBytes_toLeBytes small']
  exact sections_unique count spans spans' same

theorem begins_headerText_unique {body : List UInt8} {header header' : R1CSHeader}
    (begins : Begins headerText body header) (begins' : Begins headerText body header') : header = header' := by
  obtain ⟨x, y, split, is⟩ := begins
  obtain ⟨x', y', split', is'⟩ := begins'
  let data : Slice body.length := ⟨body, Nat.lt_two_pow_self⟩
  exact ((reads_parseHeader data).unique (stand_injective data) is (lies_start.mpr ⟨y, split⟩) is'
    (lies_start.mpr ⟨y', split'⟩)).2

theorem Fits.spans {bytes rest : List UInt8} {secs : List Section} (fits : Fits bytes secs rest) :
    ∀ s ∈ secs, s.body.length = s.span := by
  intro s member
  have declared := fits.sizes s member
  unfold Section.span
  split
  · have room := fits.headers s member ‹_›
    omega
  · exact declared

theorem not_exact_of_overruns {data : Slice word} (overruns : Overruns data.bytes) : ¬ ParsesExactly data := by
  obtain ⟨secs, rest, header, constraints, sectioned, out⟩ := overruns
  intro exact
  have answered := (parse_iff data).mpr ⟨secs, rest, header, constraints, sectioned, rfl⟩
  obtain ⟨e, rejected⟩ := exact.2 (by
    rintro ⟨secs', rest', fits⟩
    obtain rfl := sectioned.laid.unique fits.laid sectioned.spans fits.spans
    obtain ⟨offset, t, last, begins⟩ := sectioned.last
    rcases out with ⟨s, member, kind, small⟩ | ⟨s, member, kind, out⟩
    · have room := fits.headers s member kind
      have declared := fits.sizes s member
      omega
    · exact out (fits.constraints offset t header last begins s member kind))
  rw [answered] at rejected
  cases rejected

theorem exact_of_not_overruns {data : Slice word} (inside : ¬ Overruns data.bytes) : ParsesExactly data := by
  constructor
  · intro sys secs encodes
    exact (parse_iff data).mpr ⟨secs, [], sys.header, sys.constraints, encodes.sectioned, rfl⟩
  · intro misfit
    cases answered : R1CS.parse data with
    | error e => exact ⟨e, rfl⟩
    | ok r =>
      obtain ⟨secs, rest, header, constraints, sectioned, -⟩ := (parse_iff data).mp answered
      have roomy : ∀ s ∈ secs, s.kind.toNat = 1 → 64 ≤ s.size.toNat := by
        intro s member kind
        by_contra small
        exact inside ⟨secs, rest, header, constraints, sectioned, .inl ⟨s, member, kind, by omega⟩⟩
      have sizes : ∀ s ∈ secs, s.body.length = s.size.toNat := by
        intro s member
        rw [sectioned.spans s member, Section.span]
        split
        · exact max_eq_right (roomy s member ‹_›)
        · rfl
      refine absurd ⟨secs, rest, sectioned.laid, sizes, ?_, ?_⟩ misfit
      · intro s member kind
        rw [sizes s member]
        exact roomy s member kind
      · intro offset t header' last begins s member kind
        obtain ⟨offset', t', last', begins'⟩ := sectioned.last
        rw [last] at last'
        cases last'
        rw [begins_headerText_unique begins begins']
        by_contra out
        exact inside ⟨secs, rest, header, constraints, sectioned, .inr ⟨s, member, kind, out⟩⟩

theorem constraintsText_positive {n : Nat} {text : List UInt8} {constraints : List Constraint}
    (is : constraintsText (n + 1) text constraints) : 4 ≤ text.length := by
  obtain ⟨parts, count, rfl, all⟩ := is
  cases all with
  | nil => cases count
  | cons first _ =>
    obtain ⟨x, y, z, rfl, ⟨terms, -, rfl, -⟩, -⟩ := first
    simp only [List.flatten_cons, List.length_append, length_toLeBytes]
    omega

/-- A header section of one wire and one constraint, a section for constraints that is declared empty, and a
section of an unknown type. -/
def borrowedSections : List Section :=
  [⟨1, 64, toLeBytes 4 32 ++ (toLeBytes 32 bn256Modulus ++ (toLeBytes 4 1 ++ (toLeBytes 4 0 ++ (toLeBytes 4 0 ++
      (toLeBytes 4 0 ++ (toLeBytes 8 1 ++ toLeBytes 4 1))))))⟩, ⟨2, 0, []⟩, ⟨0, 0, []⟩]

def borrowedConstraint : Slice 32 where
  bytes := magicNumber ++ (toLeBytes 4 1 ++ (toLeBytes 4 3 ++ borrowedSections.flatMap Section.text))
  addressable := by decide +kernel

theorem overruns_borrowedConstraint : Overruns borrowedConstraint.bytes := by
  have header : headerText (borrowedSections.flatMap Section.body) ⟨32, 1, 0, 0, 0, 1⟩ :=
    ⟨rfl, toLeBytes 32 bn256Modulus, 1, length_toLeBytes _ _, by decide +kernel⟩
  have begins : Begins headerText (borrowedSections.flatMap Section.body) ⟨32, 1, 0, 0, 0, 1⟩ :=
    ⟨_, [], (List.append_nil _).symm, header⟩
  have combination : combinationText [0, 0, 0, 0] ⟨[]⟩ := ⟨[], by decide, rfl, .nil⟩
  refine ⟨borrowedSections, [], ⟨32, 1, 0, 0, 0, 1⟩, [⟨⟨[]⟩, ⟨[]⟩, ⟨[]⟩⟩],
    ⟨⟨by decide, ?_⟩, by decide +kernel, ?_, ?_, ?_,
    by decide⟩, .inr ⟨⟨2, 0, []⟩, by simp [borrowedSections], rfl, ?_⟩⟩
  · rw [List.append_nil]
    rfl
  · intro s member kind
    simp only [borrowedSections, List.mem_cons, List.not_mem_nil, or_false] at member
    rcases member with rfl | rfl | rfl
    · exact ⟨_, begins⟩
    · cases kind
    · cases kind
  · exact ⟨_, _, rfl, begins⟩
  · refine ⟨List.replicate 12 0, ⟨[List.replicate 12 0], rfl, rfl, .cons ?_ .nil⟩, ?_⟩
    · exact ⟨_, _, _, rfl, combination, combination, combination⟩
    · exact ⟨borrowedConstraint.bytes.take 100, [], by decide +kernel, by decide +kernel⟩
  · rintro ⟨constraints, x, y, split, is⟩
    have positive := constraintsText_positive is
    have empty := (List.append_eq_nil_iff.mp split.symm).1
    rw [empty] at positive
    cases positive

/-- The parser takes the twelve zero bytes of the unknown section for a constraint. -/
theorem section_overrun_accepted : R1CS.parse borrowedConstraint = .ok ⟨1, 0, 0, 0, 0, [⟨⟨[]⟩, ⟨[]⟩, ⟨[]⟩⟩]⟩ ∧
    ¬ ParsesExactly borrowedConstraint :=
  ⟨by decide +kernel, not_exact_of_overruns overruns_borrowedConstraint⟩

theorem r1cs_parsing_exact_iff (data : Slice word) : ParsesExactly data ↔ ¬ Overruns data.bytes :=
  ⟨fun exact overruns => not_exact_of_overruns overruns exact, exact_of_not_overruns⟩

end Exactness

end PrivatePayments.Prover
