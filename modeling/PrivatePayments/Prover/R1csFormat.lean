import PrivatePayments.Prover.R1cs

/-!
What the parser of `.r1cs` files reads: each of its readers against the text it accepts, and a
whole file as the sections the first pass walks over.
-/

namespace PrivatePayments.Prover
open Bn254 Library.LittleEndian Library.Reader

variable {word : Nat} (data : Slice word)

def stand (position : Nat) : Cursor word := ⟨data, position⟩

theorem stand_injective : Function.Injective (stand data) := by
  intro position position' same
  exact congrArg Cursor.position same

theorem advance_eq (overflow : ParseError) (n position : Nat) :
    (advance overflow n).run (stand data position) =
      if position + n < 2 ^ word then
        if position + n ≤ data.bytes.length then .ok ((), stand data (position + n)) else .error .unexpectedEnd
      else .error overflow := by
  change (if position + n < 2 ^ word then
      if position + n ≤ data.bytes.length then set { stand data position with position := position + n }
      else throw .unexpectedEnd
    else throw overflow : Parser word Unit).run _ = _
  split
  · split
    · rfl
    · rfl
  · rfl

theorem reads_advance (overflow : ParseError) (n : Nat) :
    Reads data.bytes (stand data) (advance overflow n) fun _ text _ => text.length = n := by
  intro position within a s
  have addressable := data.addressable
  rw [advance_eq]
  by_cases inside : position + n ≤ data.bytes.length
  · rw [if_pos (by omega), if_pos inside]
    constructor
    · intro run
      cases run
      have length : ((data.bytes.drop position).take n).length = n := by
        rw [List.length_take, List.length_drop]
        omega
      exact ⟨_, length, lies_slice inside, by rw [length]⟩
    · rintro ⟨text, rfl, -, rfl⟩
      rfl
  · constructor
    · intro run
      rw [if_neg inside] at run
      split at run <;> cases run
    · rintro ⟨text, rfl, lies, -⟩
      exact absurd lies.le inside

theorem reads_readBytes (n : Nat) :
    Reads data.bytes (stand data) (readBytes n) fun _ text v => text.length = n ∧ v = text := by
  refine (Reads.of_get.bind fun cursor => (reads_advance data .positionOverflow n).bind fun _ =>
    Reads.of_pure ((cursor.data.bytes.drop cursor.position).take n)).congr fun position text v lies => ?_
  constructor
  · rintro ⟨_, _, _, rfl, ⟨rfl, rfl⟩, -, x, _, rfl, length, rfl, rfl⟩
    rw [List.append_nil, List.nil_append] at lies ⊢
    exact ⟨length, by rw [← length]; exact lies.slice⟩
  · rintro ⟨length, rfl⟩
    exact ⟨_, [], _, rfl, ⟨rfl, rfl⟩, (), _, [], (List.append_nil _).symm, length, rfl,
      by rw [← length]; exact lies.slice.symm⟩

theorem reads_skip (n : Nat) : Reads data.bytes (stand data) (skip n) fun _ text _ => text.length = n :=
  reads_advance data .skipOverflow n

theorem ofNat_fromLeBytes_iff (width : Nat) {text : List UInt8} {v : BitVec (8 * width)} :
    text.length = width ∧ v = BitVec.ofNat (8 * width) (fromLeBytes text) ↔ text = toLeBytes width v.toNat := by
  constructor
  · rintro ⟨rfl, rfl⟩
    have below := fromLeBytes_lt text
    rw [BitVec.toNat_ofNat, Nat.pow_mul, Nat.mod_eq_of_lt below, toLeBytes_fromLeBytes]
  · rintro rfl
    have below : v.toNat < 256 ^ width := by
      have bound := v.isLt
      rwa [Nat.pow_mul] at bound
    rw [length_toLeBytes, fromLeBytes_toLeBytes below, BitVec.ofNat_toNat, BitVec.setWidth_eq]
    exact ⟨rfl, rfl⟩

theorem reads_number (width : Nat) :
    Reads data.bytes (stand data)
      (do return BitVec.ofNat (8 * width) (fromLeBytes (← readBytes width)) : Parser word (BitVec (8 * width)))
      fun _ text v => text = toLeBytes width v.toNat := by
  refine ((reads_readBytes data width).bind fun bytes =>
    Reads.of_pure (BitVec.ofNat (8 * width) (fromLeBytes bytes))).congr fun position text v _ => ?_
  rw [← ofNat_fromLeBytes_iff width]
  constructor
  · rintro ⟨_, x, _, rfl, ⟨length, rfl⟩, rfl, rfl⟩
    rw [List.append_nil]
    exact ⟨length, rfl⟩
  · rintro ⟨length, rfl⟩
    exact ⟨text, text, [], (List.append_nil _).symm, ⟨length, rfl⟩, rfl, rfl⟩

theorem reads_readU32Le :
    Reads data.bytes (stand data) readU32Le fun _ text v => text = toLeBytes 4 v.toNat :=
  reads_number data 4

theorem reads_readU64Le :
    Reads data.bytes (stand data) readU64Le fun _ text v => text = toLeBytes 8 v.toNat :=
  reads_number data 8

/-- The fields of a header with whatever prime and number of labels. -/
def headerText (text : List UInt8) (header : R1CSHeader) : Prop :=
  header.fieldSize = 32 ∧ ∃ (prime : List UInt8) (numLabels : BitVec 64), prime.length = 32 ∧
    text = toLeBytes 4 header.fieldSize.toNat ++ (prime ++ (toLeBytes 4 header.numWires.toNat ++
      (toLeBytes 4 header.numPubOut.toNat ++ (toLeBytes 4 header.numPubIn.toNat ++
        (toLeBytes 4 header.numPrvIn.toNat ++ (toLeBytes 8 numLabels.toNat ++
          toLeBytes 4 header.numConstraints.toNat))))))

theorem length_headerText {text : List UInt8} {header : R1CSHeader} (is : headerText text header) :
    text.length = 64 := by
  obtain ⟨-, prime, numLabels, length, rfl⟩ := is
  simp only [List.length_append, length_toLeBytes, length]

theorem reads_parseHeader :
    Reads data.bytes (stand data) parseHeader fun _ text header => headerText text header := by
  refine ((reads_readU32Le data).bind fun fieldSize => ((reads_skip data fieldSize.toNat).bind fun _ =>
    (reads_readU32Le data).bind fun numWires => (reads_readU32Le data).bind fun numPubOut =>
    (reads_readU32Le data).bind fun numPubIn => (reads_readU32Le data).bind fun numPrvIn =>
    (reads_readU64Le data).bind fun _ => (reads_readU32Le data).bind fun numConstraints =>
    Reads.of_pure (R1CSHeader.mk fieldSize numWires numPubOut numPubIn numPrvIn numConstraints)).check).congr
    fun position text header _ => ?_
  constructor
  · rintro ⟨fieldSize, _, _, rfl, rfl, rfl, -, prime, _, rfl, length, numWires, _, _, rfl, rfl, numPubOut, _, _, rfl,
      rfl, numPubIn, _, _, rfl, rfl, numPrvIn, _, _, rfl, rfl, numLabels, _, _, rfl, rfl, numConstraints, _, _, rfl,
      rfl, rfl, rfl⟩
    exact ⟨rfl, prime, numLabels, length, by rw [List.append_nil]⟩
  · rintro ⟨size, prime, numLabels, length, rfl⟩
    have length' : prime.length = header.fieldSize.toNat := by
      rw [length, size]
      rfl
    exact ⟨_, _, _, rfl, rfl, size, (), prime, _, rfl, length', _, _, _, rfl, rfl, _, _, _, rfl, rfl, _, _, _, rfl, rfl,
      _, _, _, rfl, rfl, numLabels, _, _, rfl, rfl, _, _, _, (List.append_nil _).symm, rfl, rfl, rfl⟩

/-- A wire and a coefficient of 32 bytes, which stands for its residue. -/
def termText (text : List UInt8) (t : Term) : Prop :=
  ∃ coeffBytes : List UInt8, coeffBytes.length = 32 ∧ text = toLeBytes 4 t.wireId.toNat ++ coeffBytes ∧
    t.coefficient = (fromLeBytes coeffBytes : Fr)

theorem reads_parseTerm :
    Reads data.bytes (stand data) (parseTerm 32) fun _ text t => termText text t := by
  refine ((reads_readU32Le data).bind fun wireId => (reads_readBytes data 32).bind fun coeffBytes =>
    Reads.of_pure (Term.mk wireId (fromLeBytes coeffBytes : Fr))).congr fun position text t _ => ?_
  constructor
  · rintro ⟨wireId, _, _, rfl, rfl, coeffBytes, _, _, rfl, ⟨length, rfl⟩, rfl, rfl⟩
    exact ⟨coeffBytes, length, by rw [List.append_nil], rfl⟩
  · rintro ⟨coeffBytes, length, rfl, value⟩
    refine ⟨_, _, _, rfl, rfl, _, coeffBytes, [], (List.append_nil _).symm, ⟨length, rfl⟩, rfl, ?_⟩
    rw [← value]

def combinationText (text : List UInt8) (lc : LinearCombination) : Prop :=
  ∃ parts : List (List UInt8), parts.length < 2 ^ 32 ∧ text = toLeBytes 4 parts.length ++ parts.flatten ∧
    List.Forall₂ termText parts lc.terms

theorem reads_parseLinearCombination :
    Reads data.bytes (stand data) (parseLinearCombination 32) fun _ text lc => combinationText text lc := by
  refine ((reads_readU32Le data).bind fun numTerms => ((reads_parseTerm data).of_times numTerms.toNat).bind fun terms =>
    Reads.of_pure (LinearCombination.mk terms)).congr fun position text lc _ => ?_
  constructor
  · rintro ⟨numTerms, _, _, rfl, rfl, terms, _, _, rfl, ⟨repeated, count⟩, rfl, rfl⟩
    obtain ⟨parts, rfl, all⟩ := repeated_iff.mp repeated
    have length : parts.length = numTerms.toNat := all.length_eq.trans count
    exact ⟨parts, by rw [length]; exact numTerms.isLt, by rw [List.append_nil, length], all⟩
  · rintro ⟨parts, bound, rfl, all⟩
    have count : (BitVec.ofNat 32 parts.length).toNat = parts.length := by
      rw [BitVec.toNat_ofNat, Nat.mod_eq_of_lt bound]
    refine ⟨BitVec.ofNat 32 parts.length, _, _, rfl, congrArg (toLeBytes 4) count.symm, lc.terms, parts.flatten, [],
      (List.append_nil _).symm, ⟨repeated_iff.mpr ⟨parts, rfl, all⟩, ?_⟩, rfl, rfl⟩
    rw [count, all.length_eq]

def constraintText (text : List UInt8) (c : Constraint) : Prop :=
  ∃ x y z, text = x ++ (y ++ z) ∧ combinationText x c.a ∧ combinationText y c.b ∧ combinationText z c.c

theorem reads_parseConstraint {header : R1CSHeader} (size : header.fieldSize = 32) :
    Reads data.bytes (stand data) (parseConstraint header) fun _ text c => constraintText text c := by
  have combination := reads_parseLinearCombination data
  rw [← size] at combination
  refine (combination.bind fun a => combination.bind fun b => combination.bind fun c =>
    Reads.of_pure (Constraint.mk a b c)).congr fun position text c _ => ?_
  constructor
  · rintro ⟨a, x, _, rfl, isA, b, y, _, rfl, isB, c, z, _, rfl, isC, rfl, rfl⟩
    exact ⟨x, y, z, by rw [List.append_nil], isA, isB, isC⟩
  · rintro ⟨x, y, z, rfl, isA, isB, isC⟩
    exact ⟨_, x, _, rfl, isA, _, y, _, rfl, isB, _, z, [], (List.append_nil _).symm, isC, rfl, rfl⟩

def constraintsText (n : Nat) (text : List UInt8) (constraints : List Constraint) : Prop :=
  ∃ parts : List (List UInt8), parts.length = n ∧ text = parts.flatten ∧ List.Forall₂ constraintText parts constraints

theorem reads_parseConstraints {header : R1CSHeader} (size : header.fieldSize = 32) :
    Reads data.bytes (stand data) (parseConstraints header) fun _ text constraints =>
      constraintsText header.numConstraints.toNat text constraints := by
  refine ((reads_parseConstraint data size).of_times header.numConstraints.toNat).congr
    fun position text constraints _ => ?_
  rw [repeated_iff]
  constructor
  · rintro ⟨⟨parts, rfl, all⟩, count⟩
    exact ⟨parts, all.length_eq.trans count, rfl, all⟩
  · rintro ⟨parts, count, rfl, all⟩
    exact ⟨⟨parts, rfl, all⟩, all.length_eq.symm.trans count⟩

end PrivatePayments.Prover
