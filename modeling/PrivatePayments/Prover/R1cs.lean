import PrivatePayments.Bn254
import PrivatePayments.Library.LittleEndian
import PrivatePayments.Library.Reader

/-!
The prover's parser of `.r1cs` files: a cursor over the bytes, a first pass that finds the
sections and a second one over the constraints. A `usize` has `word` bits.
-/

namespace PrivatePayments.Prover
open Bn254 Library.LittleEndian Library.Reader

/-- A byte slice: its length is a `usize`. -/
structure Slice (word : Nat) where
  bytes : List UInt8
  addressable : bytes.length < 2 ^ word

structure Term where
  wireId : BitVec 32
  coefficient : Fr
  deriving DecidableEq

structure LinearCombination where
  terms : List Term
  deriving DecidableEq

structure Constraint where
  a : LinearCombination
  b : LinearCombination
  c : LinearCombination
  deriving DecidableEq

structure R1CS where
  numWires : BitVec 32
  numPubOut : BitVec 32
  numPubIn : BitVec 32
  numPrvIn : BitVec 32
  numPublic : BitVec 32
  constraints : List Constraint
  deriving DecidableEq

structure R1CSHeader where
  fieldSize : BitVec 32
  numWires : BitVec 32
  numPubOut : BitVec 32
  numPubIn : BitVec 32
  numPrvIn : BitVec 32
  numConstraints : BitVec 32
  deriving DecidableEq

inductive ParseError where
  | invalidMagic
  | unsupportedVersion (version : BitVec 32)
  | sectionSizeTooLarge
  | invalidCursorPosition
  | invalidRemainingBytes
  | missingHeader
  | numPublicOverflow
  | unsupportedFieldSize (fieldSize : BitVec 32)
  | positionOverflow
  | skipOverflow
  | unexpectedEnd
  deriving DecidableEq

def ParseError.message : ParseError → String
  | invalidMagic => "Invalid R1CS magic number"
  | unsupportedVersion version => s!"Unsupported R1CS version: {version.toNat}"
  | sectionSizeTooLarge => "Section size too large"
  | invalidCursorPosition => "Invalid cursor position"
  | invalidRemainingBytes => "Invalid remaining bytes calculation"
  | missingHeader => "Missing R1CS header section"
  | numPublicOverflow => "Overflow calculating num_public"
  | unsupportedFieldSize fieldSize => s!"Unsupported field size: {fieldSize.toNat} (expected 32)"
  | positionOverflow => "Overflow in cursor position"
  | skipOverflow => "Overflow in cursor skip"
  | unexpectedEnd => "Unexpected end of R1CS data"

structure Cursor (word : Nat) where
  data : Slice word
  position : Nat

abbrev Parser (word : Nat) := StateT (Cursor word) (Except ParseError)

variable {word : Nat}

def Cursor.new (data : Slice word) : Cursor word := ⟨data, 0⟩

/-- Moves over so many bytes, or fails with the caller's message where the position leaves `usize`. -/
def advance (overflow : ParseError) (n : Nat) : Parser word Unit := do
  let cursor ← get
  let stop := cursor.position + n
  if stop < 2 ^ word then
    if stop ≤ cursor.data.bytes.length then set { cursor with position := stop }
    else throw .unexpectedEnd
  else throw overflow

def readBytes (n : Nat) : Parser word (List UInt8) := do
  let cursor ← get
  advance .positionOverflow n
  return (cursor.data.bytes.drop cursor.position).take n

def skip (n : Nat) : Parser word Unit := advance .skipOverflow n

/-- `u32::from_le_bytes`. -/
def readU32Le : Parser word (BitVec 32) := do return BitVec.ofNat 32 (fromLeBytes (← readBytes 4))

/-- `u64::from_le_bytes`. -/
def readU64Le : Parser word (BitVec 64) := do return BitVec.ofNat 64 (fromLeBytes (← readBytes 8))

def parseHeader : Parser word R1CSHeader := do
  let fieldSize ← readU32Le
  if fieldSize = 32 then
    skip fieldSize.toNat
    let numWires ← readU32Le
    let numPubOut ← readU32Le
    let numPubIn ← readU32Le
    let numPrvIn ← readU32Le
    let _numLabels ← readU64Le
    let numConstraints ← readU32Le
    return { fieldSize, numWires, numPubOut, numPubIn, numPrvIn, numConstraints }
  else throw (.unsupportedFieldSize fieldSize)

def parseTerm (fieldSize : BitVec 32) : Parser word Term := do
  let wireId ← readU32Le
  let coeffBytes ← readBytes fieldSize.toNat
  return { wireId, coefficient := (fromLeBytes coeffBytes : Fr) }

def parseLinearCombination (fieldSize : BitVec 32) : Parser word LinearCombination := do
  let numTerms ← readU32Le
  return { terms := ← times (parseTerm fieldSize) numTerms.toNat }

def parseConstraint (header : R1CSHeader) : Parser word Constraint := do
  let a ← parseLinearCombination header.fieldSize
  let b ← parseLinearCombination header.fieldSize
  let c ← parseLinearCombination header.fieldSize
  return { a, b, c }

def parseConstraints (header : R1CSHeader) : Parser word (List Constraint) :=
  times (parseConstraint header) header.numConstraints.toNat

/-- What the first pass collects: the header, and where the constraints start with their declared size. -/
structure Collected where
  header : Option R1CSHeader
  constraintsData : Option (Nat × Nat)
  deriving DecidableEq

/-- The match on the type of a section. -/
def collectContent (found : Collected) (sectionType : BitVec 32) (sectionStart size : Nat) :
    Parser word Collected :=
  match sectionType.toNat with
  | 1 => do return { found with header := some (← parseHeader) }
  | 2 => do
    skip size
    return { found with constraintsData := some (sectionStart, size) }
  | _ => do
    skip size
    return found

/-- The end of a turn, which skips what the content has left of the section's size. -/
def skipRemaining (sectionStart size : Nat) : Parser word Unit := do
  let position := (← get).position
  if sectionStart ≤ position then
    let consumed := position - sectionStart
    if consumed < size then
      -- the subtraction is checked once more, and cannot fail
      if consumed ≤ size then skip (size - consumed) else throw .invalidRemainingBytes
    else pure ()
  else throw .invalidCursorPosition

def collectSection (found : Collected) : Parser word Collected := do
  let sectionType ← readU32Le
  let sectionSize ← readU64Le
  let cursor ← get
  if sectionSize.toNat < 2 ^ word then
    let found ← collectContent found sectionType cursor.position sectionSize.toNat
    skipRemaining cursor.position sectionSize.toNat
    return found
  else throw .sectionSizeTooLarge

def collectSections : Nat → Collected → Parser word Collected
  | 0, found => pure found
  | n + 1, found => do collectSections n (← collectSection found)

/-- `checked_add` of two `u32`. -/
def checkedAdd (a b : BitVec 32) : Option (BitVec 32) :=
  if a.toNat + b.toNat < 2 ^ 32 then some (a + b) else none

/-- The second pass: back at the constraints, if a section has them. -/
def readConstraints (header : R1CSHeader) : Option (Nat × Nat) → Parser word (List Constraint)
  | some (start, _) => do
    modify fun cursor => { cursor with position := start }
    parseConstraints header
  | none => pure []

def finish (header : R1CSHeader) (constraints : List Constraint) : Parser word R1CS :=
  match checkedAdd header.numPubOut header.numPubIn with
  | none => throw .numPublicOverflow
  | some numPublic =>
    return {
      numWires := header.numWires
      numPubOut := header.numPubOut
      numPubIn := header.numPubIn
      numPrvIn := header.numPrvIn
      numPublic
      constraints
    }

/-- What `parse` does once the sections are found. -/
def parseFound (found : Collected) : Parser word R1CS :=
  match found.header with
  | none => throw .missingHeader
  | some header => do finish header (← readConstraints header found.constraintsData)

/-- `b"r1cs"`. -/
def magicNumber : List UInt8 := [0x72, 0x31, 0x63, 0x73]

/-- The first pass, behind the checks on the start of the file. -/
def firstPass : Parser word Collected := do
  let magic ← readBytes 4
  if magic = magicNumber then
    let version ← readU32Le
    if version = 1 then
      let numSections ← readU32Le
      collectSections numSections.toNat ⟨none, none⟩
    else throw (.unsupportedVersion version)
  else throw .invalidMagic

def parseData : Parser word R1CS := do parseFound (← firstPass)

def R1CS.parse (data : Slice word) : Except ParseError R1CS := parseData.run' (Cursor.new data)

end PrivatePayments.Prover
