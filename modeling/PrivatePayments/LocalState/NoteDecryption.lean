import PrivatePayments.Library.LittleEndian
import PrivatePayments.Poseidon2.Hasher

/-!
The callback of the note scan: decrypting an encrypted output, checking it against the
commitment and deriving the nullifier to expect, with every exit it has.
-/

namespace PrivatePayments.LocalState
open Bn254 Poseidon2 Library.LittleEndian

abbrev Bytes := List UInt8

/-- X25519 with XSalsa20Poly1305: a shared secret of the one side's key and the other side's public
key, and a cipher under it. Opening fails where the tag does not match. -/
structure Cipher where
  publicKey : Bytes → Bytes
  encrypt : (recipientPublic ephemeralSecret nonce plaintext : Bytes) → Bytes
  decrypt : (secret ephemeralPublic nonce ciphertext : Bytes) → Option Bytes

/-- The cipher opens what it sealed; keys have 32 bytes and the tag has 16. -/
structure Cipher.Opens (X : Cipher) : Prop where
  opens : ∀ secret ephemeralSecret nonce plaintext,
    X.decrypt secret (X.publicKey ephemeralSecret) nonce
      (X.encrypt (X.publicKey secret) ephemeralSecret nonce plaintext) = some plaintext
  keyLength : ∀ secret, (X.publicKey secret).length = 32
  tagLength : ∀ recipient ephemeralSecret nonce plaintext,
    (X.encrypt recipient ephemeralSecret nonce plaintext).length = plaintext.length + 16

inductive DeriveError where
  | encryptedDataTooShort
  | plaintextLength (got : Nat)
  | fieldOutOfRange
  deriving DecidableEq

structure Randomness where
  ephemeralSecret : Bytes
  nonce : Bytes

def encryptNoteData (X : Cipher) (recipient : Bytes) (r : Randomness) (plaintext : Bytes) : Bytes :=
  X.publicKey r.ephemeralSecret ++ r.nonce ++ X.encrypt recipient r.ephemeralSecret r.nonce plaintext

/-- `amount (16 bytes LE) || blinding (32 bytes)`. -/
def notePlaintext (amount : BitVec 128) (blinding : Fr) : Bytes :=
  toLeBytes 16 amount.toNat ++ toLeBytes 32 blinding.val

def encryptOutputNote (X : Cipher) (recipient : Bytes) (r : Randomness) (amount : BitVec 128)
    (blinding : Fr) : Bytes :=
  encryptNoteData X recipient r (notePlaintext amount blinding)

/-- An empty result stands for a ciphertext that does not open. -/
def decryptNoteData (X : Cipher) (secret encrypted : Bytes) : Except DeriveError Bytes :=
  if encrypted.length < 120 then .error .encryptedDataTooShort
  else
    match X.decrypt secret (encrypted.take 32) ((encrypted.drop 32).take 24) (encrypted.drop 56) with
    | some plaintext => .ok plaintext
    | none => .ok []

def tryFromLeBytes (bytes : Bytes) : Except DeriveError Fr :=
  if bn256Modulus ≤ fromLeBytes bytes then .error .fieldOutOfRange else .ok (fromLeBytes bytes : Fr)

/-- What a decrypted plaintext says: no bytes stand for a note of somebody else. -/
def readOutputNote (plaintext : Bytes) : Except DeriveError (Option (Nat × Fr)) :=
  if plaintext = [] then .ok none
  else if plaintext.length ≠ 48 then .error (.plaintextLength plaintext.length)
  else do
    let blinding ← tryFromLeBytes (plaintext.drop 16)
    return some (fromLeBytes (plaintext.take 16), blinding)

def decryptOutputNote (X : Cipher) (secret encrypted : Bytes) : Except DeriveError (Option (Nat × Fr)) := do
  readOutputNote (← decryptNoteData X secret encrypted)

/-- The 32 bytes of a note key, as the scalar they are reduced to. -/
abbrev Scalar := Fr

structure NoteKeyPair where
  privateKey : Scalar
  publicKey : Scalar

structure AccountKeys where
  accountId : Nat
  noteKeypair : NoteKeyPair
  encryptionPrivate : Bytes

structure DerivedUserNote where
  amount : Nat
  blinding : Fr
  expectedNullifier : Fr
  deriving DecidableEq

def computeCommitment (H : Hasher) (amount publicKey blinding : Fr) : Fr :=
  H.hash3 amount publicKey blinding 1

def computeSignature (H : Hasher) (privateKey commitment merklePath : Fr) : Fr :=
  H.hash3 privateKey commitment merklePath 4

def computeNullifier (H : Hasher) (commitment pathIndices signature : Fr) : Fr :=
  H.hash3 commitment pathIndices signature 2

def tryDecryptAndDeriveUserNote (H : Hasher) (X : Cipher) (keys : AccountKeys) (commitment : Fr)
    (leafIndex : Nat) (encryptedOutput : Bytes) : Except DeriveError (Option DerivedUserNote) := do
  match ← decryptOutputNote X keys.encryptionPrivate encryptedOutput with
  | none => return none
  | some (amount, blinding) =>
      if amount = 0 then return none
      else if computeCommitment H amount keys.noteKeypair.publicKey blinding ≠ commitment then
        return none
      else
        let signature := computeSignature H keys.noteKeypair.privateKey commitment leafIndex
        return some
          { amount := amount
            blinding := blinding
            expectedNullifier := computeNullifier H commitment leafIndex signature }

/-- What the callback takes without an error: at least 120 bytes that do not open under the key, or
open to nothing, or to the 48 bytes of an amount and a field element. -/
def Acceptable (X : Cipher) (secret encrypted : Bytes) : Prop :=
  120 ≤ encrypted.length ∧
    ∀ plaintext, X.decrypt secret (encrypted.take 32) ((encrypted.drop 32).take 24)
      (encrypted.drop 56) = some plaintext →
        plaintext = [] ∨ plaintext.length = 48 ∧ fromLeBytes (plaintext.drop 16) < bn256Modulus

section Exits

variable {H : Hasher} {X : Cipher} {secret encrypted : Bytes}

theorem readOutputNote_ok_iff {plaintext : Bytes} :
    (∃ note, readOutputNote plaintext = .ok note) ↔
      plaintext = [] ∨ plaintext.length = 48 ∧ fromLeBytes (plaintext.drop 16) < bn256Modulus := by
  unfold readOutputNote tryFromLeBytes
  by_cases empty : plaintext = []
  · rw [if_pos empty]
    exact iff_of_true ⟨none, rfl⟩ (Or.inl empty)
  · rw [if_neg empty]
    by_cases length : plaintext.length = 48
    · rw [if_neg (not_not.mpr length)]
      by_cases large : bn256Modulus ≤ fromLeBytes (plaintext.drop 16)
      · rw [if_pos large]
        refine iff_of_false (fun ⟨note, returned⟩ => by cases returned) ?_
        intro opens
        rcases opens with nothing | ⟨_, small⟩
        · exact empty nothing
        · exact absurd large (Nat.not_le.mpr small)
      · rw [if_neg large]
        exact iff_of_true ⟨_, rfl⟩ (Or.inr ⟨length, Nat.not_le.mp large⟩)
    · rw [if_pos length]
      refine iff_of_false (fun ⟨note, returned⟩ => by cases returned) ?_
      intro opens
      rcases opens with nothing | ⟨same, _⟩
      · exact empty nothing
      · exact length same

theorem decryptOutputNote_ok_iff :
    (∃ note, decryptOutputNote X secret encrypted = .ok note) ↔ Acceptable X secret encrypted := by
  unfold decryptOutputNote decryptNoteData Acceptable
  by_cases short : encrypted.length < 120
  · rw [if_pos short]
    refine iff_of_false (fun ⟨note, returned⟩ => by cases returned) ?_
    intro ⟨long, _⟩
    omega
  · rw [if_neg short]
    have long := Nat.not_lt.mp short
    cases X.decrypt secret (encrypted.take 32) ((encrypted.drop 32).take 24) (encrypted.drop 56) with
    | none => exact iff_of_true ⟨none, rfl⟩ ⟨long, by simp⟩
    | some plaintext =>
      simp only [Option.some.injEq, forall_eq']
      change (∃ note, readOutputNote plaintext = .ok note) ↔ _
      rw [readOutputNote_ok_iff]
      exact ⟨fun opens => ⟨long, opens⟩, fun acceptable => acceptable.2⟩

theorem derive_ok_iff {keys : AccountKeys} {commitment : Fr} {leafIndex : Nat} :
    (∃ note, tryDecryptAndDeriveUserNote H X keys commitment leafIndex encrypted = .ok note) ↔
      Acceptable X keys.encryptionPrivate encrypted := by
  rw [← decryptOutputNote_ok_iff]
  unfold tryDecryptAndDeriveUserNote
  cases decryptOutputNote X keys.encryptionPrivate encrypted with
  | error e =>
    refine iff_of_false (fun ⟨note, returned⟩ => by cases returned) ?_
    intro ⟨note, returned⟩
    cases returned
  | ok note =>
    refine iff_of_true ?_ ⟨note, rfl⟩
    cases note with
    | none => exact ⟨none, rfl⟩
    | some found =>
      obtain ⟨amount, blinding⟩ := found
      by_cases zero : amount = 0
      · exact ⟨none, if_pos zero⟩
      · by_cases other : computeCommitment H amount keys.noteKeypair.publicKey blinding ≠ commitment
        · exact ⟨none, (if_neg zero).trans (if_pos other)⟩
        · exact ⟨_, (if_neg zero).trans (if_neg other)⟩

theorem derive_nullifier {keys : AccountKeys} {commitment : Fr} {leafIndex : Nat} {note : DerivedUserNote}
    (returned : tryDecryptAndDeriveUserNote H X keys commitment leafIndex encrypted = .ok (some note)) :
    note.expectedNullifier = computeNullifier H commitment leafIndex
      (computeSignature H keys.noteKeypair.privateKey commitment leafIndex) := by
  unfold tryDecryptAndDeriveUserNote at returned
  cases decrypted : decryptOutputNote X keys.encryptionPrivate encrypted with
  | error e =>
    rw [decrypted] at returned
    cases returned
  | ok found =>
    rw [decrypted] at returned
    cases found with
    | none => cases returned
    | some found =>
      obtain ⟨amount, blinding⟩ := found
      by_cases zero : amount = 0
      · cases (if_pos zero).symm.trans returned
      · by_cases other : computeCommitment H amount keys.noteKeypair.publicKey blinding ≠ commitment
        · cases ((if_neg zero).trans (if_pos other)).symm.trans returned
        · cases ((if_neg zero).trans (if_neg other)).symm.trans returned
          rfl

theorem tryFromLeBytes_toLeBytes (x : Fr) : tryFromLeBytes (toLeBytes 32 x.val) = .ok x := by
  have small := ZMod.val_lt x
  have bound := bn256Modulus_lt
  have read : fromLeBytes (toLeBytes 32 x.val) = x.val := fromLeBytes_toLeBytes (by omega)
  rw [tryFromLeBytes, read, if_neg (Nat.not_le.mpr small), ZMod.natCast_zmod_val]

theorem length_notePlaintext (amount : BitVec 128) (blinding : Fr) :
    (notePlaintext amount blinding).length = 48 := by
  rw [notePlaintext, List.length_append, length_toLeBytes, length_toLeBytes]

theorem readOutputNote_notePlaintext (amount : BitVec 128) (blinding : Fr) :
    readOutputNote (notePlaintext amount blinding) = .ok (some (amount.toNat, blinding)) := by
  have length := length_notePlaintext amount blinding
  have busy : notePlaintext amount blinding ≠ [] := by
    intro empty
    rw [empty] at length
    cases length
  have amountBytes : (notePlaintext amount blinding).take 16 = toLeBytes 16 amount.toNat := by
    rw [notePlaintext, List.take_left' (length_toLeBytes 16 _)]
  have blindingBytes : (notePlaintext amount blinding).drop 16 = toLeBytes 32 blinding.val := by
    rw [notePlaintext, List.drop_left' (length_toLeBytes 16 _)]
  have readAmount : fromLeBytes (toLeBytes 16 amount.toNat) = amount.toNat :=
    fromLeBytes_toLeBytes (by have := amount.isLt; omega)
  rw [readOutputNote, if_neg busy, if_neg (not_not.mpr length), amountBytes, blindingBytes,
    tryFromLeBytes_toLeBytes, readAmount]
  rfl

theorem decryptOutputNote_of_plaintext {plaintext : Bytes}
    (opened : decryptNoteData X secret encrypted = .ok plaintext) :
    decryptOutputNote X secret encrypted = readOutputNote plaintext := by
  rw [decryptOutputNote, opened]
  rfl

theorem decryptNoteData_encrypt (opens : X.Opens) (secret : Bytes) {r : Randomness}
    (nonce : r.nonce.length = 24) {plaintext : Bytes} (length : plaintext.length = 48) :
    decryptNoteData X secret (encryptNoteData X (X.publicKey secret) r plaintext) = .ok plaintext := by
  have key := opens.keyLength r.ephemeralSecret
  have tag := opens.tagLength (X.publicKey secret) r.ephemeralSecret r.nonce plaintext
  have sealed := opens.opens secret r.ephemeralSecret r.nonce plaintext
  unfold decryptNoteData encryptNoteData
  generalize X.publicKey r.ephemeralSecret = ephemeral at key sealed ⊢
  generalize X.encrypt (X.publicKey secret) r.ephemeralSecret r.nonce plaintext = body at tag sealed ⊢
  have long : ¬(ephemeral ++ r.nonce ++ body).length < 120 := by
    rw [List.length_append, List.length_append, key, nonce, tag, length]
    omega
  have first : (ephemeral ++ r.nonce ++ body).take 32 = ephemeral := by
    rw [List.append_assoc, List.take_left' key]
  have second : ((ephemeral ++ r.nonce ++ body).drop 32).take 24 = r.nonce := by
    rw [List.append_assoc, List.drop_left' key, List.take_left' nonce]
  have third : (ephemeral ++ r.nonce ++ body).drop 56 = body :=
    List.drop_left' (by rw [List.length_append, key, nonce])
  rw [if_neg long, first, second, third, sealed]

theorem decryptOutputNote_encrypt (opens : X.Opens) (secret : Bytes) {r : Randomness}
    (nonce : r.nonce.length = 24) (amount : BitVec 128) (blinding : Fr) :
    decryptOutputNote X secret (encryptOutputNote X (X.publicKey secret) r amount blinding) =
      .ok (some (amount.toNat, blinding)) := by
  have data := decryptNoteData_encrypt opens secret nonce (length_notePlaintext amount blinding)
  rw [encryptOutputNote, decryptOutputNote_of_plaintext data, readOutputNote_notePlaintext]

theorem derive_encrypt (opens : X.Opens) (keys : AccountKeys) {r : Randomness}
    (nonce : r.nonce.length = 24) {amount : BitVec 128} (positive : amount ≠ 0) (blinding : Fr)
    (leafIndex : Nat) :
    ∃ note, tryDecryptAndDeriveUserNote H X keys
      (computeCommitment H amount.toNat keys.noteKeypair.publicKey blinding) leafIndex
      (encryptOutputNote X (X.publicKey keys.encryptionPrivate) r amount blinding) = .ok (some note) := by
  have nonzero : amount.toNat ≠ 0 := fun zero => positive (BitVec.eq_of_toNat_eq zero)
  unfold tryDecryptAndDeriveUserNote
  rw [decryptOutputNote_encrypt opens keys.encryptionPrivate nonce]
  exact ⟨_, (if_neg nonzero).trans (if_neg (not_not.mpr rfl))⟩

end Exits

end PrivatePayments.LocalState
