import PrivatePayments.Client.PublicAmount

/-!
The external data of a transaction under its three encoders: the client's hash, the client's
call and the contract's own. They agree on every value, and the encoding tells values apart.
-/

namespace PrivatePayments.Client
open Bn254 Soroban Library

/-- The external data as the client has it, with the recipient as a text. -/
structure ExtData where
  recipient : String
  extAmount : ExtAmount
  encryptedOutput0 : List UInt8
  encryptedOutput1 : List UInt8
  deriving DecidableEq

/-- `str::parse::<ScAddress>` of the XDR library. -/
abbrev AddressParser := String → Except String ScAddress

def parserOf (text : String) (address : ScAddress) : AddressParser := fun other =>
  if other = text then .ok address else .error "the strkey is invalid"

theorem parserOf_self (text : String) (address : ScAddress) : parserOf text address text = .ok address := if_pos rfl

/-- Bytes as an XDR value, whose length has 32 bits. -/
def tryIntoBytes (tooLong : String) (content : List UInt8) : Except String ScVal :=
  if content.length < 2 ^ 32 then .ok (.bytes content) else .error tooLong

def bytesToScval : List UInt8 → Except String ScVal := tryIntoBytes "bytes too long for ScVal::Bytes"

def poolExtDataToScval (parse : AddressParser) (ext : ExtData) : Except String ScVal := do
  let encryptedOutput0 ← bytesToScval ext.encryptedOutput0
  let encryptedOutput1 ← bytesToScval ext.encryptedOutput1
  let recipient ← parse ext.recipient
  return sortedMap [("encrypted_output0", encryptedOutput0), ("encrypted_output1", encryptedOutput1),
    ("ext_amount", i128ToI256Scval ext.extAmount), ("recipient", .address recipient)]

/-- The byte string `hash_ext_data_offchain` hashes. -/
def extDataPayload (parse : AddressParser) (ext : ExtData) : Except String (List UInt8) := do
  let encryptedOutput0 ← tryIntoBytes "xdr value max length exceeded" ext.encryptedOutput0
  let encryptedOutput1 ← tryIntoBytes "xdr value max length exceeded" ext.encryptedOutput1
  let recipient ← parse ext.recipient
  let entries := [("encrypted_output0", encryptedOutput0), ("encrypted_output1", encryptedOutput1),
    ("ext_amount", i128ToI256Scval ext.extAmount), ("recipient", .address recipient)]
  let mapEntries := entries.mergeSort fun a b => decide (a.1 ≤ b.1)
  return (ScVal.map mapEntries).toXdr

def hashExtDataOffchain (parse : AddressParser) (keccak256 : List UInt8 → U256) (ext : ExtData) :
    Except String (List UInt8) := do
  let payload ← extDataPayload parse ext
  let digest := keccak256 payload
  return toBeBytes 32 (digest.toNat % bn256Modulus)

/-- The encoded outputs have lengths of 32 bits; other outputs are refused by every encoder. -/
def Encodable (ext : ExtData) : Prop :=
  ext.encryptedOutput0.length < 2 ^ 32 ∧ ext.encryptedOutput1.length < 2 ^ 32

instance (ext : ExtData) : Decidable (Encodable ext) := inferInstanceAs (Decidable (_ ∧ _))

def extDataScval (ext : ExtData) (recipient : ScAddress) : ScVal :=
  .map [("encrypted_output0", .bytes ext.encryptedOutput0), ("encrypted_output1", .bytes ext.encryptedOutput1),
    ("ext_amount", i128ToI256Scval ext.extAmount), ("recipient", .address recipient)]

section Encoders

variable {parse : AddressParser} {ext : ExtData} {recipient : ScAddress}

theorem sortedMap_extData (ext : ExtData) (recipient : ScAddress) :
    sortedMap [("encrypted_output0", .bytes ext.encryptedOutput0),
      ("encrypted_output1", .bytes ext.encryptedOutput1), ("ext_amount", i128ToI256Scval ext.extAmount),
      ("recipient", .address recipient)] = extDataScval ext recipient := by
  have sorted : ["encrypted_output0", "encrypted_output1", "ext_amount", "recipient"].Pairwise
      fun a b => decide (a ≤ b) = true := by decide
  exact sortedMap_eq sorted

theorem poolExtDataToScval_eq (encodable : Encodable ext) (parsed : parse ext.recipient = .ok recipient) :
    poolExtDataToScval parse ext = .ok (extDataScval ext recipient) := by
  rw [poolExtDataToScval, bytesToScval, tryIntoBytes, if_pos encodable.1, tryIntoBytes, if_pos encodable.2, parsed,
    ← sortedMap_extData]
  rfl

theorem extDataPayload_eq (encodable : Encodable ext) (parsed : parse ext.recipient = .ok recipient) :
    extDataPayload parse ext = .ok (extDataScval ext recipient).toXdr := by
  rw [extDataPayload, tryIntoBytes, if_pos encodable.1, tryIntoBytes, if_pos encodable.2, parsed,
    ← sortedMap_extData]
  rfl

theorem length_of_tryIntoBytes {tooLong : String} {content : List UInt8} {value : ScVal}
    (built : tryIntoBytes tooLong content = .ok value) : content.length < 2 ^ 32 := by
  by_contra long
  rw [tryIntoBytes, if_neg long] at built
  cases built

theorem encodable_of_outputs {α : Type} {tooLong : String} {encode : ScVal → ScVal → Except String α} {a : α}
    (encoded : (tryIntoBytes tooLong ext.encryptedOutput0 >>= fun output0 =>
      tryIntoBytes tooLong ext.encryptedOutput1 >>= encode output0) = .ok a) : Encodable ext := by
  obtain ⟨first, isFirst, rest⟩ := of_bind_ok encoded
  obtain ⟨second, isSecond, -⟩ := of_bind_ok rest
  exact ⟨length_of_tryIntoBytes isFirst, length_of_tryIntoBytes isSecond⟩

theorem encodable_of_argument {argument : ScVal} (encoded : poolExtDataToScval parse ext = .ok argument) :
    Encodable ext :=
  encodable_of_outputs encoded

theorem encodable_of_payload {payload : List UInt8} (encoded : extDataPayload parse ext = .ok payload) :
    Encodable ext :=
  encodable_of_outputs encoded

/-- The contract decodes the argument of the call, and encodes what it decoded in the same way. -/
theorem ofScval_extData (ext : ExtData) {a : Address} (host : Address.ofScAddress recipient = some a) :
    ∃ onchain, Pool.ExtData.ofScval (extDataScval ext recipient) = some onchain ∧ onchain.recipient = a ∧
      onchain.extAmount = ext.extAmount.signExtend 256 ∧
      onchain.encryptedOutput0 = ext.encryptedOutput0 ∧ onchain.encryptedOutput1 = ext.encryptedOutput1 ∧
      onchain.toScval = extDataScval ext recipient := by
  have amount := Option.some.inj (decodeI256_scval ext.extAmount)
  refine ⟨{ recipient := a, extAmount := ext.extAmount.signExtend 256, encryptedOutput0 := ext.encryptedOutput0,
            encryptedOutput1 := ext.encryptedOutput1 }, ?_, rfl, rfl, rfl, rfl, ?_⟩
  · rw [extDataScval, i128ToI256Scval, ← amount]
    simp only [Pool.ExtData.ofScval, host]
    rfl
  · rw [Pool.ExtData.toScval, extDataScval, Address.toScAddress_of host, ← amount, ScVal.ofI256_ofLimbs]
    rfl

theorem scval_limbs_injective : Function.Injective fun n : ExtAmount =>
    ((if n.toInt < 0 then (-1 : BitVec 64) else 0, if n.toInt < 0 then (-1 : BitVec 64) else 0,
      n.extractLsb' 64 64, n.extractLsb' 0 64) : BitVec 64 × BitVec 64 × BitVec 64 × BitVec 64) := by
  intro n n' same
  obtain ⟨-, tail⟩ := Prod.mk.inj same
  obtain ⟨-, tail⟩ := Prod.mk.inj tail
  obtain ⟨high, low⟩ := Prod.mk.inj tail
  apply BitVec.eq_of_getLsbD_eq
  intro i small
  by_cases first : i < 64
  · have bits := congrArg (BitVec.getLsbD · i) low
    simpa only [BitVec.getLsbD_extractLsb', decide_eq_true first, Bool.true_and, Nat.zero_add] using bits
  · have bits := congrArg (BitVec.getLsbD · (i - 64)) high
    have inside : i - 64 < 64 := by omega
    simpa only [BitVec.getLsbD_extractLsb', decide_eq_true inside, Bool.true_and,
      show 64 + (i - 64) = i by omega] using bits

theorem extDataScval_injective {ext' : ExtData} {recipient' : ScAddress} (encodable : Encodable ext)
    (encodable' : Encodable ext') (same : (extDataScval ext recipient).toXdr = (extDataScval ext' recipient').toXdr) :
    recipient = recipient' ∧ ext.extAmount = ext'.extAmount ∧
      ext.encryptedOutput0 = ext'.encryptedOutput0 ∧ ext.encryptedOutput1 = ext'.encryptedOutput1 := by
  have output (key : String) := (separates_xdrVarBytes.after (xdrWord 13)).after (xdrSymbol key)
  have amount := ((separates_limbs.comap scval_limbs_injective).after (xdrWord 12)).after (xdrSymbol "ext_amount")
  have address := (separates_scAddress.after (xdrWord 18)).after (xdrSymbol "recipient")
  have whole := (output "encrypted_output0").seq ((output "encrypted_output1").seq (amount.seq address))
  have fields := whole.eq_of_encode
    (ext.encryptedOutput0, ext.encryptedOutput1, ext.extAmount, recipient)
    (ext'.encryptedOutput0, ext'.encryptedOutput1, ext'.extAmount, recipient')
    ⟨encodable.1, encodable.2, trivial, trivial⟩ ⟨encodable'.1, encodable'.2, trivial, trivial⟩ ?_
  · obtain ⟨out0, tail⟩ := Prod.mk.inj fields
    obtain ⟨out1, tail⟩ := Prod.mk.inj tail
    obtain ⟨amounts, addresses⟩ := Prod.mk.inj tail
    exact ⟨addresses, amounts, out0, out1⟩
  · have bodies := List.append_cancel_left (List.append_cancel_left (List.append_cancel_left same))
    simpa only [entriesToXdr, entryToXdr, ScVal.toXdr, i128ToI256Scval, List.append_nil] using bodies

end Encoders

structure EncodersAgree (parse : AddressParser) (keccak256 : List UInt8 → U256) (ext : ExtData)
    (recipient : ScAddress) : Prop where
  /-- The client hashes the XDR of the argument it sends, or has neither. -/
  client : (extDataPayload parse ext).toOption = (poolExtDataToScval parse ext).toOption.map ScVal.toXdr
  /-- What the contract decodes has the fields of the client's data, the same XDR and the same hash. -/
  contract : ∀ argument onchain, poolExtDataToScval parse ext = .ok argument →
    Pool.ExtData.ofScval argument = some onchain →
      onchain.recipient.toScAddress = recipient ∧ onchain.extAmount.toInt = ext.extAmount.toInt ∧
        onchain.encryptedOutput0 = ext.encryptedOutput0 ∧ onchain.encryptedOutput1 = ext.encryptedOutput1 ∧
        onchain.toScval.toXdr = argument.toXdr ∧
        hashExtDataOffchain parse keccak256 ext = .ok (Pool.hashExtData keccak256 onchain)
  /-- Outputs that can be encoded, for a recipient the host has, do reach the contract. -/
  decodes : Encodable ext → (Address.ofScAddress recipient).isSome →
    ∃ argument, poolExtDataToScval parse ext = .ok argument ∧ (Pool.ExtData.ofScval argument).isSome
  canonical : ∀ hash, hashExtDataOffchain parse keccak256 ext = .ok hash →
    hash.length = 32 ∧ fromBeBytes hash < bn256Modulus
  /-- Other data has another byte string. -/
  binding : ∀ ext' recipient' payload, parse ext'.recipient = .ok recipient' →
    extDataPayload parse ext = .ok payload → extDataPayload parse ext' = .ok payload →
      recipient = recipient' ∧ ext.extAmount = ext'.extAmount ∧
        ext.encryptedOutput0 = ext'.encryptedOutput0 ∧ ext.encryptedOutput1 = ext'.encryptedOutput1

theorem hash_canonical (digest : U256) :
    (toBeBytes 32 (digest.toNat % bn256Modulus)).length = 32 ∧
      fromBeBytes (toBeBytes 32 (digest.toNat % bn256Modulus)) < bn256Modulus := by
  have small : digest.toNat % bn256Modulus < bn256Modulus := Nat.mod_lt _ (by decide)
  have below := bn256Modulus_lt
  refine ⟨length_toBeBytes 32 _, ?_⟩
  rw [fromBeBytes_toBeBytes (by omega)]
  exact small

/-- Whatever the recipient parses to, the three encoders of external data agree. -/
theorem ext_data_hash_agreement (parse : AddressParser) (keccak256 : List UInt8 → U256) (ext : ExtData)
    (recipient : ScAddress) (parsed : parse ext.recipient = .ok recipient) :
    EncodersAgree parse keccak256 ext recipient where
  client := by
    by_cases encodable : Encodable ext
    · rw [extDataPayload_eq encodable parsed, poolExtDataToScval_eq encodable parsed]
      rfl
    · cases encoded : extDataPayload parse ext with
      | ok payload => exact absurd (encodable_of_payload encoded) encodable
      | error e =>
        cases argued : poolExtDataToScval parse ext with
        | ok argument => exact absurd (encodable_of_argument argued) encodable
        | error e' => rfl
  contract argument onchain encoded decoded := by
    have encodable := encodable_of_argument encoded
    rw [poolExtDataToScval_eq encodable parsed] at encoded
    obtain rfl := Except.ok.inj encoded
    cases host : Address.ofScAddress recipient with
    | none =>
      simp only [extDataScval, i128ToI256Scval, Pool.ExtData.ofScval, host] at decoded
      cases decoded
    | some a =>
      obtain ⟨value, decodes, isRecipient, isAmount, isOut0, isOut1, again⟩ := ofScval_extData ext host
      obtain rfl : onchain = value := Option.some.inj (decoded.symm.trans decodes)
      have amount : onchain.extAmount.toInt = ext.extAmount.toInt := by
        rw [isAmount]
        exact BitVec.toInt_signExtend_of_le (by decide)
      refine ⟨by rw [isRecipient, Address.toScAddress_of host], amount, isOut0, isOut1, by rw [again], ?_⟩
      rw [hashExtDataOffchain, extDataPayload_eq encodable parsed, Pool.hashExtData, again]
      rfl
  decodes encodable host := by
    obtain ⟨a, isHost⟩ := Option.isSome_iff_exists.mp host
    obtain ⟨value, decodes, -⟩ := ofScval_extData ext isHost
    exact ⟨extDataScval ext recipient, poolExtDataToScval_eq encodable parsed, by rw [decodes]; rfl⟩
  canonical hash hashed := by
    obtain ⟨payload, -, isHash⟩ := of_bind_ok hashed
    rw [← Except.ok.inj isHash]
    exact hash_canonical (keccak256 payload)
  binding ext' recipient' payload parsed' encoded encoded' := by
    have encodable := encodable_of_payload encoded
    have encodable' := encodable_of_payload encoded'
    rw [extDataPayload_eq encodable parsed] at encoded
    rw [extDataPayload_eq encodable' parsed'] at encoded'
    exact extDataScval_injective encodable encodable'
      ((Except.ok.inj encoded).trans (Except.ok.inj encoded').symm)

theorem ext_data_hash_agreement_sample :
    let recipient := "GAAAAAAAAAAAAAAAAAAAAAAAAAAAAAAAAAAAAAAAAAAAAAAAAAAAEGWF"
    EncodersAgree (parserOf recipient (.account 2)) (fun bytes => BitVec.ofNat 256 (fromBeBytes bytes))
      { recipient := recipient, extAmount := -42, encryptedOutput0 := [1, 2, 3],
        encryptedOutput1 := [4, 5] } (.account 2) :=
  ext_data_hash_agreement _ _ _ _ (parserOf_self _ _)

end PrivatePayments.Client
