import PrivatePayments.Client.PoolProof
import PrivatePayments.Prover.Flows
import PrivatePayments.Registry.Contract

/-!
A registration from the client to the contract: what the client encodes is the account the contract
registers.
-/

namespace PrivatePayments.Registry
open Soroban Client

def registerAccountToScval (parse : AddressParser) (owner : String) (encryptionKey noteKey : Prover.Key) :
    Except String ScVal := do
  let encryption ← bytesToScval encryptionKey.bytes
  let note ← bytesToScval noteKey.bytes
  let address ← parse owner
  return sortedMap [("encryption_key", encryption), ("note_key", note), ("owner", .address address)]

def Account.ofScval : ScVal → Option Account
  | .map [("encryption_key", .bytes encryptionKey), ("note_key", .bytes noteKey), ("owner", .address a)] => do
      return { owner := ← Address.ofScAddress a, encryptionKey := encryptionKey, noteKey := noteKey }
  | _ => none

section Encoding

variable {parse : AddressParser} {text : String} {address : ScAddress} {owner : Address}
    {encryptionKey noteKey : Prover.Key}

theorem length_key_lt (key : Prover.Key) : key.bytes.length < 2 ^ 32 := by
  rw [key.length]
  decide

theorem registerAccountToScval_eq (parsed : parse text = .ok address) :
    registerAccountToScval parse text encryptionKey noteKey =
      .ok (.map [("encryption_key", .bytes encryptionKey.bytes), ("note_key", .bytes noteKey.bytes),
        ("owner", .address address)]) := by
  have sorted : ["encryption_key", "note_key", "owner"].Pairwise fun a b => decide (a ≤ b) = true := by decide
  rw [registerAccountToScval, bytesToScval_eq (length_key_lt encryptionKey),
    bytesToScval_eq (length_key_lt noteKey), parsed]
  refine congrArg Except.ok (sortedMap_eq ?_)
  exact sorted

theorem ofScval_registered (host : Address.ofScAddress address = some owner) :
    Account.ofScval (.map [("encryption_key", .bytes encryptionKey.bytes), ("note_key", .bytes noteKey.bytes),
      ("owner", .address address)]) = some ⟨owner, encryptionKey.bytes, noteKey.bytes⟩ := by
  rw [Account.ofScval, host]
  rfl

theorem registered_step (s : Storage) {call : Call} (accepted : call.Accepted) :
    (step s call).registrations call.account.owner = some call.account.registration := by
  rw [step_eq]
  split
  next => exact Function.update_self _ _ _
  next same => exact not_not.mp fun other => same ⟨accepted, other⟩

/-- Whatever was registered before, the keys that an owner sends are the registered ones, and the last that the
events tell of the owner. -/
theorem registration_delivered (parsed : parse text = .ok address) (host : Address.ofScAddress address = some owner)
    {auths : List Address} (authorized : owner ∈ auths) (calls : List Call) :
    ∃ argument account, registerAccountToScval parse text encryptionKey noteKey = .ok argument ∧
      Account.ofScval argument = some account ∧
        (run (calls ++ [⟨auths, account⟩])).registrations owner = some ⟨encryptionKey.bytes, noteKey.bytes⟩ ∧
          latest (run (calls ++ [⟨auths, account⟩])).events owner = some ⟨encryptionKey.bytes, noteKey.bytes⟩ := by
  refine ⟨_, _, registerAccountToScval_eq parsed, ofScval_registered host, ?_⟩
  have accepted : Call.Accepted ⟨auths, ⟨owner, encryptionKey.bytes, noteKey.bytes⟩⟩ :=
    ⟨authorized, encryptionKey.length, noteKey.length⟩
  have registered := registered_step (run calls) accepted
  rw [← run_concat] at registered
  refine ⟨registered, ?_⟩
  rw [← (books_run _).latest]
  exact registered

theorem length_replicated (byte : UInt8) : (List.replicate 32 byte).length = 32 := List.length_replicate

def replicatedKey (byte : UInt8) : Prover.Key where
  bytes := List.replicate 32 byte
  length := length_replicated byte

/-- The owner of the account 2 had registered the two keys the other way round. -/
theorem registration_delivered_again :
    let ownerText := "GAAAAAAAAAAAAAAAAAAAAAAAAAAAAAAAAAAAAAAAAAAAAAAAAAAAEGWF"
    let earlier : Call := ⟨[⟨4⟩], ⟨⟨4⟩, (replicatedKey 6).bytes, (replicatedKey 5).bytes⟩⟩
    ∃ argument account,
      registerAccountToScval (parserOf ownerText (.account 2)) ownerText (replicatedKey 5)
        (replicatedKey 6) = .ok argument ∧
        Account.ofScval argument = some account ∧
          (run ([earlier] ++ [⟨[⟨4⟩], account⟩])).registrations ⟨4⟩ =
            some ⟨(replicatedKey 5).bytes, (replicatedKey 6).bytes⟩ ∧
          latest (run ([earlier] ++ [⟨[⟨4⟩], account⟩])).events ⟨4⟩ =
            some ⟨(replicatedKey 5).bytes, (replicatedKey 6).bytes⟩ :=
  registration_delivered (parserOf_self _ _) rfl (List.mem_singleton_self _) _

end Encoding

end PrivatePayments.Registry
