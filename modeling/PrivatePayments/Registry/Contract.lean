import Mathlib.Data.List.Chain
import Mathlib.Data.List.Induction
import Mathlib.Logic.Function.Basic
import PrivatePayments.LocalState.EventsParsers
import PrivatePayments.Soroban.Host

/-!
The registry of public keys. Owners register the keys that others need to send to them, and the client
learns them from the events.
-/

namespace PrivatePayments.Registry
open Bn254 (U256)
open Soroban (Address Env Host ScAddress)

structure Registration where
  encryptionKey : List UInt8
  noteKey : List UInt8
  deriving DecidableEq

structure Account where
  owner : Address
  encryptionKey : List UInt8
  noteKey : List UInt8
  deriving DecidableEq

def Account.registration (account : Account) : Registration where
  encryptionKey := account.encryptionKey
  noteKey := account.noteKey

/-- The persistent storage, and the events in the order of their publication; an event has the fields of an account. -/
structure Storage where
  registrations : Address → Option Registration
  events : List Account

def Storage.empty : Storage where
  registrations _ := none
  events := []

abbrev Contract := Host Storage Empty

def assertEq (left right : Nat) : Contract Unit := if left = right then pure () else throw .trap

/-- Keys that are registered already are not published again. -/
def register (auths : List Address) (account : Account) : Contract Unit := do
  Host.requireAuth auths account.owner
  assertEq account.encryptionKey.length 32
  assertEq account.noteKey.length 32
  let s ← Host.storage
  if s.registrations account.owner = some account.registration then pure ()
  else do
    Host.update fun s =>
      { s with registrations := Function.update s.registrations account.owner (some account.registration) }
    Host.update fun s => { s with events := s.events ++ [account] }

structure Call where
  auths : List Address
  account : Account

/-- The contract asks for no Poseidon2 hash. -/
def step (s : Storage) (call : Call) : Storage :=
  (Host.invoke (register call.auths call.account) { storage := s, hashed := [] }).storage

def run (calls : List Call) : Storage := calls.foldl step .empty

theorem run_concat (calls : List Call) (call : Call) : run (calls ++ [call]) = step (run calls) call := by
  unfold run
  rw [List.foldl_append]
  rfl

def latest (events : List Account) (owner : Address) : Option Registration :=
  ((events.filter fun account => account.owner = owner).getLast?).map Account.registration

structure Call.Accepted (call : Call) : Prop where
  authorized : call.account.owner ∈ call.auths
  encryptionKey : call.account.encryptionKey.length = 32
  noteKey : call.account.noteKey.length = 32

theorem accepted_iff {call : Call} : call.Accepted ↔ call.account.owner ∈ call.auths ∧
    call.account.encryptionKey.length = 32 ∧ call.account.noteKey.length = 32 :=
  ⟨fun accepted => ⟨accepted.authorized, accepted.encryptionKey, accepted.noteKey⟩,
    fun whole => ⟨whole.1, whole.2.1, whole.2.2⟩⟩

instance (call : Call) : Decidable call.Accepted := decidable_of_iff _ accepted_iff.symm

def Storage.filed (s : Storage) (account : Account) : Storage where
  registrations := Function.update s.registrations account.owner (some account.registration)
  events := s.events ++ [account]

theorem run_assertEq_ok {left right : Nat} (same : left = right) (env : Env Storage) :
    (assertEq left right).run env = .ok ((), env) := by
  rw [assertEq, if_pos same]
  rfl

theorem run_assertEq_trap {left right : Nat} (other : left ≠ right) (env : Env Storage) :
    (assertEq left right).run env = .error .trap := by
  rw [assertEq, if_neg other]
  rfl

theorem run_register {call : Call} (accepted : call.Accepted) (env : Env Storage) :
    (register call.auths call.account).run env =
      if env.storage.registrations call.account.owner = some call.account.registration then .ok ((), env)
      else .ok ((), env.update fun s => s.filed call.account) := by
  rw [register, Host.run_bind_ok (Host.run_requireAuth_ok accepted.authorized env),
    Host.run_bind_ok (run_assertEq_ok accepted.encryptionKey env),
      Host.run_bind_ok (run_assertEq_ok accepted.noteKey env),
    Host.run_bind_ok (Host.run_storage env)]
  split
  · rfl
  · rfl

theorem run_register_trap {call : Call} (refused : ¬call.Accepted) (env : Env Storage) :
    (register call.auths call.account).run env = .error .trap := by
  rw [register]
  by_cases authorized : call.account.owner ∈ call.auths
  · rw [Host.run_bind_ok (Host.run_requireAuth_ok authorized env)]
    by_cases encryption : call.account.encryptionKey.length = 32
    · rw [Host.run_bind_ok (run_assertEq_ok encryption env)]
      apply Host.run_bind_error
      exact run_assertEq_trap (fun note => refused ⟨authorized, encryption, note⟩) env
    · exact Host.run_bind_error (run_assertEq_trap encryption env)
  · exact Host.run_bind_error (Host.run_requireAuth_trap authorized env)

theorem step_eq (s : Storage) (call : Call) : step s call =
    if call.Accepted ∧ s.registrations call.account.owner ≠ some call.account.registration then s.filed call.account
    else s := by
  rw [step, Host.invoke]
  by_cases accepted : call.Accepted
  · rw [run_register accepted]
    by_cases known : s.registrations call.account.owner = some call.account.registration
    · rw [if_pos known, if_neg fun new => new.2 known]
    · rw [if_neg known, if_pos ⟨accepted, known⟩]
      rfl
  · rw [run_register_trap accepted, if_neg fun new => accepted new.1]

structure Books (calls : List Call) (s : Storage) : Prop where
  latest : ∀ owner, s.registrations owner = latest s.events owner
  changed : ∀ owner, (s.events.filter fun account => account.owner = owner).IsChain fun earlier later =>
    earlier.registration ≠ later.registration
  asked : ∀ account ∈ s.events, ∃ call ∈ calls, call.account = account ∧ call.Accepted

theorem latest_append (events : List Account) (account : Account) (owner : Address) :
    latest (events ++ [account]) owner = if account.owner = owner then some account.registration
      else latest events owner := by
  unfold latest
  rw [List.filter_append, List.filter_singleton]
  by_cases own : account.owner = owner
  · rw [decide_eq_true own, if_pos own, cond_true, List.getLast?_append, List.getLast?_singleton]
    rfl
  · rw [decide_eq_false own, if_neg own, cond_false, List.append_nil]

theorem Books.more {calls : List Call} {s : Storage} (books : Books calls s) (call : Call) :
    Books (calls ++ [call]) s where
  latest := books.latest
  changed := books.changed
  asked account published := by
    obtain ⟨earlier, inside, asked⟩ := books.asked account published
    exact ⟨earlier, List.mem_append_left _ inside, asked⟩

theorem Books.filed {calls : List Call} {s : Storage} (books : Books calls s) {call : Call} (accepted : call.Accepted)
    (new : s.registrations call.account.owner ≠ some call.account.registration) :
    Books (calls ++ [call]) (s.filed call.account) where
  latest owner := by
    change Function.update s.registrations call.account.owner (some call.account.registration) owner =
      Registry.latest (s.events ++ [call.account]) owner
    rw [latest_append, Function.update_apply, books.latest]
    by_cases own : owner = call.account.owner
    · rw [if_pos own, if_pos own.symm]
    · rw [if_neg own, if_neg (Ne.symm own)]
  changed owner := by
    rw [Storage.filed, List.filter_append, List.filter_singleton]
    by_cases own : call.account.owner = owner
    · rw [decide_eq_true own, cond_true, List.isChain_append]
      refine ⟨books.changed owner, List.isChain_singleton _, fun last isLast account isAccount => ?_⟩
      obtain rfl : call.account = account := Option.some.inj isAccount
      -- the last published keys are the registered ones
      intro same
      apply new
      rw [books.latest, Registry.latest, own, Option.mem_def.mp isLast, Option.map_some, same]
    · rw [decide_eq_false own, cond_false, List.append_nil]
      exact books.changed owner
  asked account published := by
    rcases List.mem_append.mp published with old | fresh
    · exact (books.more call).asked account old
    · obtain rfl := List.mem_singleton.mp fresh
      exact ⟨call, List.mem_append_right _ (List.mem_singleton_self _), rfl, accepted⟩

theorem Books.step {calls : List Call} {s : Storage} (books : Books calls s) (call : Call) :
    Books (calls ++ [call]) (step s call) := by
  rw [step_eq]
  split
  next new => exact books.filed new.1 new.2
  next => exact books.more call

theorem books_run (calls : List Call) : Books calls (run calls) := by
  induction calls using List.reverseRecOn with
  | nil =>
    exact
      { latest := fun _ => rfl
        changed := fun _ => .nil
        asked := fun _ none => absurd none List.not_mem_nil }
  | append_singleton calls call ih =>
    rw [run_concat]
    exact ih.step call

section Client

open LocalState (Codec ParsedContractEvent parsePublicKeyEvent)

/-- How addresses are told: contracts and accounts by their bytes. -/
structure Naming where
  isContract : Address → Bool
  bytes : Address → U256

variable (C : Codec) (N : Naming)

def Naming.scAddress (a : Address) : ScAddress :=
  if N.isContract a then .contract (N.bytes a) else .account (N.bytes a)

def Naming.text (a : Address) : String := if N.isContract a then C.contractText (N.bytes a)
    else C.accountText (N.bytes a)

/-- The event as the client decodes it: the owner is its topic. -/
def Naming.told (id : String) (account : Account) : ParsedContractEvent where
  id := id
  name := "public_key_event"
  topics := [.address (N.scAddress account.owner)]
  values := [("encryption_key", .bytes account.encryptionKey), ("note_key", .bytes account.noteKey)]

theorem scvalToAddressString_scAddress (a : Address) :
    LocalState.scvalToAddressString C (.address (N.scAddress a)) = .ok (N.text C a) := by
  unfold Naming.scAddress Naming.text
  split
  · rfl
  · rfl

theorem parse_told (id : String) {account : Account} (encryption : account.encryptionKey.length = 32)
    (note : account.noteKey.length = 32) : parsePublicKeyEvent (N.told id account) C =
      .ok ⟨id, N.text C account.owner, account.encryptionKey, account.noteKey⟩ := by
  have owner := scvalToAddressString_scAddress C N account.owner
  have first : LocalState.tryIntoKey account.encryptionKey = .ok account.encryptionKey :=
      if_neg (not_not.mpr encryption)
  have second : LocalState.tryIntoKey account.noteKey = .ok account.noteKey := if_neg (not_not.mpr note)
  rw [parsePublicKeyEvent]
  change (LocalState.scvalToAddressString C (.address (N.scAddress account.owner)) >>= _) = _
  rw [owner]
  change (LocalState.tryIntoKey account.encryptionKey >>= _) = _
  rw [first]
  change (LocalState.tryIntoKey account.noteKey >>= _) = _
  rw [second]
  rfl

/-- The client can read every event, and the last event of an owner has the keys that are registered: nobody else
can change them, and no event repeats the one before. -/
theorem registry_read (id : String) (calls : List Call) :
    (∀ account ∈ (run calls).events, parsePublicKeyEvent (N.told id account) C =
        .ok ⟨id, N.text C account.owner, account.encryptionKey, account.noteKey⟩) ∧ Books calls (run calls) := by
  have books := books_run calls
  refine ⟨fun account published => ?_, books⟩
  obtain ⟨call, -, rfl, accepted⟩ := books.asked account published
  exact parse_told C N id accepted.encryptionKey accepted.noteKey

end Client

end PrivatePayments.Registry
