import PrivatePayments.Stellar.AuthBinding

/-!
The signatures in a signed transaction are over what the network recomputes from its entries.
-/

namespace PrivatePayments.Stellar
open Bn254 Soroban Library

variable {ι α : Type} (X : Codec ι α)

/-- The preimage of an entry as it stands, with its own nonce, ledger and invocation. -/
def recomputedPreimage (networkPassphrase : String) (entry : SorobanAuthorizationEntry ι α) :
    Option (HashIdPreimage ι) :=
  match entry.credentials with
  | .sourceAccount => none
  | .address creds => some {
      networkId := networkId X networkPassphrase
      nonce := creds.nonce
      signatureExpirationLedger := creds.signatureExpirationLedger
      invocation := entry.rootInvocation
    }

theorem recomputed_signedWith {networkPassphrase : String} {expiration : BitVec 32} {publicKey : U256}
    {signature : Signature} {creds : SorobanAddressCredentials α} {entry : SorobanAuthorizationEntry ι α}
    {preimage : HashIdPreimage ι} (credentials : entry.credentials = .address creds)
    (listed : sorobanAuthPreimage X entry networkPassphrase expiration = .ok preimage) :
    recomputedPreimage X networkPassphrase (signedWith publicKey expiration signature creds entry) = some preimage := by
  rw [sorobanAuthPreimage, credentials] at listed
  cases listed
  rfl

/-- An entry and what it is patched to: a signature is the last one given for the entry and over
its recomputed preimage. -/
def Patched (signs : HashIdPreimage ι → Signature → Prop) (networkPassphrase userAddress : String) (publicKey : U256)
    (expiration : BitVec 32) (authSignatures : List (Nat × Signature)) (item : SorobanAuthorizationEntry ι α × Nat)
    (after : SorobanAuthorizationEntry ι α) : Prop :=
  if isWallets X userAddress item.1 then ∃ creds signature preimage, item.1.credentials = .address creds ∧
    authSignatures.reverse.lookup item.2 = some signature ∧
    after = signedWith publicKey expiration signature creds item.1 ∧
    recomputedPreimage X networkPassphrase after = some preimage ∧ signs preimage signature
  else after = item.1

section Run

variable {prepared : PreparedSorobanTx} {networkPassphrase userAddress : String} {steps : List (AuthSignStep ι)}
  {authSignatures : List (Nat × Signature)}

theorem authSignSteps_ok (listed : authSignSteps X prepared networkPassphrase userAddress = .ok steps) :
    ∃ entries, Decodes X prepared.authEntries entries ∧ List.Forall₂
      (StepFor X networkPassphrase (authExpirationLedger prepared)) (walletEntries X userAddress 0 entries) steps := by
  obtain ⟨entries, decodes, added, same, steps_for⟩ := collectSteps_ok X listed
  rw [List.nil_append] at same
  exact ⟨entries, decodes, same ▸ steps_for⟩

theorem StepFor.indices {expiration : BitVec 32} {items : List (SorobanAuthorizationEntry ι α × Nat)}
    {steps : List (AuthSignStep ι)} (listed : List.Forall₂ (StepFor X networkPassphrase expiration) items steps) :
    steps.map AuthSignStep.entryIndex = items.map Prod.snd := by
  induction listed with
  | nil => rfl
  | cons head _ ih => rw [List.map_cons, List.map_cons, head.1, ih]

/-- What a call that hands out a transaction has done with the entries and the signatures. -/
theorem unsignedTxForSigning_ok {txXdr : String}
    (run : unsignedTxForSigning X prepared userAddress authSignatures = .ok txXdr) :
    ∃ publicKey entries s, X.parsePublicKey userAddress = some publicKey ∧ Decodes X prepared.authEntries entries ∧
      Signs X userAddress publicKey (authExpirationLedger prepared) 0
        { sigsByIndex := collectSignatures authSignatures, needsPatch := false, signedAuth := [] } entries s ∧
      s.sigsByIndex = [] ∧ HandsOut X prepared (s.needsPatch = true) s.signedAuth txXdr := by
  obtain ⟨publicKey, parsed, run⟩ := of_bind_ok run
  obtain ⟨s, loop, run⟩ := of_bind_ok run
  obtain ⟨entries, decodes, signs⟩ := signEntries_ok X loop
  obtain ⟨used, out⟩ := attachSigned_ok X run
  exact ⟨publicKey, entries, s, context_ok.mp parsed, decodes, signs, used, out⟩

theorem walletEntries_ne_nil {k : Nat} {entries : List (SorobanAuthorizationEntry ι α)} :
    walletEntries X userAddress k entries ≠ [] ↔ ∃ entry ∈ entries, isWallets X userAddress entry = true := by
  constructor
  · intro some_
    obtain ⟨item, among⟩ := List.exists_mem_of_ne_nil _ some_
    obtain ⟨here, wallets⟩ := List.mem_filter.mp among
    exact ⟨item.1, List.fst_mem_of_mem_zipIdx here, wallets⟩
  · rintro ⟨entry, mem, wallets⟩ none
    obtain ⟨i, inside, same⟩ := List.mem_iff_getElem.mp mem
    have here : (entry, k + i) ∈ entries.zipIdx k := by
      rw [List.mk_add_mem_zipIdx_iff_getElem?, List.getElem?_eq_getElem inside, same]
    have among : (entry, k + i) ∈ walletEntries X userAddress k entries := List.mem_filter.mpr ⟨here, wallets⟩
    rw [none] at among
    cases among

/-- What the loop makes of a wallet's entry is signed over the preimage that was listed for it. -/
theorem EntryAfter.patched {signs : HashIdPreimage ι → Signature → Prop} {publicKey : U256} {expiration : BitVec 32}
    {entries : List (SorobanAuthorizationEntry ι α)}
    (steps_for : List.Forall₂ (StepFor X networkPassphrase expiration) (walletEntries X userAddress 0 entries) steps)
    (genuine : ∀ step ∈ steps, ∀ signature, (step.entryIndex, signature) ∈ authSignatures →
      signs step.preimage signature)
    {item : SorobanAuthorizationEntry ι α × Nat} (among : item ∈ entries.zipIdx)
    {entry' : SorobanAuthorizationEntry ι α}
    (after : EntryAfter X userAddress publicKey expiration (collectSignatures authSignatures) item entry') :
    Patched X signs networkPassphrase userAddress publicKey expiration authSignatures item entry' := by
  unfold EntryAfter at after
  unfold Patched
  split at after
  next wallets =>
    obtain ⟨creds, signature, credentials, found, rfl⟩ := after
    rw [lookup_collectSignatures] at found
    obtain ⟨step, mem, index, preimage⟩ := exists_partner steps_for (List.mem_filter.mpr ⟨among, wallets⟩)
    have given : (step.entryIndex, signature) ∈ authSignatures := by
      rw [index]
      exact List.mem_reverse.mp (mem_of_lookup found)
    rw [if_pos wallets]
    exact ⟨creds, signature, step.preimage, credentials, found, rfl, recomputed_signedWith X credentials preimage,
      genuine step mem signature given⟩
  next others => rwa [if_neg others]

theorem signature_of_step (listed : authSignSteps X prepared networkPassphrase userAddress = .ok steps) {txXdr : String}
    (run : unsignedTxForSigning X prepared userAddress authSignatures = .ok txXdr) {step : AuthSignStep ι}
    (mem : step ∈ steps) : ∃ signature, (step.entryIndex, signature) ∈ authSignatures := by
  obtain ⟨entries, decodes, steps_for⟩ := authSignSteps_ok X listed
  obtain ⟨publicKey, entries', s, -, decodes', ⟨⟨added, -, after⟩, -, -⟩, -⟩ := unsignedTxForSigning_ok X run
  cases decodes.unique X decodes'
  have index : step.entryIndex ∈ (walletEntries X userAddress 0 entries).map Prod.snd := by
    rw [← StepFor.indices X steps_for]
    exact List.mem_map_of_mem mem
  obtain ⟨item, among, same⟩ := List.mem_map.mp index
  obtain ⟨here, wallets⟩ := List.mem_filter.mp among
  obtain ⟨patched, -, entry_after⟩ := exists_partner after here
  rw [EntryAfter, if_pos wallets] at entry_after
  obtain ⟨-, signature, -, found, -⟩ := entry_after
  rw [lookup_collectSignatures] at found
  exact ⟨signature, same ▸ List.mem_reverse.mp (mem_of_lookup found)⟩

theorem step_of_signature (listed : authSignSteps X prepared networkPassphrase userAddress = .ok steps) {txXdr : String}
    (run : unsignedTxForSigning X prepared userAddress authSignatures = .ok txXdr) {sig : Nat × Signature}
    (given : sig ∈ authSignatures) : ∃ step ∈ steps, step.entryIndex = sig.1 := by
  obtain ⟨entries, decodes, steps_for⟩ := authSignSteps_ok X listed
  obtain ⟨publicKey, entries', s, -, decodes', ⟨-, -, left⟩, used, -⟩ := unsignedTxForSigning_ok X run
  cases decodes.unique X decodes'
  by_contra unlisted
  have index : sig.1 ∉ (walletEntries X userAddress 0 entries).map Prod.snd := by
    rw [← StepFor.indices X steps_for]
    intro mem
    obtain ⟨step, among, same⟩ := List.mem_map.mp mem
    exact unlisted ⟨step, among, same⟩
  have absent : (collectSignatures authSignatures).lookup sig.1 = none := by
    rw [← lookup_filter (fun index => decide (index ∉ (walletEntries X userAddress 0 entries).map Prod.snd)) sig.1
      (by simpa using index), ← left, used]
    rfl
  rw [lookup_collectSignatures] at absent
  exact lookup_eq_none.mp absent sig.2 (List.mem_reverse.mpr given)

end Run

/-- Signing keeps the authorization meaningful. Whatever entries a transaction was prepared with and
whatever signatures the wallet gave for the listed steps: in a transaction handed out, each entry of
the wallet carries the last signature given for its index, over the preimage recomputed from the
entry as it now stands, and every other entry is as it was. A step without a signature and a
signature without a step are refused. -/
theorem auth_signatures_bound (signs : HashIdPreimage ι → Signature → Prop) {prepared : PreparedSorobanTx}
    {networkPassphrase userAddress : String} {steps : List (AuthSignStep ι)} {authSignatures : List (Nat × Signature)}
    (listed : authSignSteps X prepared networkPassphrase userAddress = .ok steps)
    (genuine : ∀ step ∈ steps, ∀ signature, (step.entryIndex, signature) ∈ authSignatures →
      signs step.preimage signature) :
    (∀ txXdr, unsignedTxForSigning X prepared userAddress authSignatures = .ok txXdr →
      ∃ publicKey entries signedAuth, X.parsePublicKey userAddress = some publicKey ∧
        Decodes X prepared.authEntries entries ∧
        List.Forall₂ (Patched X signs networkPassphrase userAddress publicKey (authExpirationLedger prepared)
          authSignatures) entries.zipIdx signedAuth ∧
        HandsOut X prepared (∃ entry ∈ entries, isWallets X userAddress entry = true) signedAuth txXdr) ∧
    (∀ step ∈ steps, (∀ signature, (step.entryIndex, signature) ∉ authSignatures) →
      ∃ e, unsignedTxForSigning X prepared userAddress authSignatures = .error e) ∧
    (∀ sig ∈ authSignatures, (∀ step ∈ steps, step.entryIndex ≠ sig.1) →
      ∃ e, unsignedTxForSigning X prepared userAddress authSignatures = .error e) := by
  refine ⟨?_, ?_, ?_⟩
  · intro txXdr run
    obtain ⟨entries, decodes, steps_for⟩ := authSignSteps_ok X listed
    obtain ⟨publicKey, entries', s, parsed, decodes', ⟨⟨added, signed, after⟩, patch, -⟩, -, out⟩ :=
      unsignedTxForSigning_ok X run
    cases decodes.unique X decodes'
    refine ⟨publicKey, entries, added, parsed, decodes, ?_, ?_⟩
    · have whole := (List.forall₂_and_left entries.zipIdx added).mpr ⟨fun item among => among, after⟩
      apply whole.imp
      intro item entry' ⟨among, after⟩
      exact after.patched X steps_for genuine among
    · rw [signed, List.nil_append] at out
      have patches := patch.trans (or_iff_right Bool.false_ne_true)
      rwa [patches, walletEntries_ne_nil] at out
  · intro step mem missing
    cases run : unsignedTxForSigning X prepared userAddress authSignatures with
    | error e => exact ⟨e, rfl⟩
    | ok txXdr =>
      obtain ⟨signature, given⟩ := signature_of_step X listed run mem
      exact absurd given (missing signature)
  · intro sig given surplus
    cases run : unsignedTxForSigning X prepared userAddress authSignatures with
    | error e => exact ⟨e, rfl⟩
    | ok txXdr =>
      obtain ⟨step, mem, same⟩ := step_of_signature X listed run given
      exact absurd same (surplus step mem)

section Transact

abbrev Call := ScAddress × String

def poolCall : Call :=
  (.contract 0x0202020202020202020202020202020202020202020202020202020202020202, "transact")

/-- An account with a key of 7s. -/
def walletKey : U256 :=
  0x0707070707070707070707070707070707070707070707070707070707070707

def walletAddress : String :=
  "GADQOBYHA4DQOBYHA4DQOBYHA4DQOBYHA4DQOBYHA4DQOBYHA4DQOZPI"

def walletEntry : SorobanAuthorizationEntry Call String where
  credentials := .address {
    address := .account walletKey
    nonce := 5
    signatureExpirationLedger := 0
    signature := .void
  }
  rootInvocation := poolCall

def sourceEntry : SorobanAuthorizationEntry Call String where
  credentials := .sourceAccount
  rootInvocation := poolCall

def walletEntryXdr : String :=
  "AAAAAQAAAAAAAAAABwcHBwcHBwcHBwcHBwcHBwcHBwcHBwcHBwcHBwcHBwcAAAAAAAAABQAAAAAAAAABAAAAAAAAAAECAgICAgICAgICAgICAgICAgICAgICAgICAgICAgICAgAAAAh0cmFuc2FjdAAAAAAAAAAA"

def sourceEntryXdr : String :=
  "AAAAAAAAAAAAAAABAgICAgICAgICAgICAgICAgICAgICAgICAgICAgICAgIAAAAIdHJhbnNhY3QAAAAAAAAAAA=="

def transactTxXdr : String :=
  "AAAAAgAAAAAHBwcHBwcHBwcHBwcHBwcHBwcHBwcHBwcHBwcHBwcHBwAAAGQAAAAAAAAAAQAAAAAAAAAAAAAAAQAAAAAAAAAYAAAA" ++
    "AAAAAAECAgICAgICAgICAgICAgICAgICAgICAgICAgICAgICAgAAAAh0cmFuc2FjdAAAAAAAAAACAAAAAQAAAAAAAAAABwcHBwcH" ++
    "BwcHBwcHBwcHBwcHBwcHBwcHBwcHBwcHBwcAAAAAAAAABQAAAAAAAAABAAAAAAAAAAECAgICAgICAgICAgICAgICAgICAgICAgIC" ++
    "AgICAgICAgAAAAh0cmFuc2FjdAAAAAAAAAAAAAAAAAAAAAAAAAABAgICAgICAgICAgICAgICAgICAgICAgICAgICAgICAgIAAAAI" ++
    "dHJhbnNhY3QAAAAAAAAAAAAAAAEAAAAAAAAAAAAAAAAAAAAAAAAAAAAAAAAAAAAAAAAAAAAAAAA="

/-- The transaction with a signature of 9s in the first entry, valid up to ledger 1100. -/
def signedTxXdr : String :=
  "AAAAAgAAAAAHBwcHBwcHBwcHBwcHBwcHBwcHBwcHBwcHBwcHBwcHBwAAAGQAAAAAAAAAAQAAAAAAAAAAAAAAAQAAAAAAAAAYAAAA" ++
    "AAAAAAECAgICAgICAgICAgICAgICAgICAgICAgICAgICAgICAgAAAAh0cmFuc2FjdAAAAAAAAAACAAAAAQAAAAAAAAAABwcHBwcH" ++
    "BwcHBwcHBwcHBwcHBwcHBwcHBwcHBwcHBwcAAAAAAAAABQAABEwAAAAQAAAAAQAAAAEAAAARAAAAAQAAAAIAAAAPAAAACnB1Ymxp" ++
    "Y19rZXkAAAAAAA0AAAAgBwcHBwcHBwcHBwcHBwcHBwcHBwcHBwcHBwcHBwcHBwcAAAAPAAAACXNpZ25hdHVyZQAAAAAAAA0AAABA" ++
    "CQkJCQkJCQkJCQkJCQkJCQkJCQkJCQkJCQkJCQkJCQkJCQkJCQkJCQkJCQkJCQkJCQkJCQkJCQkJCQkJCQkJCQAAAAAAAAABAgIC" ++
    "AgICAgICAgICAgICAgICAgICAgICAgICAgICAgIAAAAIdHJhbnNhY3QAAAAAAAAAAAAAAAAAAAAAAAAAAQICAgICAgICAgICAgIC" ++
    "AgICAgICAgICAgICAgICAgICAAAACHRyYW5zYWN0AAAAAAAAAAAAAAABAAAAAAAAAAAAAAAAAAAAAAAAAAAAAAAAAAAAAAAAAAAA" ++
    "AAAA"

def transactEnvelope : TransactionEnvelope Call String :=
  .tx
    [{
      sourceAccount := "AAAAAA=="
      body := .invokeHostFunction
        "AAAAAAAAAAECAgICAgICAgICAgICAgICAgICAgICAgICAgICAgICAgAAAAh0cmFuc2FjdAAAAAA="
        [walletEntry, sourceEntry] }]
    "AAAAAAcHBwcHBwcHBwcHBwcHBwcHBwcHBwcHBwcHBwcHBwcHAAAAZAAAAAAAAAABAAAAAAAAAAAAAAABAAAAAAAAAAAAAAAAAAAAAAAAAAAAAAAAAAAAAAAAAAAAAAAA"

def preparedTransact : PreparedSorobanTx where
  txXdr := transactTxXdr
  authEntries := [walletEntryXdr, sourceEntryXdr]
  latestLedger := 1000

def transactCodec : Codec Call String where
  entryFromXdrBase64 := fun text =>
    if text = walletEntryXdr then some walletEntry
    else if text = sourceEntryXdr then some sourceEntry
    else none
  envelopeFromXdrBase64 := fun text => if text = transactTxXdr then some transactEnvelope else none
  envelopeToXdrBase64 := fun envelope =>
    match envelope with
    | .tx [⟨_, .invokeHostFunction _ [⟨.address ⟨_, _, _, .vec _⟩, _⟩, _]⟩] _ => some signedTxXdr
    | _ => none
  accountText := fun _ => walletAddress
  contractText := fun _ =>
    "CABAEAQCAIBAEAQCAIBAEAQCAIBAEAQCAIBAEAQCAIBAEAQCAIBAFNSZ"
  parsePublicKey := fun text => if text = walletAddress then some walletKey else none
  sha256 := fun _ =>
    0xcee0302d59844d32bdca915c8203dd44b33fbb7edc19051ea37abedf28ecd472

def testnet : String := "Test SDF Network ; September 2015"

def repeated (byte : BitVec 8) : Signature := byte.replicate 64

def walletStep : AuthSignStep Call where
  entryIndex := 0
  preimage := {
    networkId := networkId transactCodec testnet
    nonce := 5
    signatureExpirationLedger := 1100
    invocation := poolCall
  }

theorem sourceEntryXdr_ne : sourceEntryXdr ≠ walletEntryXdr := by
  simp [sourceEntryXdr, walletEntryXdr]

theorem decode_walletEntry : transactCodec.entryFromXdrBase64 walletEntryXdr = some walletEntry := by
  simp only [transactCodec, if_true]

theorem decode_sourceEntry : transactCodec.entryFromXdrBase64 sourceEntryXdr = some sourceEntry := by
  simp only [transactCodec, sourceEntryXdr_ne, if_true, if_false]

theorem entries_transact : preparedTransact.authEntries.zipIdx = [(walletEntryXdr, 0), (sourceEntryXdr, 1)] :=
  rfl

theorem ledger_transact : authExpirationLedger preparedTransact = 1100 := by
  decide

theorem walletEntry_needs : needsWalletAuth transactCodec walletEntry walletAddress = .ok true :=
  congrArg Except.ok (beq_self_eq_true walletAddress)

theorem listed_transact : authSignSteps transactCodec preparedTransact testnet walletAddress = .ok [walletStep] := by
  have first : collectStep transactCodec testnet walletAddress 1100 [] (walletEntryXdr, 0) = .ok [walletStep] := by
    exact bind_ok_iff.mpr ⟨walletEntry, context_ok.mpr decode_walletEntry,
      bind_ok_iff.mpr ⟨true, walletEntry_needs, rfl⟩⟩
  have second : collectStep transactCodec testnet walletAddress 1100 [walletStep] (sourceEntryXdr, 1) =
      .ok [walletStep] := by
    exact bind_ok_iff.mpr ⟨sourceEntry, context_ok.mpr decode_sourceEntry, rfl⟩
  rw [authSignSteps, ledger_transact, entries_transact, List.foldlM_cons]
  exact bind_ok_iff.mpr ⟨_, first, bind_ok_iff.mpr ⟨_, second, rfl⟩⟩

def signedEntry : SorobanAuthorizationEntry Call String where
  credentials := .address {
    address := .account walletKey
    nonce := 5
    signatureExpirationLedger := 1100
    signature := addressCredentialsSignature walletKey (repeated 9)
  }
  rootInvocation := poolCall

/-- Signed with one signature of 9s under the index 0, whatever came under it before. -/
theorem handedOut_transact {authSignatures : List (Nat × Signature)}
    (collected : collectSignatures authSignatures = [(0, repeated 9)]) :
    unsignedTxForSigning transactCodec preparedTransact walletAddress authSignatures = .ok signedTxXdr := by
  have first : signEntry transactCodec walletAddress walletKey 1100
      { sigsByIndex := [(0, repeated 9)], needsPatch := false, signedAuth := [] } (walletEntryXdr, 0) =
      .ok { sigsByIndex := [], needsPatch := true, signedAuth := [signedEntry] } := by
    exact bind_ok_iff.mpr ⟨walletEntry, context_ok.mpr decode_walletEntry,
      bind_ok_iff.mpr ⟨true, walletEntry_needs, rfl⟩⟩
  have second : signEntry transactCodec walletAddress walletKey 1100
      { sigsByIndex := [], needsPatch := true, signedAuth := [signedEntry] } (sourceEntryXdr, 1) =
      .ok { sigsByIndex := [], needsPatch := true, signedAuth := [signedEntry, sourceEntry] } := by
    exact bind_ok_iff.mpr ⟨sourceEntry, context_ok.mpr decode_sourceEntry, rfl⟩
  have attached : attachSigned transactCodec preparedTransact
      { sigsByIndex := [], needsPatch := true, signedAuth := [signedEntry, sourceEntry] } = .ok signedTxXdr := by
    have decoded : transactCodec.envelopeFromXdrBase64 preparedTransact.txXdr = some transactEnvelope := by
      simp only [transactCodec, preparedTransact, if_true]
    exact bind_ok_iff.mpr ⟨transactEnvelope, context_ok.mpr decoded, rfl⟩
  have parsed : transactCodec.parsePublicKey walletAddress = some walletKey := by
    simp only [transactCodec, if_true]
  rw [unsignedTxForSigning, parsed, collected, ledger_transact, entries_transact]
  refine bind_ok_iff.mpr ⟨walletKey, rfl, bind_ok_iff.mpr ⟨_, ?_, attached⟩⟩
  rw [List.foldlM_cons]
  exact bind_ok_iff.mpr ⟨_, first, bind_ok_iff.mpr ⟨_, second, rfl⟩⟩

theorem auth_signatures_bound_transact : ∃ publicKey entries signedAuth,
    transactCodec.parsePublicKey walletAddress = some publicKey ∧
    Decodes transactCodec [walletEntryXdr, sourceEntryXdr] entries ∧
    List.Forall₂ (Patched transactCodec (fun preimage signature => preimage = walletStep.preimage ∧
      signature = repeated 9) testnet walletAddress publicKey 1100 [(0, repeated 9)]) entries.zipIdx signedAuth ∧
    HandsOut transactCodec preparedTransact (∃ entry ∈ entries, isWallets transactCodec walletAddress entry = true)
      signedAuth signedTxXdr := by
  have genuine : ∀ step ∈ [walletStep], ∀ signature, (step.entryIndex, signature) ∈ [(0, repeated 9)] →
      step.preimage = walletStep.preimage ∧ signature = repeated 9 := by
    intro step mem signature given
    cases List.mem_singleton.mp mem
    cases List.mem_singleton.mp given
    exact ⟨rfl, rfl⟩
  exact (auth_signatures_bound transactCodec (fun preimage signature => preimage = walletStep.preimage ∧
    signature = repeated 9) listed_transact genuine).1 signedTxXdr (handedOut_transact rfl)

/-- Of two signatures for the one listed entry the first is dropped without notice. -/
theorem surplus_signature_accepted :
    authSignSteps transactCodec preparedTransact testnet walletAddress = .ok [walletStep] ∧
      unsignedTxForSigning transactCodec preparedTransact walletAddress [(0, repeated 8), (0, repeated 9)] =
        .ok signedTxXdr :=
  ⟨listed_transact, handedOut_transact rfl⟩

end Transact

end PrivatePayments.Stellar
