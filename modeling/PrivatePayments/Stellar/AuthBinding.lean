import PrivatePayments.Library.Outcome
import PrivatePayments.Stellar.Signer

/-!
What signing does to the authorization entries: the entries that are listed for the wallet are
the ones that are patched, each with a signature over its own preimage.
-/

namespace PrivatePayments.Stellar
open Bn254 Soroban Library

variable {ι α : Type} (X : Codec ι α)

/-- An entry of the wallet that it has not signed yet. -/
def isWallets (userAddress : String) (entry : SorobanAuthorizationEntry ι α) : Bool :=
  match needsWalletAuth X entry userAddress with
  | .ok wallets => wallets
  | .error _ => false

theorem credentials_of_isWallets {userAddress : String} {entry : SorobanAuthorizationEntry ι α}
    (wallets : isWallets X userAddress entry = true) :
    ∃ creds, entry.credentials = .address creds ∧ creds.signature = .void ∧
      scvalToAddressString X creds.address = .ok userAddress := by
  unfold isWallets needsWalletAuth at wallets
  cases credentials : entry.credentials with
  | sourceAccount => rw [credentials] at wallets; cases wallets
  | address creds =>
    rw [credentials] at wallets
    cases signature : creds.signature with
    | void =>
      simp only [signature] at wallets
      cases text : scvalToAddressString X creds.address with
      | error e => rw [text] at wallets; cases wallets
      | ok address =>
        rw [text] at wallets
        have same : (address == userAddress) = true := wallets
        exact ⟨creds, rfl, signature, by rw [text, beq_iff_eq.mp same]⟩
    | symbol t => simp only [signature] at wallets; cases wallets
    | bytes b => simp only [signature] at wallets; cases wallets
    | vec v => simp only [signature] at wallets; cases wallets
    | map m => simp only [signature] at wallets; cases wallets
    | other o => simp only [signature] at wallets; cases wallets

/-- The wallet's entries among the entries numbered from `k` on. -/
def walletEntries (userAddress : String) (k : Nat) (entries : List (SorobanAuthorizationEntry ι α)) :
    List (SorobanAuthorizationEntry ι α × Nat) :=
  (entries.zipIdx k).filter fun item => isWallets X userAddress item.1

theorem walletEntries_singleton (userAddress : String) (k : Nat) (entry : SorobanAuthorizationEntry ι α) :
    walletEntries X userAddress k [entry] = if isWallets X userAddress entry then [(entry, k)] else [] :=
  List.filter_cons

theorem walletEntries_cons (userAddress : String) (k : Nat) (entry : SorobanAuthorizationEntry ι α)
    (entries : List (SorobanAuthorizationEntry ι α)) : walletEntries X userAddress k (entry :: entries) =
      walletEntries X userAddress k [entry] ++ walletEntries X userAddress (k + 1) entries := by
  rw [walletEntries, List.zipIdx_cons, ← List.singleton_append, List.filter_append]
  rfl

def Decodes (texts : List String) (entries : List (SorobanAuthorizationEntry ι α)) : Prop :=
  List.Forall₂ (fun text entry => X.entryFromXdrBase64 text = some entry) texts entries

theorem Decodes.unique {texts : List String} {entries entries' : List (SorobanAuthorizationEntry ι α)}
    (decodes : Decodes X texts entries) (decodes' : Decodes X texts entries') : entries = entries' := by
  induction decodes generalizing entries' with
  | nil =>
    cases decodes' with
    | nil => rfl
  | cons head _ ih =>
    cases decodes' with
    | cons head' tail' =>
      rw [head] at head'
      cases head'
      rw [ih tail']

theorem context_ok {β : Type} {e : SignError} {o : Option β} {b : β} : context e o = .ok b ↔ o = some b := by
  cases o with
  | none =>
    constructor
    · intro run
      cases run
    · intro none
      cases none
  | some b' =>
    constructor
    · intro run
      cases run
      rfl
    · intro same
      cases same
      rfl

theorem exists_partner {β γ : Type} {R : β → γ → Prop} {items : List β} {others : List γ}
    (related : List.Forall₂ R items others) {b : β} (mem : b ∈ items) : ∃ c ∈ others, R b c := by
  induction related with
  | nil => cases mem
  | cons head _ ih =>
    cases mem with
    | head => exact ⟨_, List.mem_cons_self, head⟩
    | tail _ mem =>
      obtain ⟨c, among, partner⟩ := ih mem
      exact ⟨c, List.mem_cons_of_mem _ among, partner⟩

section Steps

variable {networkPassphrase userAddress : String} {expiration : BitVec 32}

def StepFor (networkPassphrase : String) (expiration : BitVec 32) (item : SorobanAuthorizationEntry ι α × Nat)
    (step : AuthSignStep ι) : Prop :=
  step.entryIndex = item.2 ∧ sorobanAuthPreimage X item.1 networkPassphrase expiration = .ok step.preimage

theorem collectStep_ok {steps steps' : List (AuthSignStep ι)} {text : String} {k : Nat}
    (run : collectStep X networkPassphrase userAddress expiration steps (text, k) = .ok steps') :
    ∃ entry, X.entryFromXdrBase64 text = some entry ∧ ∃ added, steps' = steps ++ added ∧
      List.Forall₂ (StepFor X networkPassphrase expiration) (walletEntries X userAddress k [entry]) added := by
  obtain ⟨entry, decoded, run⟩ := of_bind_ok run
  obtain ⟨wallets, needs, run⟩ := of_bind_ok run
  have same : isWallets X userAddress entry = wallets := by rw [isWallets, needs]
  refine ⟨entry, context_ok.mp decoded, ?_⟩
  cases wallets with
  | true =>
    obtain ⟨preimage, over_, run⟩ := of_bind_ok run
    cases run
    refine ⟨[⟨k, preimage⟩], rfl, ?_⟩
    rw [walletEntries_singleton, if_pos same]
    exact .cons ⟨rfl, over_⟩ .nil
  | false =>
    cases run
    refine ⟨[], (List.append_nil _).symm, ?_⟩
    rw [walletEntries_singleton, same]
    exact .nil

theorem collectSteps_ok {steps steps' : List (AuthSignStep ι)} {texts : List String} {k : Nat}
    (run : (texts.zipIdx k).foldlM (collectStep X networkPassphrase userAddress expiration) steps = .ok steps') :
    ∃ entries, Decodes X texts entries ∧ ∃ added, steps' = steps ++ added ∧
      List.Forall₂ (StepFor X networkPassphrase expiration) (walletEntries X userAddress k entries) added := by
  induction texts generalizing steps k with
  | nil =>
    cases run
    exact ⟨[], .nil, [], (List.append_nil _).symm, .nil⟩
  | cons text texts ih =>
    rw [List.zipIdx_cons, List.foldlM_cons] at run
    obtain ⟨mid, first, run⟩ := of_bind_ok run
    obtain ⟨entry, decoded, added, rfl, head⟩ := collectStep_ok X first
    obtain ⟨entries, decodes, added', rfl, tail⟩ := ih run
    refine ⟨entry :: entries, .cons decoded decodes, added ++ added', List.append_assoc _ _ _, ?_⟩
    rw [walletEntries_cons]
    exact List.rel_append head tail

end Steps

section Signatures

theorem lookup_filter {β : Type} (keep : Nat → Bool) (j : Nat) (keeps : keep j = true) (entries : List (Nat × β)) :
    (entries.filter fun entry => keep entry.1).lookup j = entries.lookup j := by
  induction entries with
  | nil => rfl
  | cons entry entries ih =>
    obtain ⟨key, b⟩ := entry
    by_cases kept : keep key = true
    · rw [List.filter_cons_of_pos (by simpa using kept), List.lookup_cons, List.lookup_cons, ih]
    · have other : (j == key) = false := by
        apply beq_eq_false_iff_ne.mpr
        intro here
        exact kept (here ▸ keeps)
      rw [List.filter_cons_of_neg (by simpa using kept), List.lookup_cons, other, ih]

/-- The map holds under every index the last signature given for it. -/
theorem lookup_collectSignatures (sigs : List (Nat × Signature)) (i : Nat) :
    (collectSignatures sigs).lookup i = sigs.reverse.lookup i := by
  induction sigs using List.reverseRecOn with
  | nil => rfl
  | append_singleton sigs entry ih =>
    obtain ⟨key, signature⟩ := entry
    rw [collectSignatures, List.foldl_append, List.foldl_cons, List.foldl_nil, List.reverse_append,
      List.reverse_singleton, List.singleton_append, List.lookup_cons, List.lookup_cons]
    by_cases here : i = key
    · rw [beq_iff_eq.mpr here]
    · rw [beq_eq_false_iff_ne.mpr here]
      exact (lookup_filter (fun k => k ≠ key) i (by simpa using here) _).trans ih

theorem lookup_eq_none {β : Type} {entries : List (Nat × β)} {i : Nat} :
    entries.lookup i = none ↔ ∀ b, (i, b) ∉ entries := by
  induction entries with
  | nil => simp
  | cons entry entries ih =>
    obtain ⟨key, b⟩ := entry
    rw [List.lookup_cons]
    by_cases here : i = key
    · rw [beq_iff_eq.mpr here]
      refine iff_of_false (by simp) fun none => none b ?_
      rw [here]
      exact List.mem_cons_self
    · rw [beq_eq_false_iff_ne.mpr here, ih]
      simp [here]

theorem mem_of_lookup {β : Type} {entries : List (Nat × β)} {i : Nat} {b : β} (found : entries.lookup i = some b) :
    (i, b) ∈ entries := by
  induction entries with
  | nil => cases found
  | cons entry entries ih =>
    obtain ⟨key, b'⟩ := entry
    rw [List.lookup_cons] at found
    by_cases here : i = key
    · rw [beq_iff_eq.mpr here] at found
      cases found
      rw [here]
      exact List.mem_cons_self
    · rw [beq_eq_false_iff_ne.mpr here] at found
      exact List.mem_cons_of_mem _ (ih found)

end Signatures

section Patching

variable {userAddress : String} {publicKey : U256} {expiration : BitVec 32}

def signedWith (publicKey : U256) (expiration : BitVec 32) (signature : Signature) (creds : SorobanAddressCredentials α)
    (entry : SorobanAuthorizationEntry ι α) : SorobanAuthorizationEntry ι α :=
  { entry with credentials := .address { creds with
      signatureExpirationLedger := expiration
      signature := addressCredentialsSignature publicKey signature } }

/-- What the loop makes of an entry: one of the wallet gets the signature under its index. -/
def EntryAfter (userAddress : String) (publicKey : U256) (expiration : BitVec 32) (sigs : SignatureMap)
    (item : SorobanAuthorizationEntry ι α × Nat) (after : SorobanAuthorizationEntry ι α) : Prop :=
  if isWallets X userAddress item.1 then ∃ creds signature, item.1.credentials = .address creds ∧
    sigs.lookup item.2 = some signature ∧ after = signedWith publicKey expiration signature creds item.1
  else after = item.1

structure Signs (userAddress : String) (publicKey : U256) (expiration : BitVec 32) (k : Nat) (s : Signing ι α)
    (entries : List (SorobanAuthorizationEntry ι α)) (s' : Signing ι α) : Prop where
  signed : ∃ added, s'.signedAuth = s.signedAuth ++ added ∧
    List.Forall₂ (EntryAfter X userAddress publicKey expiration s.sigsByIndex) (entries.zipIdx k) added
  patch : s'.needsPatch = true ↔ s.needsPatch = true ∨ walletEntries X userAddress k entries ≠ []
  left : s'.sigsByIndex = s.sigsByIndex.filter fun sig => sig.1 ∉ (walletEntries X userAddress k entries).map Prod.snd

theorem signEntry_ok {s s' : Signing ι α} {text : String} {k : Nat}
    (run : signEntry X userAddress publicKey expiration s (text, k) = .ok s') :
    ∃ entry, X.entryFromXdrBase64 text = some entry ∧ Signs X userAddress publicKey expiration k s [entry] s' := by
  obtain ⟨entry, decoded, run⟩ := of_bind_ok run
  obtain ⟨wallets, needs, run⟩ := of_bind_ok run
  have same : isWallets X userAddress entry = wallets := by rw [isWallets, needs]
  refine ⟨entry, context_ok.mp decoded, ?_⟩
  cases wallets with
  | true =>
    obtain ⟨signature, found, run⟩ := of_bind_ok run
    obtain ⟨patched, applied, run⟩ := of_bind_ok run
    cases run
    obtain ⟨creds, credentials, void, -⟩ := credentials_of_isWallets X same
    have patches : patched = signedWith publicKey expiration signature creds entry := by
      simp only [applyAddressAuthSignature, credentials, void] at applied
      cases applied
      rfl
    refine ⟨⟨[patched], rfl, ?_⟩, ?_, ?_⟩
    · rw [List.zipIdx_singleton]
      refine .cons ?_ .nil
      rw [EntryAfter, if_pos same]
      exact ⟨creds, signature, credentials, context_ok.mp found, patches⟩
    · rw [walletEntries_singleton, if_pos same]
      simp
    · rw [walletEntries_singleton, if_pos same]
      simp
  | false =>
    cases run
    refine ⟨⟨[entry], rfl, ?_⟩, ?_, ?_⟩
    · rw [List.zipIdx_singleton]
      refine .cons ?_ .nil
      rw [EntryAfter, same]
      rfl
    · rw [walletEntries_singleton, same]
      simp
    · rw [walletEntries_singleton, same]
      simp

/-- Signing an entry leaves the signatures of the later ones. -/
theorem Signs.append {s mid s' : Signing ι α} {k : Nat} {entry : SorobanAuthorizationEntry ι α}
    {entries : List (SorobanAuthorizationEntry ι α)} (first : Signs X userAddress publicKey expiration k s [entry] mid)
    (rest : Signs X userAddress publicKey expiration (k + 1) mid entries s') :
    Signs X userAddress publicKey expiration k s (entry :: entries) s' := by
  obtain ⟨⟨added, signed, after⟩, patch, left⟩ := first
  obtain ⟨⟨added', signed', after'⟩, patch', left'⟩ := rest
  have later : ∀ item ∈ entries.zipIdx (k + 1), mid.sigsByIndex.lookup item.2 = s.sigsByIndex.lookup item.2 := by
    intro item listed
    have above : k + 1 ≤ item.2 := List.le_snd_of_mem_zipIdx listed
    rw [left]
    apply lookup_filter (fun index => decide (index ∉ (walletEntries X userAddress k [entry]).map Prod.snd))
    rw [walletEntries_singleton]
    split
    · simp
      omega
    · simp
  refine ⟨⟨added ++ added', by rw [signed', signed, List.append_assoc], ?_⟩, ?_, ?_⟩
  · rw [List.zipIdx_cons, ← List.singleton_append]
    refine List.rel_append after (((List.forall₂_and_left _ _).mpr ⟨later, after'⟩).imp ?_)
    intro item entry' ⟨same, after⟩
    rwa [EntryAfter, same] at after
  · rw [patch', patch, walletEntries_cons X userAddress k entry entries, ne_eq, ne_eq, ne_eq, List.append_eq_nil_iff]
    tauto
  · rw [left', left, walletEntries_cons X userAddress k entry entries, List.map_append, List.filter_filter]
    congr 1
    funext sig
    rw [Bool.eq_iff_iff]
    simp only [Bool.and_eq_true, decide_eq_true_eq, List.mem_append]
    tauto

theorem signEntries_ok {s s' : Signing ι α} {texts : List String} {k : Nat}
    (run : (texts.zipIdx k).foldlM (signEntry X userAddress publicKey expiration) s = .ok s') :
    ∃ entries, Decodes X texts entries ∧ Signs X userAddress publicKey expiration k s entries s' := by
  induction texts generalizing s k with
  | nil =>
    cases run
    exact ⟨[], .nil, ⟨[], (List.append_nil _).symm, .nil⟩, by simp [walletEntries], by simp [walletEntries]⟩
  | cons text texts ih =>
    rw [List.zipIdx_cons, List.foldlM_cons] at run
    obtain ⟨mid, first, run⟩ := of_bind_ok run
    obtain ⟨entry, decoded, head⟩ := signEntry_ok X first
    obtain ⟨entries, decodes, tail⟩ := ih run
    exact ⟨entry :: entries, .cons decoded decodes, head.append X tail⟩

end Patching

section Envelopes

def Operation.Reattached (signedAuth : List (SorobanAuthorizationEntry ι α)) (op op' : Operation ι α) : Prop :=
  ∃ hostFunction auth, op.body = .invokeHostFunction hostFunction auth ∧
    op' = { op with body := .invokeHostFunction hostFunction signedAuth }

def Reattached (signedAuth : List (SorobanAuthorizationEntry ι α)) (envelope envelope' : TransactionEnvelope ι α) :
    Prop :=
  ∃ before op op' behind rest, envelope = .tx (before ++ op :: behind) rest ∧
    (∀ earlier ∈ before, ∃ body, earlier.body = .other body) ∧ op.Reattached signedAuth op' ∧
    envelope' = .tx (before ++ op' :: behind) rest

theorem patchOperations_ok {signedAuth : List (SorobanAuthorizationEntry ι α)} {ops ops' : List (Operation ι α)}
    (run : patchOperations signedAuth ops = .ok ops') :
    ∃ before op op' behind, ops = before ++ op :: behind ∧ (∀ earlier ∈ before, ∃ body, earlier.body = .other body) ∧
      op.Reattached signedAuth op' ∧ ops' = before ++ op' :: behind := by
  induction ops generalizing ops' with
  | nil => cases run
  | cons op ops ih =>
    rw [patchOperations] at run
    split at run
    next hostFunction auth body =>
      split at run
      · cases run
        exact ⟨[], op, _, ops, rfl, by simp, ⟨hostFunction, auth, body, rfl⟩, rfl⟩
      · cases run
    next other body =>
      obtain ⟨patched, deeper, run⟩ := of_bind_ok run
      cases run
      obtain ⟨before, target, target', behind, rfl, earlier, reattached, rfl⟩ := ih deeper
      refine ⟨op :: before, target, target', behind, rfl, ?_, reattached, rfl⟩
      intro o listed
      cases listed with
      | head => exact ⟨other, body⟩
      | tail _ listed => exact earlier o listed

theorem patchAuthEntries_ok {signedAuth : List (SorobanAuthorizationEntry ι α)}
    {envelope envelope' : TransactionEnvelope ι α} (run : patchAuthEntries envelope signedAuth = .ok envelope') :
    Reattached signedAuth envelope envelope' := by
  cases envelope with
  | other e => cases run
  | tx operations rest =>
    obtain ⟨operations', patched, run⟩ := of_bind_ok run
    cases run
    obtain ⟨before, op, op', behind, rfl, earlier, reattached, rfl⟩ := patchOperations_ok patched
    exact ⟨before, op, op', behind, rest, rfl, earlier, reattached, rfl⟩

/-- The text handed out: the prepared one, or with the signed entries where one was signed. -/
def HandsOut (prepared : PreparedSorobanTx) (patched : Prop) (signedAuth : List (SorobanAuthorizationEntry ι α))
    (txXdr : String) : Prop :=
  (¬patched ∧ txXdr = prepared.txXdr) ∨
    (patched ∧ ∃ envelope envelope', X.envelopeFromXdrBase64 prepared.txXdr = some envelope ∧
      Reattached signedAuth envelope envelope' ∧ X.envelopeToXdrBase64 envelope' = some txXdr)

theorem attachSigned_ok {prepared : PreparedSorobanTx} {s : Signing ι α} {txXdr : String}
    (run : attachSigned X prepared s = .ok txXdr) :
    s.sigsByIndex = [] ∧ HandsOut X prepared (s.needsPatch = true) s.signedAuth txXdr := by
  rw [attachSigned] at run
  split at run
  next empty =>
    refine ⟨List.isEmpty_iff.mp empty, ?_⟩
    split at run
    next needed =>
      obtain ⟨envelope, decoded, run⟩ := of_bind_ok run
      obtain ⟨envelope', patched, run⟩ := of_bind_ok run
      exact .inr ⟨needed, envelope, envelope', context_ok.mp decoded, patchAuthEntries_ok patched,
        context_ok.mp run⟩
    next unneeded =>
      cases run
      exact .inl ⟨unneeded, rfl⟩
  next _ => cases run

end Envelopes

end PrivatePayments.Stellar
