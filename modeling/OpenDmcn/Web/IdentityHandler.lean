import OpenDmcn.Registry.Spec
import OpenDmcn.IdealRuntime

/-! Who is told a tier: the browser, through `HandleLookup` (`web/api/identity.go`), and the mail
filter of a relay, through `senderVerified` (`node.go`). A record that carries an address
credential reaches `TierDomainDNS` only with its domain behind it; one that carries none keeps
the tier its owner wrote. -/

namespace Dmcn

open Go Guard

variable {rt : Runtime}

structure IdentityHandler where
  lookup : Time → String → Except LookupError IdentityRecord
  verifyManaged : Option (Registry → Time → IdentityRecord →
    Except RegistryError VerificationTier × Registry)
  requiresOnion : Option (Registry → Time → IdentityRecord → Bool × Registry)
  resolveBridge : Option (Time → Option (Fixed 32 × String))

structure IdentityReply where
  address : String
  ed25519Pub : Bytes
  x25519Pub : Fixed 32
  fingerprint : String
  verificationTier : VerificationTier
  verifiedTier : VerificationTier
  identityUnverifiable : Bool
  requireOnion : Bool
  forwardTo : Option String

inductive LookupReply where
  | missingAddress | badGateway | notFound
  | legacy (address : String) (x25519Pub : Fixed 32) (relayHints : List String)
      (verifiedTier : VerificationTier)
  | identity (reply : IdentityReply)

namespace IdentityHandler

def verifiedTier (h : IdentityHandler) (r : Registry) (now : Time) (rec : IdentityRecord) :
    (VerificationTier × Bool) × Registry :=
  match h.verifyManaged with
  | none => ((rec.verificationTier, false), r)
  | some verifyManaged =>
    if !rec.hasAddressCredential then ((rec.verificationTier, false), r)
    else
      match verifyManaged r now rec with
      | (.error _, r) => ((tierUnverified, true), r)
      | (.ok tier, r) => ((tier, false), r)

theorem verifiedTier_uncredentialed {rec : IdentityRecord} (hnone : rec.addressCredential = none)
    {h : IdentityHandler} {r : Registry} {now : Time} :
    h.verifiedTier r now rec = ((rec.verificationTier, false), r) := by
  unfold verifiedTier
  cases h.verifyManaged with
  | none => rfl
  | some verifyManaged => simp [IdentityRecord.hasAddressCredential, hnone]

def legacyLookup (h : IdentityHandler) (now : Time) (address : String) : Option LookupReply := do
  let resolveBridge ← h.resolveBridge
  let (xPub, multiaddr) ← resolveBridge now
  return .legacy address xPub [multiaddr] tierUnverified

/-- `HandleLookup`. A lookup that could not find out is refused; one that found nothing falls back
to the bridge. -/
def handleLookup (rt : Runtime) (h : IdentityHandler) (r : Registry) (now : Time)
    (address : String) :
    LookupReply × Registry :=
  if address = "" then (.missingAddress, r)
  else
    match h.lookup now address with
    | .error .transient => (.badGateway, r)
    | .error .notFound => ((h.legacyLookup now address).getD .notFound, r)
    | .ok rec =>
      let ((tier, unverifiable), r) := h.verifiedTier r now rec
      let (onion, r) := match h.requiresOnion with
        | none => (rec.requireOnion, r)
        | some requiresOnion => requiresOnion r now rec
      (.identity {
        address := rec.address
        ed25519Pub := rec.ed25519Public
        x25519Pub := rec.x25519Public
        fingerprint := rec.fingerprint rt
        verificationTier := rec.verificationTier
        verifiedTier := tier
        identityUnverifiable := unverifiable
        requireOnion := onion
        forwardTo := if rec.forwardTo ≠ "" then some rec.forwardTo else none }, r)

def wired (rt : Runtime) (lookup : Time → String → Except LookupError IdentityRecord)
    (resolveBridge : Option (Time → Option (Fixed 32 × String))) : IdentityHandler where
  lookup := lookup
  verifyManaged := some fun r now rec => r.verifyManagedIdentity rt now rec
  requiresOnion := some fun r now rec => r.requiresOnion now rec
  resolveBridge := resolveBridge

end IdentityHandler

def senderVerified (rt : Runtime) (r : Registry) (now : Time) (rec : IdentityRecord) :
    Bool × Registry :=
  let (tier, r) := r.verifyManagedIdentity rt now rec
  (match tier with
    | .ok tier => tier == tierDomainDNS
    | .error _ => false, r)

/-- The domain stands behind the record's binding: an address credential that names its address,
domain and key and chains to the authority record, with no removal in hand, of a root or of the
record's own key, that lists the key. -/
structure DomainAttested (rt : Runtime) (rec : IdentityRecord) (dar : DomainAuthorityRecord)
    (blocks : Option CredentialBlockList) (removal : Option AddressRemovalRecord) (now : Time)
    (cred : Credential) : Prop where
  carried : rec.addressCredential = some cred
  address : cred.address = rec.address
  domain : Strings.equalFold rt.unicode (domainOf rec.address) cred.domain = true
  subject : cred.subject = rec.ed25519Public
  role : cred.hasRole roleAddress = true
  chained : verifyCredential rt cred (some dar) blocks now = .ok ()
  kept : ∀ rm, removal = some rm → removalSuppresses rt rec dar rm = true →
    rec.ed25519Public ∉ rm.keys

variable {rec : IdentityRecord}

theorem bindingRemoved_eq_false {dar : DomainAuthorityRecord}
    {removal : Option AddressRemovalRecord} : bindingRemoved rt rec dar removal = false ↔
      ∀ rm, removal = some rm → removalSuppresses rt rec dar rm = true →
        rec.ed25519Public ∉ rm.keys := by
  cases removal with
  | none => simp [bindingRemoved]
  | some rm =>
    simp only [bindingRemoved, Option.some.injEq, forall_eq', ← AddressRemovalRecord.removed_isSome,
      Bool.and_eq_false_iff, Bool.not_eq_true]
    cases removalSuppresses rt rec dar rm <;> simp

theorem domainAttested_of_verifyManagedRecord {dar : DomainAuthorityRecord}
    {blocks : Option CredentialBlockList} {removal : Option AddressRemovalRecord} {now : Time}
    {t : VerificationTier} (h : verifyManagedRecord rt rec dar blocks removal now = .ok t) :
    (rec.addressCredential = none ∧ t = rec.verificationTier) ∨
      ∃ cred, DomainAttested rt rec dar blocks removal now cred := by
  cases hcred : rec.addressCredential with
  | none =>
    simp only [verifyManagedRecord, unit_bind, hcred, pure_eq_ok] at h
    exact .inl ⟨rfl, h.2.2.2.symm⟩
  | some cred =>
    obtain ⟨hmatch, hchain, hkept⟩ := verifyManagedRecord_credential h hcred
    obtain ⟨hd, haddr, hrole, hsubject⟩ := Credential.matchesRecord_iff.mp hmatch
    have hfold : Strings.equalFold rt.unicode (domainOf rec.address) cred.domain = true := by
      simp only [verifyManagedRecord, unit_bind, refuse_eq_ok, not_or] at h
      rw [hd]
      simpa using h.2.1.2
    exact .inr ⟨cred, hcred, haddr, hfold, hsubject, hrole, hchain,
      bindingRemoved_eq_false.mp hkept⟩

def SourceAttested (rt : Runtime) (r : Registry) (now : Time) (rec : IdentityRecord) : Prop :=
  ∃ cred dar, r.view now (domainOf rec.address) = some dar ∧
    ∀ removal, (∀ rm, removal = some rm → r.lookupAddressRemoval now rec.address = .ok rm) →
      DomainAttested rt rec dar (r.lookupCredentialBlockList now (domainOf rec.address)) removal now
        cred

theorem sourceAttested_of_verifies {r : Registry} {now : Time} {cred : Credential}
    (h : Registry.Verifies rt r now rec) (hcred : rec.addressCredential = some cred) :
    SourceAttested rt r now rec := by
  obtain ⟨hmatch, dar, hdar, hstands, hkept⟩ := h.address cred hcred
  obtain ⟨hd, haddr, hrole, hsubject⟩ := Credential.matchesRecord_iff.mp hmatch
  refine ⟨cred, dar, hdar, ?_⟩
  intro removal hremoval
  refine ⟨hcred, haddr, ?_, hsubject, hrole, ?_, ?_⟩
  · rw [hd]
    exact Strings.equalFold_refl _
  · rw [← hd]
    exact hstands.chained
  · intro rm hrm
    exact bindingRemoved_eq_false.mp (hkept rm (hremoval rm hrm)) rm rfl

theorem sourceAttested_of_verifyManagedIdentity {r : Registry} {now : Time} {t : VerificationTier}
    (h : (r.verifyManagedIdentity rt now rec).1 = .ok t) :
    (rec.addressCredential = none ∧ t = rec.verificationTier) ∨ SourceAttested rt r now rec := by
  obtain ⟨hverifies, rfl⟩ := Registry.verifyManagedIdentity_eq_ok.mp h
  cases hcred : rec.addressCredential with
  | none =>
    exact .inl
      ⟨rfl, by simp [Registry.effectiveTier, IdentityRecord.hasAddressCredential, hcred]⟩
  | some cred => exact .inr (sourceAttested_of_verifies hverifies hcred)

theorem sourceAttested_of_senderVerified {r : Registry} {now : Time}
    (h : (senderVerified rt r now rec).1 = true) :
    (rec.addressCredential = none ∧ rec.verificationTier = tierDomainDNS) ∨
      SourceAttested rt r now rec := by
  simp only [senderVerified] at h
  split at h
  · next t ht =>
    have htier : t = tierDomainDNS := eq_of_beq h
    rcases sourceAttested_of_verifyManagedIdentity ht with ⟨hnone, hclaimed⟩ | hatt
    · exact .inl ⟨hnone, hclaimed.symm.trans htier⟩
    · exact .inr hatt
  · cases h

theorem sourceAttested_of_handleLookup {lookup : Time → String → Except LookupError IdentityRecord}
    {bridge : Option (Time → Option (Fixed 32 × String))} {r : Registry} {now : Time} {a : String}
    {reply : IdentityReply} (hrec : lookup now a = .ok rec)
    (h : ((IdentityHandler.wired rt lookup bridge).handleLookup rt r now a).1 = .identity reply)
    (htier : tierDomainDNS ≤ reply.verifiedTier) :
    (rec.addressCredential = none ∧ tierDomainDNS ≤ rec.verificationTier) ∨
      SourceAttested rt r now rec := by
  unfold IdentityHandler.handleLookup at h
  split at h
  · cases h
  simp only [IdentityHandler.wired, hrec, LookupReply.identity.injEq] at h
  rw [← h] at htier
  cases hcred : rec.addressCredential with
  | none =>
    -- `verifyManaged` is not asked: the tier is the one in the record
    rw [IdentityHandler.verifiedTier_uncredentialed hcred] at htier
    exact .inl ⟨rfl, htier⟩
  | some cred =>
    right
    simp only [IdentityHandler.verifiedTier, IdentityRecord.hasAddressCredential, hcred,
      Option.isSome_some, Bool.not_true, Bool.false_eq_true, if_false] at htier
    split at htier
    · next hverdict =>
      -- an error is reported as `TierUnverified`, which is below
      exact absurd (show tierDomainDNS ≤ tierUnverified from htier) (by decide)
    · next t s hverdict =>
      have hok : (r.verifyManagedIdentity rt now rec).1 = .ok t := by rw [hverdict]
      rcases sourceAttested_of_verifyManagedIdentity hok with ⟨hnone, -⟩ | hatt
      · cases hcred.symm.trans hnone
      · exact hatt

section TierSound

variable (rt : Runtime) (rec : IdentityRecord)

def VerifierSound : Prop := ∀ dar blocks removal now t,
  verifyManagedRecord rt rec dar blocks removal now = .ok t → tierDomainDNS ≤ t →
    ∃ cred, DomainAttested rt rec dar blocks removal now cred

def ServiceSound : Prop := ∀ (r : Registry) now t,
  (r.verifyManagedIdentity rt now rec).1 = .ok t → tierDomainDNS ≤ t → SourceAttested rt r now rec

def SenderSound : Prop := ∀ r now, (senderVerified rt r now rec).1 = true →
  SourceAttested rt r now rec

def HandlerSound : Prop := ∀ lookup bridge r now a reply, lookup now a = .ok rec →
  ((IdentityHandler.wired rt lookup bridge).handleLookup rt r now a).1 = .identity reply →
    tierDomainDNS ≤ reply.verifiedTier → SourceAttested rt r now rec

/-- Whoever reports `TierDomainDNS` or more for the record has its domain's word for the binding. -/
structure TierSound : Prop where
  verifier : VerifierSound rt rec
  service : ServiceSound rt rec
  sender : SenderSound rt rec
  handler : HandlerSound rt rec

structure StandsAlone : Prop where
  verified : rec.verify rt = true
  live : ∃ now, rec.expired now = false
  placed : domainOf rec.address ≠ ""
  unrouted : rec.routingCredential = none

end TierSound

section Means

variable {rec : IdentityRecord}

theorem not_attested (hnone : rec.addressCredential = none) {dar : DomainAuthorityRecord}
    {blocks : Option CredentialBlockList} {removal : Option AddressRemovalRecord} {now : Time}
    {cred : Credential} : ¬ DomainAttested rt rec dar blocks removal now cred := by
  intro h
  cases hnone.symm.trans h.carried

theorem not_sourceAttested (hnone : rec.addressCredential = none) {r : Registry} {now : Time} :
    ¬ SourceAttested rt r now rec := by
  rintro ⟨cred, dar, -, hatt⟩
  exact not_attested hnone (hatt none (by simp))

theorem not_claimed (h : rec.hasAddressCredential = true ∨ rec.verificationTier < tierDomainDNS) :
    ¬ (rec.addressCredential = none ∧ tierDomainDNS ≤ rec.verificationTier) := by
  rintro ⟨hnone, hclaims⟩
  rcases h with hcred | hlow
  · simp [IdentityRecord.hasAddressCredential, hnone] at hcred
  · exact Int32.not_le.mpr hlow hclaims

theorem claimed_of_not
    (h : ¬ (rec.hasAddressCredential = true ∨ rec.verificationTier < tierDomainDNS)) :
    rec.addressCredential = none ∧ tierDomainDNS ≤ rec.verificationTier := by
  obtain ⟨hnone, hclaims⟩ := not_or.mp h
  exact ⟨by simpa [IdentityRecord.hasAddressCredential] using hnone, Int32.not_lt.mp hclaims⟩

theorem tierSound_of_means
    (h : rec.hasAddressCredential = true ∨ rec.verificationTier < tierDomainDNS) :
    TierSound rt rec := by
  constructor
  · intro dar blocks removal now t hok htier
    rcases domainAttested_of_verifyManagedRecord hok with ⟨hnone, rfl⟩ | hatt
    · exact absurd ⟨hnone, htier⟩ (not_claimed h)
    · exact hatt
  · intro r now t hok htier
    rcases sourceAttested_of_verifyManagedIdentity hok with ⟨hnone, rfl⟩ | hatt
    · exact absurd ⟨hnone, htier⟩ (not_claimed h)
    · exact hatt
  · intro r now hadmitted
    rcases sourceAttested_of_senderVerified hadmitted with ⟨hnone, hclaims⟩ | hatt
    · exact absurd ⟨hnone, hclaims ▸ Int32.le_refl _⟩ (not_claimed h)
    · exact hatt
  · intro lookup bridge r now a reply hrec hreply htier
    rcases sourceAttested_of_handleLookup hrec hreply htier with hclaimed | hatt
    · exact absurd hclaimed (not_claimed h)
    · exact hatt

theorem means_of_handlerSound (h : HandlerSound rt rec) :
    rec.hasAddressCredential = true ∨ rec.verificationTier < tierDomainDNS := by
  by_contra hcond
  obtain ⟨hnone, hclaims⟩ := claimed_of_not hcond
  let lookup : Time → String → Except LookupError IdentityRecord := fun _ _ => .ok rec
  let service : Registry := .new (fun _ _ _ => false) none
  have hreply : ∃ reply, ((IdentityHandler.wired rt lookup none).handleLookup rt service default
      "a").1 = .identity reply ∧ reply.verifiedTier = rec.verificationTier := by
    refine ⟨_, by unfold IdentityHandler.handleLookup; rw [if_neg (by decide)]; rfl, ?_⟩
    change ((IdentityHandler.wired rt lookup none).verifiedTier service default rec).1.1 = _
    rw [IdentityHandler.verifiedTier_uncredentialed hnone]
  obtain ⟨reply, hidentity, htier⟩ := hreply
  exact not_sourceAttested hnone (h lookup none service default "a" reply rfl hidentity
    (htier ▸ hclaims))

theorem StandsAlone.verifyManagedIdentity (h : StandsAlone rt rec)
    (hnone : rec.addressCredential = none) :
    ∃ (r : Registry) (now : Time), (r.verifyManagedIdentity rt now rec).1 =
      .ok rec.verificationTier := by
  obtain ⟨now, hlive⟩ := h.live
  refine ⟨.new (fun _ _ _ => false) none, now, Registry.verifyManagedIdentity_eq_ok.mpr
    ⟨⟨h.verified, hlive, ?_, ?_⟩, ?_⟩⟩
  · intro rc hrc
    cases h.unrouted.symm.trans hrc
  · intro cred hcred
    cases hnone.symm.trans hcred
  · simp [Registry.effectiveTier, IdentityRecord.hasAddressCredential, hnone]

theorem StandsAlone.means_of_verifierSound (h : StandsAlone rt rec)
    (hsound : VerifierSound rt rec) :
    rec.hasAddressCredential = true ∨ rec.verificationTier < tierDomainDNS := by
  by_contra hcond
  obtain ⟨hnone, hclaims⟩ := claimed_of_not hcond
  let dar : DomainAuthorityRecord := { DomainAuthorityRecord.fromProto default with
    domain := domainOf rec.address }
  have hok : verifyManagedRecord rt rec dar none none default = .ok rec.verificationTier :=
    verifyManagedRecord_uncredentialed h.verified rfl h.placed h.unrouted hnone
  obtain ⟨cred, hatt⟩ := hsound dar none none default _ hok hclaims
  exact not_attested hnone hatt

theorem StandsAlone.means_of_serviceSound (h : StandsAlone rt rec) (hsound : ServiceSound rt rec) :
    rec.hasAddressCredential = true ∨ rec.verificationTier < tierDomainDNS := by
  by_contra hcond
  obtain ⟨hnone, hclaims⟩ := claimed_of_not hcond
  obtain ⟨r, now, hok⟩ := h.verifyManagedIdentity hnone
  exact not_sourceAttested hnone (hsound r now _ hok hclaims)

theorem StandsAlone.senderSound_iff (h : StandsAlone rt rec) : SenderSound rt rec ↔
    rec.hasAddressCredential = true ∨ rec.verificationTier ≠ tierDomainDNS := by
  constructor
  · intro hsound
    by_contra hcond
    obtain ⟨hnone, hclaims⟩ := not_or.mp hcond
    have hnone : rec.addressCredential = none := by
      simpa [IdentityRecord.hasAddressCredential] using hnone
    obtain ⟨r, now, hok⟩ := h.verifyManagedIdentity hnone
    have hadmitted : (senderVerified rt r now rec).1 = true := by
      simp only [senderVerified, hok]
      exact beq_iff_eq.mpr (not_not.mp hclaims)
    exact not_sourceAttested hnone (hsound r now hadmitted)
  · intro hcond r now hadmitted
    rcases sourceAttested_of_senderVerified hadmitted with ⟨hnone, hclaims⟩ | hatt
    · rcases hcond with hcred | hother
      · simp [IdentityRecord.hasAddressCredential, hnone] at hcred
      · exact absurd hclaims hother
    · exact hatt

end Means

/-- The tiers reported for a record are sound exactly when it carries an address credential or
claims less than a domain gives; for a record that stands alone that is so of each reader. -/
theorem verified_tiers_are_attested_iff (rt : Runtime) (rec : IdentityRecord) :
    (TierSound rt rec ↔
      rec.hasAddressCredential = true ∨ rec.verificationTier < tierDomainDNS) ∧
    (HandlerSound rt rec ↔
      rec.hasAddressCredential = true ∨ rec.verificationTier < tierDomainDNS) ∧
    (StandsAlone rt rec →
      (VerifierSound rt rec ↔
        rec.hasAddressCredential = true ∨ rec.verificationTier < tierDomainDNS) ∧
      (ServiceSound rt rec ↔
        rec.hasAddressCredential = true ∨ rec.verificationTier < tierDomainDNS) ∧
      (SenderSound rt rec ↔
        rec.hasAddressCredential = true ∨ rec.verificationTier ≠ tierDomainDNS)) := by
  have hsound : rec.hasAddressCredential = true ∨ rec.verificationTier < tierDomainDNS →
      TierSound rt rec := tierSound_of_means
  refine ⟨⟨?_, hsound⟩, ⟨means_of_handlerSound, fun h => (hsound h).handler⟩, ?_⟩
  · intro h
    exact means_of_handlerSound h.handler
  · intro halone
    exact ⟨⟨halone.means_of_verifierSound, fun h => (hsound h).verifier⟩,
      ⟨halone.means_of_serviceSound, fun h => (hsound h).service⟩, halone.senderSound_iff⟩

namespace SelfClaimed

def record : Pb.IdentityRecord :=
  { plainRecord "mallory@example.org" 2 with verificationTier := 2 }

def held : IdentityRecord := .ofMessage record []

noncomputable def runtime : Runtime := idealRuntime [keyOf 2] []

noncomputable def authority : DomainAuthorityRecord := .fromProto (plainAuthority "example.org" 1)

def service : Registry := .new (fun _ _ _ => false) none

def lookup : Time → String → Except LookupError IdentityRecord := fun _ _ => .ok held

theorem verified : held.verify runtime = true :=
  IdentityRecord.verify_idealRuntime (List.mem_singleton.mpr rfl) (length_keyOf 2)

theorem not_expired (now : Time) : held.expired now = false :=
  IdentityRecord.not_expired_of_unset rfl

theorem verifyManagedIdentity : (service.verifyManagedIdentity runtime default held).1 =
    .ok tierDomainDNS := by
  refine Registry.verifyManagedIdentity_eq_ok.mpr ⟨⟨verified, not_expired _, ?_, ?_⟩, rfl⟩
  · intro rc hrc
    cases hrc
  · intro cred hcred
    cases hcred

end SelfClaimed

/-- A record without a credential is reported at `TierDomainDNS` on its owner's word: by both
verifiers, to the mail filter and to the browser. -/
theorem self_claimed_tier_is_reported :
    SelfClaimed.held.addressCredential = none ∧
    verifyManagedRecord SelfClaimed.runtime SelfClaimed.held SelfClaimed.authority none none
      default =
      .ok tierDomainDNS ∧
    (SelfClaimed.service.verifyManagedIdentity SelfClaimed.runtime default SelfClaimed.held).1 =
      .ok tierDomainDNS ∧
    (senderVerified SelfClaimed.runtime SelfClaimed.service default SelfClaimed.held).1 = true ∧
    ∃ reply, ((IdentityHandler.wired SelfClaimed.runtime SelfClaimed.lookup none).handleLookup
      SelfClaimed.runtime SelfClaimed.service default "mallory@example.org").1 = .identity reply ∧
      tierDomainDNS ≤ reply.verifiedTier := by
  refine ⟨rfl, ?_, SelfClaimed.verifyManagedIdentity, ?_, ?_⟩
  · exact verifyManagedRecord_uncredentialed SelfClaimed.verified (by decide) (by decide) rfl rfl
  · simp only [senderVerified, SelfClaimed.verifyManagedIdentity]
    rfl
  · refine ⟨_, by unfold IdentityHandler.handleLookup; rw [if_neg (by decide)]; rfl, ?_⟩
    change tierDomainDNS ≤ (2 : VerificationTier)
    decide

namespace Vouched

def credential : Pb.Credential := plainCredential "example.org" "alice@example.org" "address" 1 2

def record : Pb.IdentityRecord :=
  { plainRecord "alice@example.org" 2 with addressCredential := some credential }

def held : IdentityRecord := .ofMessage record []

noncomputable def runtime : Runtime := idealRuntime [keyOf 2] [issuance credential]

noncomputable def authority : DomainAuthorityRecord := .fromProto (plainAuthority "example.org" 1)

theorem verifyManagedRecord_held :
    verifyManagedRecord runtime held authority none none default = .ok tierDomainDNS := by
  have hverify : held.verify runtime = true :=
    IdentityRecord.verify_idealRuntime (List.mem_singleton.mpr rfl) (length_keyOf 2)
  have hdomain : domainOf held.address = authority.domain := by decide
  have hne : authority.domain ≠ "" := by decide
  have hmatch : (Credential.fromProto credential).matchesRecord authority.domain held roleAddress =
      true := by
    decide
  have hchain : verifyCredential runtime (.fromProto credential) (some authority) none default =
      .ok () :=
    verifyCredential_plain (List.mem_singleton.mpr rfl) (by decide) (by decide) (by decide)
  have hcred : held.addressCredential = some (.fromProto credential) := rfl
  simp only [verifyManagedRecord, unit_bind, require_eq_ok, refuse_eq_ok, wrap_eq_ok, hdomain,
    hcred]
  exact ⟨hverify, by simp [hne], rfl, hmatch, hchain, by simp [bindingRemoved], rfl⟩

end Vouched

theorem vouched_record_is_attested :
    (∃ cred, DomainAttested Vouched.runtime Vouched.held Vouched.authority none none default cred) ∧
      ¬ SenderSound SelfClaimed.runtime SelfClaimed.held := by
  constructor
  · have hsound := (verified_tiers_are_attested_iff Vouched.runtime Vouched.held).1.mpr (.inl rfl)
    exact hsound.verifier _ _ _ _ _ Vouched.verifyManagedRecord_held (by decide)
  · have halone : StandsAlone SelfClaimed.runtime SelfClaimed.held :=
      ⟨SelfClaimed.verified, ⟨default, SelfClaimed.not_expired _⟩, by decide, rfl⟩
    rw [((verified_tiers_are_attested_iff _ _).2.2 halone).2.2]
    decide

end Dmcn
