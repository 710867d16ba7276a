import OpenDmcn.IdealRuntime
import OpenDmcn.Registry.Spec

/-! The two reader verifiers side by side: `VerifyManagedIdentity`, which looks the records up, and
`VerifyManagedRecord`, which is handed them. Each is brought to the form: what both ask for, what
it alone asks for, and the tier. -/

namespace Dmcn

open Go Guard

namespace Registry

variable {rt : Runtime} {r : Registry} {now : Time} {rec : IdentityRecord}
  {dar : Option DomainAuthorityRecord} {blocks : Option CredentialBlockList}
  {removal : Option AddressRemovalRecord}

/-- The source answers for the record's domain and address with just these records, nothing else
is in the cache, and the DNS check succeeds. -/
structure Serves (r : Registry) (now : Time) (rec : IdentityRecord)
    (dar : Option DomainAuthorityRecord) (blocks : Option CredentialBlockList)
    (removal : Option AddressRemovalRecord) : Prop where
  authority : r.lookupDomainAuthority now (domainOf rec.address) = .ok dar
  cache : ∀ e, r.freshEntry now (domainOf rec.address) = some e → e.dar = dar
  blocklist : r.lookupCredentialBlockList now (domainOf rec.address) = blocks
  removed : (r.lookupAddressRemoval now rec.address).toOption = removal
  dns : ∀ fingerprint, r.dnsVerify now (domainOf rec.address) fingerprint = true

/-- What `VerifyManagedRecord` returns without an error; a nil authority record is an error. -/
def managedTier (rt : Runtime) (rec : IdentityRecord) (dar : Option DomainAuthorityRecord)
    (blocks : Option CredentialBlockList) (removal : Option AddressRemovalRecord) (now : Time) :
    Option VerificationTier :=
  dar.bind fun dar => (verifyManagedRecord rt rec dar blocks removal now).toOption

def VerifiersAgree (rt : Runtime) (r : Registry) (now : Time) (rec : IdentityRecord)
    (dar : Option DomainAuthorityRecord) (blocks : Option CredentialBlockList)
    (removal : Option AddressRemovalRecord) : Prop :=
  (r.verifyManagedIdentity rt now rec).1.toOption = managedTier rt rec dar blocks removal now

def attestations (rec : IdentityRecord) : List Credential :=
  rec.routingCredential.toList ++ rec.addressCredential.toList

def Fits (rt : Runtime) (rec : IdentityRecord) (dar : Option DomainAuthorityRecord)
    (blocks : Option CredentialBlockList) (now : Time) (role : String) (cred : Credential) : Prop :=
  (cred.address = rec.address ∧ cred.hasRole role = true ∧ cred.subject = rec.ed25519Public) ∧
    ∃ d, dar = some d ∧ Dmcn.verifyCredential rt cred (some d) blocks now = .ok ()

structure OtherwiseFine (rt : Runtime) (rec : IdentityRecord) (dar : Option DomainAuthorityRecord)
    (blocks : Option CredentialBlockList) (removal : Option AddressRemovalRecord) (now : Time) :
    Prop where
  verified : rec.verify rt = true
  routing : ∀ rc, rec.routingCredential = some rc →
    rec.relayHints = rc.relayHints ∧ Fits rt rec dar blocks now roleRouting rc
  address : ∀ cred, rec.addressCredential = some cred → Fits rt rec dar blocks now roleAddress cred
  kept : ∀ cred d, rec.addressCredential = some cred → dar = some d →
    bindingRemoved rt rec d removal = false

/-- What `VerifyManagedIdentity` asks for besides: the record is live, its credentials carry the
domain of its address and, if there are any, the authority record is signed. -/
def ServiceAsks (rt : Runtime) (rec : IdentityRecord) (dar : Option DomainAuthorityRecord)
    (now : Time) : Prop :=
  rec.expired now = false ∧ (∀ cred ∈ attestations rec, cred.domain = domainOf rec.address) ∧
    ∀ d, dar = some d → attestations rec ≠ [] → d.verify rt = true

/-- What `VerifyManagedRecord` asks for besides: there is an authority record, the address has its
domain up to case, and the credentials carry the domain as that record spells it. -/
def RecordAsks (rt : Runtime) (rec : IdentityRecord) (dar : Option DomainAuthorityRecord) : Prop :=
  ∃ d, dar = some d ∧ domainOf rec.address ≠ "" ∧
    Strings.equalFold rt.unicode (domainOf rec.address) d.domain = true ∧
    ∀ cred ∈ attestations rec, cred.domain = d.domain

variable {cred : Credential}

theorem mem_attestations : cred ∈ attestations rec ↔
    rec.routingCredential = some cred ∨ rec.addressCredential = some cred := by
  simp [attestations]

theorem Serves.view (h : Serves r now rec dar blocks removal) :
    r.view now (domainOf rec.address) = dar := by
  unfold Registry.view
  cases hfresh : r.freshEntry now (domainOf rec.address) with
  | some e =>
    rw [cachedLookupDAR_fresh hfresh]
    exact h.cache e hfresh
  | none =>
    rw [cachedLookupDAR_stale hfresh, h.authority]
    rfl

variable {d : DomainAuthorityRecord}

theorem Serves.stands (h : Serves r now rec dar blocks removal)
    (hdomain : cred.domain = domainOf rec.address) :
    Stands rt r now cred d ↔
      d.verify rt = true ∧ Dmcn.verifyCredential rt cred (some d) blocks now = .ok () := by
  constructor
  · rintro ⟨hsigned, -, hchained⟩
    rw [hdomain, h.blocklist] at hchained
    exact ⟨hsigned, hchained⟩
  · rintro ⟨hsigned, hchained⟩
    rw [← h.blocklist, ← hdomain] at hchained
    refine ⟨hsigned, ?_, hchained⟩
    rw [hdomain]
    exact h.dns _

theorem Serves.attests (h : Serves r now rec dar blocks removal) {role : String} :
    Attests rt r now rec role cred ↔ cred.domain = domainOf rec.address ∧
      Fits rt rec dar blocks now role cred ∧ ∀ d, dar = some d → d.verify rt = true := by
  unfold Attests Fits
  rw [h.view, Credential.matchesRecord_iff]
  constructor
  · rintro ⟨⟨hdomain, hnames⟩, d, rfl, hstands⟩
    obtain ⟨hsigned, hchained⟩ := (h.stands hdomain).mp hstands
    refine ⟨hdomain, ⟨hnames, d, rfl, hchained⟩, ?_⟩
    rintro d' ⟨⟩
    exact hsigned
  · rintro ⟨hdomain, ⟨hnames, d, rfl, hchained⟩, hsigned⟩
    exact ⟨⟨hdomain, hnames⟩, d, rfl, (h.stands hdomain).mpr ⟨hsigned d rfl, hchained⟩⟩

theorem Serves.bound (h : Serves r now rec dar blocks removal) :
    Bound rt r now rec cred ↔ Attests rt r now rec roleAddress cred ∧
      ∀ d, dar = some d → bindingRemoved rt rec d removal = false := by
  have hremoval : ∀ d, (∀ rm, r.lookupAddressRemoval now rec.address = .ok rm →
      bindingRemoved rt rec d (some rm) = false) ↔ bindingRemoved rt rec d removal = false := by
    intro d
    rw [← h.removed]
    cases r.lookupAddressRemoval now rec.address with
    | error e => simp [bindingRemoved, Except.toOption]
    | ok rm => simp [Except.toOption]
  unfold Bound Attests
  rw [h.view]
  constructor
  · rintro ⟨hmatch, d, rfl, hstands, hkept⟩
    refine ⟨⟨hmatch, d, rfl, hstands⟩, ?_⟩
    rintro d' ⟨⟩
    exact (hremoval d).mp hkept
  · rintro ⟨⟨hmatch, d, rfl, hstands⟩, hkept⟩
    exact ⟨hmatch, d, rfl, hstands, (hremoval d).mpr (hkept d rfl)⟩

theorem Serves.verifies (h : Serves r now rec dar blocks removal) :
    Verifies rt r now rec ↔
      OtherwiseFine rt rec dar blocks removal now ∧ ServiceAsks rt rec dar now := by
  constructor
  · intro hv
    have hrouting : ∀ rc, rec.routingCredential = some rc → rec.relayHints = rc.relayHints ∧
        rc.domain = domainOf rec.address ∧ Fits rt rec dar blocks now roleRouting rc ∧
        ∀ d, dar = some d → d.verify rt = true := by
      intro rc hrc
      obtain ⟨hhints, hattests⟩ := hv.routing rc hrc
      exact ⟨hhints, h.attests.mp hattests⟩
    have haddress : ∀ cred, rec.addressCredential = some cred →
        (cred.domain = domainOf rec.address ∧ Fits rt rec dar blocks now roleAddress cred ∧
          ∀ d, dar = some d → d.verify rt = true) ∧
        ∀ d, dar = some d → bindingRemoved rt rec d removal = false := by
      intro cred hcred
      obtain ⟨hattests, hkept⟩ := h.bound.mp (hv.address cred hcred)
      exact ⟨h.attests.mp hattests, hkept⟩
    refine ⟨⟨hv.verified, ?_, ?_, ?_⟩, hv.live, ?_, ?_⟩
    · intro rc hrc
      exact ⟨(hrouting rc hrc).1, (hrouting rc hrc).2.2.1⟩
    · exact fun cred hcred => (haddress cred hcred).1.2.1
    · exact fun cred d hcred hd => (haddress cred hcred).2 d hd
    · intro cred hmem
      rcases mem_attestations.mp hmem with hrc | hcred
      · exact (hrouting cred hrc).2.1
      · exact (haddress cred hcred).1.1
    · intro d hd hne
      obtain ⟨cred, hmem⟩ := List.exists_mem_of_ne_nil _ hne
      rcases mem_attestations.mp hmem with hrc | hcred
      · exact (hrouting cred hrc).2.2.2 d hd
      · exact (haddress cred hcred).1.2.2 d hd
  · rintro ⟨hfine, hlive, hdomain, hsigned⟩
    refine ⟨hfine.verified, hlive, ?_, ?_⟩
    · intro rc hrc
      have hmem := mem_attestations.mpr (.inl hrc)
      obtain ⟨hhints, hfits⟩ := hfine.routing rc hrc
      exact ⟨hhints, h.attests.mpr ⟨hdomain rc hmem, hfits, fun d hd =>
        hsigned d hd (List.ne_nil_of_mem hmem)⟩⟩
    · intro cred hcred
      have hmem := mem_attestations.mpr (.inr hcred)
      refine h.bound.mpr ⟨h.attests.mpr ⟨hdomain cred hmem, hfine.address cred hcred, fun d hd =>
        hsigned d hd (List.ne_nil_of_mem hmem)⟩, ?_⟩
      exact fun d hd => hfine.kept cred d hcred hd

theorem fits_some {role : String} :
    Fits rt rec (some d) blocks now role cred ∧ cred.domain = d.domain ↔
      cred.matchesRecord d.domain rec role = true ∧
        Dmcn.verifyCredential rt cred (some d) blocks now = .ok () := by
  unfold Fits
  rw [Credential.matchesRecord_iff]
  constructor
  · rintro ⟨⟨hnames, d', ⟨⟩, hchained⟩, hdomain⟩
    exact ⟨⟨hdomain, hnames⟩, hchained⟩
  · rintro ⟨⟨hdomain, hnames⟩, hchained⟩
    exact ⟨⟨hnames, d, rfl, hchained⟩, hdomain⟩

theorem recordRouting_iff :
    Dmcn.checkRouting rt rec d blocks now = .ok () ↔ ∀ rc, rec.routingCredential = some rc →
      rec.relayHints = rc.relayHints ∧ Fits rt rec (some d) blocks now roleRouting rc ∧
        rc.domain = d.domain := by
  unfold Dmcn.checkRouting
  cases rec.routingCredential with
  | none => simp
  | some rc =>
    simp only [unit_bind, require_eq_ok, wrap_eq_ok, Option.some.injEq, forall_eq', fits_some]
    constructor
    · rintro ⟨hmatch, hhints, hchained⟩
      exact ⟨hhints, hmatch, hchained⟩
    · rintro ⟨hhints, hmatch, hchained⟩
      exact ⟨hmatch, hhints, hchained⟩

theorem verifyManagedRecord_steps {t : VerificationTier} :
    verifyManagedRecord rt rec d blocks removal now = .ok t ↔
      rec.verify rt = true ∧
      (domainOf rec.address ≠ "" ∧
        Strings.equalFold rt.unicode (domainOf rec.address) d.domain = true) ∧
      (∀ rc, rec.routingCredential = some rc → rec.relayHints = rc.relayHints ∧
        Fits rt rec (some d) blocks now roleRouting rc ∧ rc.domain = d.domain) ∧
      (∀ cred, rec.addressCredential = some cred →
        (Fits rt rec (some d) blocks now roleAddress cred ∧ cred.domain = d.domain) ∧
          bindingRemoved rt rec d removal = false) ∧ t = effectiveTier rec := by
  simp only [verifyManagedRecord, unit_bind, require_eq_ok, refuse_eq_ok, recordRouting_iff, not_or,
    Bool.not_eq_false]
  refine and_congr_right fun _ => and_congr_right fun _ => and_congr_right fun _ => ?_
  unfold effectiveTier IdentityRecord.hasAddressCredential
  cases rec.addressCredential with
  | none =>
    simp only [pure_eq_ok, reduceCtorEq, false_imp_iff, implies_true, true_and, Option.isSome_none,
      Bool.false_eq_true, if_false]
    exact eq_comm
  | some cred =>
    simp only [unit_bind, require_eq_ok, wrap_eq_ok, refuse_eq_ok, pure_eq_ok, Option.some.injEq,
      forall_eq', fits_some, Bool.not_eq_true, Option.isSome_some, if_true]
    constructor
    · rintro ⟨hmatch, hchained, hkept, htier⟩
      exact ⟨⟨⟨hmatch, hchained⟩, hkept⟩, htier.symm⟩
    · rintro ⟨⟨⟨hmatch, hchained⟩, hkept⟩, htier⟩
      exact ⟨hmatch, hchained, hkept, htier.symm⟩

theorem verifyManagedRecord_eq_ok {t : VerificationTier} :
    verifyManagedRecord rt rec d blocks removal now = .ok t ↔
      (OtherwiseFine rt rec (some d) blocks removal now ∧ RecordAsks rt rec (some d)) ∧
        t = effectiveTier rec := by
  rw [verifyManagedRecord_steps]
  constructor
  · rintro ⟨hverify, ⟨hne, hfold⟩, hrouting, hbound, htier⟩
    refine ⟨⟨⟨hverify, ?_, ?_, ?_⟩, d, rfl, hne, hfold, ?_⟩, htier⟩
    · exact fun rc hrc => ⟨(hrouting rc hrc).1, (hrouting rc hrc).2.1⟩
    · exact fun cred hcred => (hbound cred hcred).1.1
    · rintro cred d' hcred ⟨⟩
      exact (hbound cred hcred).2
    · intro cred hmem
      rcases mem_attestations.mp hmem with hrc | hcred
      · exact (hrouting cred hrc).2.2
      · exact (hbound cred hcred).1.2
  · rintro ⟨⟨hfine, d', ⟨⟩, hne, hfold, hdomain⟩, htier⟩
    refine ⟨hfine.verified, ⟨hne, hfold⟩, ?_, ?_, htier⟩
    · intro rc hrc
      obtain ⟨hhints, hfits⟩ := hfine.routing rc hrc
      exact ⟨hhints, hfits, hdomain rc (mem_attestations.mpr (.inl hrc))⟩
    · intro cred hcred
      have hcarried := hdomain cred (mem_attestations.mpr (.inr hcred))
      exact ⟨⟨hfine.address cred hcred, hcarried⟩, hfine.kept cred d hcred rfl⟩

theorem managedTier_eq_some {t : VerificationTier} :
    managedTier rt rec dar blocks removal now = some t ↔
      (OtherwiseFine rt rec dar blocks removal now ∧ RecordAsks rt rec dar) ∧
      t = effectiveTier rec := by
  have hok : ∀ x : Except ManagedError VerificationTier, x.toOption = some t ↔ x = .ok t := by
    intro x
    cases x with
    | error e => simp [Except.toOption]
    | ok t' => simp [Except.toOption]
  unfold managedTier
  cases dar with
  | none =>
    simp only [Option.bind_none, reduceCtorEq, false_iff, not_and]
    rintro ⟨-, d, hd, -⟩
    cases hd
  | some d => rw [Option.bind_some, hok, verifyManagedRecord_eq_ok]

/-- The verifiers agree exactly when, on a record that both would otherwise pass, what the one asks
for besides holds together with what the other asks for. -/
theorem verifiers_agree_iff (h : Serves r now rec dar blocks removal) :
    VerifiersAgree rt r now rec dar blocks removal ↔
      (OtherwiseFine rt rec dar blocks removal now →
        (ServiceAsks rt rec dar now ↔ RecordAsks rt rec dar)) := by
  have hservice : ∀ t, (r.verifyManagedIdentity rt now rec).1.toOption = some t ↔
      (OtherwiseFine rt rec dar blocks removal now ∧ ServiceAsks rt rec dar now) ∧
        t = effectiveTier rec := by
    intro t
    rw [← h.verifies, ← verifyManagedIdentity_eq_ok]
    cases (r.verifyManagedIdentity rt now rec).1 with
    | error e => simp [Except.toOption]
    | ok t' => simp [Except.toOption]
  unfold VerifiersAgree
  constructor
  · intro heq hfine
    constructor
    · intro hasks
      have hsome := (hservice (effectiveTier rec)).mpr ⟨⟨hfine, hasks⟩, rfl⟩
      exact (managedTier_eq_some.mp (heq.symm.trans hsome)).1.2
    · intro hasks
      have hsome : managedTier rt rec dar blocks removal now = some (effectiveTier rec) :=
        managedTier_eq_some.mpr ⟨⟨hfine, hasks⟩, rfl⟩
      exact ((hservice _).mp (heq.trans hsome)).1.2
  · intro hiff
    refine Option.ext fun t => ?_
    rw [hservice, managedTier_eq_some]
    constructor
    · rintro ⟨⟨hfine, hasks⟩, ht⟩
      exact ⟨⟨hfine, (hiff hfine).mp hasks⟩, ht⟩
    · rintro ⟨⟨hfine, hasks⟩, ht⟩
      exact ⟨⟨hfine, (hiff hfine).mpr hasks⟩, ht⟩

/-! A record with an address credential, and the same record past its expiry. -/
namespace Lapsed

def credential : Pb.Credential := plainCredential "example.org" "alice@example.org" "address" 1 2

def record (expiresAt : Int64) : Pb.IdentityRecord :=
  { plainRecord "alice@example.org" 2 with addressCredential := some credential, expiresAt :=
    expiresAt }

def held (expiresAt : Int64) : IdentityRecord := .ofMessage (record expiresAt) []

noncomputable def runtime : Runtime := idealRuntime [keyOf 1, keyOf 2] []

def authority : DomainAuthorityRecord := .fromProto (plainAuthority "example.org" 1)

def source : RecordSource where
  identity := none
  dar := some fun _ _ => .ok (some authority)
  removal := some fun _ _ => .ok none
  blocklist := some fun _ _ => .ok none

def service : Registry := .new (fun _ _ _ => true) (some source)

theorem serves (expiresAt : Int64) :
    Serves service (Time.ofUnix 200) (held expiresAt) (some authority) none none where
  authority := rfl
  cache := by
    intro e he
    cases he
  blocklist := rfl
  removed := rfl
  dns := fun _ => rfl

theorem chained : Dmcn.verifyCredential runtime (.fromProto credential) (some authority) none
    (Time.ofUnix 200) = .ok () := by
  have hsig : (Credential.fromProto credential).verifySignature runtime = true :=
    Credential.verifySignature_idealRuntime.mpr
      ⟨length_keyOf 1, List.length_replicate, .inl (List.mem_cons_self ..)⟩
  exact verifyCredential_of_root hsig rfl rfl rfl (rootKeyAt_plainAuthority "example.org" 1) rfl
    (by decide) (by decide) rfl (by decide)

theorem otherwiseFine (expiresAt : Int64) :
    OtherwiseFine runtime (held expiresAt) (some authority) none none (Time.ofUnix 200) where
  verified := IdentityRecord.verify_idealRuntime (List.mem_cons_of_mem _ (List.mem_cons_self ..))
    (length_keyOf 2)
  routing := by
    intro rc hrc
    cases hrc
  address := by
    rintro cred ⟨⟩
    exact ⟨⟨rfl, by decide, rfl⟩, authority, rfl, chained⟩
  kept := by
    rintro cred d - ⟨⟩
    rfl

theorem recordAsks (expiresAt : Int64) : RecordAsks runtime (held expiresAt) (some authority) := by
  have hdomain : domainOf (held expiresAt).address = "example.org" := by
    change domainOf "alice@example.org" = "example.org"
    decide
  refine ⟨authority, rfl, ?_, ?_, ?_⟩
  · rw [hdomain]
    decide
  · rw [hdomain]
    exact Strings.equalFold_refl _
  · intro cred hmem
    cases List.mem_singleton.mp hmem
    rfl

theorem verifiers_agree_on_live_record :
    VerifiersAgree runtime service (Time.ofUnix 200) (held 0) (some authority) none none ∧
      managedTier runtime (held 0) (some authority) none none (Time.ofUnix 200) =
      some tierDomainDNS := by
  refine ⟨(verifiers_agree_iff (serves 0)).mpr fun _ =>
    ⟨fun _ => recordAsks 0, fun _ => ⟨?_, ?_, ?_⟩⟩, ?_⟩
  · exact IdentityRecord.not_expired_of_unset rfl
  · intro cred hmem
    cases List.mem_singleton.mp hmem
    decide
  · rintro d ⟨⟩ _
    exact DomainAuthorityRecord.verify_idealRuntime (List.mem_cons_self ..) (length_keyOf 1)
  · exact managedTier_eq_some.mpr ⟨⟨otherwiseFine 0, recordAsks 0⟩, rfl⟩

/-- A record that expired at second 100 is, at second 200, an error to the one verifier and of tier
`TierDomainDNS` to the other. -/
theorem expired_record_divides_verifiers :
    Serves service (Time.ofUnix 200) (held 100) (some authority) none none ∧
    (service.verifyManagedIdentity runtime (Time.ofUnix 200) (held 100)).1 = .error .expired ∧
    managedTier runtime (held 100) (some authority) none none (Time.ofUnix 200) =
      some tierDomainDNS ∧
    ¬ VerifiersAgree runtime service (Time.ofUnix 200) (held 100) (some authority) none none := by
  have hexpired : (held 100).expired (Time.ofUnix 200) = true := by decide
  have hservice : (service.verifyManagedIdentity runtime (Time.ofUnix 200) (held 100)).1 =
      .error .expired := by
    simp [verifyManagedIdentity, (otherwiseFine 100).verified, hexpired]
  have hrecord : managedTier runtime (held 100) (some authority) none none (Time.ofUnix 200) =
      some tierDomainDNS := managedTier_eq_some.mpr ⟨⟨otherwiseFine 100, recordAsks 100⟩, rfl⟩
  refine ⟨serves 100, hservice, hrecord, ?_⟩
  intro hagree
  unfold VerifiersAgree at hagree
  rw [hservice, hrecord] at hagree
  cases hagree

end Lapsed

end Registry

end Dmcn
