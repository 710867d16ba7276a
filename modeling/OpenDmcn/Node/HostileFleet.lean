import OpenDmcn.Node.LocalFirst
import OpenDmcn.Relay.Squatting

/-! Resolution through a hostile fleet (`node/resolver.go`). Whatever the seeds serve is verified
against the DNS anchor of the domain; but the record that is returned is not compared with the
address asked for, and a record without an address credential verifies on its own signature. -/

namespace Dmcn

open Go Guard

section Definitions

variable (rt : Runtime) (n : Node) (now : Time) (a : String)

/-- The record is for the address, and its key is bound to it by an address credential that chains
to an authority record which the DNS record of the domain anchors. -/
def BoundByDomain (rec : IdentityRecord) : Prop :=
  rec.address = a ∧ ∃ mrec dar cred, n.resolveDomain rt now (domainOf a) = .ok mrec ∧
    Node.verifyDAR rt dar mrec = true ∧ rec.addressCredential = some cred ∧
    cred.matchesRecord dar.domain rec roleAddress = true ∧ Anchored rt dar cred

def NamedAndCredentialed : Prop :=
  ∀ mrec seeds rec, domainOf a ≠ "" → n.dnsDiscover rt now (domainOf a) = .ok (mrec, seeds) →
    DecidedBy rt n now a mrec seeds rec → rec.address = a ∧ rec.addressCredential.isSome = true

/-- The fleet holds no key with the fingerprint of the DNS record, and none that may issue
credentials by an authority record which the holder of such a key has signed. -/
structure HoldsNoDomainKey (P : Ideal.Party Bytes Bytes) (mrec : DnsRecord) : Prop where
  unforgeable : Ideal.Unforgeable rt.ed25519Verify P
  anchor : ∀ k x, Strings.equalFold rt.unicode (fingerprintOf rt k x) mrec.fingerprint = true →
    ¬ P.holds k
  issuers : ∀ dar : DomainAuthorityRecord, Strings.equalFold rt.unicode (dar.fingerprint rt)
    mrec.fingerprint = true →
    P.signed dar.authorityEd25519 (Ctx.darSelf.tag ++ dar.signableBytes rt) → ∀ k ∈ issuerKeys dar,
      ¬ P.holds k

/-- The holder of a key of the domain has signed an address credential for the address and the
key. -/
def SignedFor (P : Ideal.Party Bytes Bytes) (mrec : DnsRecord) (key : Bytes) : Prop :=
  ∃ (dar : DomainAuthorityRecord) (cred : Credential),
    Strings.equalFold rt.unicode (dar.fingerprint rt) mrec.fingerprint = true ∧
    P.signed dar.authorityEd25519 (Ctx.darSelf.tag ++ dar.signableBytes rt) ∧
      cred.issuerPub ∈ issuerKeys dar ∧
    P.signed cred.issuerPub (Ctx.credential.tag ++ cred.signableBytes rt) ∧
    cred.address = a ∧ cred.hasRole roleAddress = true ∧ cred.subject = key

end Definitions

section Resolution

variable {rt : Runtime} {n : Node} {now : Time} {a : String} {mrec : DnsRecord}
  {rec : IdentityRecord}

theorem DecidedBy.verified {seeds : List String} (h : DecidedBy rt n now a mrec seeds rec) :
    ∃ dar blocks removal t, Node.verifyDAR rt dar mrec = true ∧
      verifyManagedRecord rt rec dar blocks removal now = .ok t := by
  obtain ⟨_, _, _, _, dar, _, _, hserves⟩ := h
  obtain ⟨t, ht⟩ := hserves.verifies
  exact ⟨dar, _, _, t, hserves.anchor.anchored, ht⟩

theorem boundByDomain_iff {seeds : List String}
    (hdns : n.dnsDiscover rt now (domainOf a) = .ok (mrec, seeds))
    (hdecided : DecidedBy rt n now a mrec seeds rec) :
    BoundByDomain rt n now a rec ↔ rec.address = a ∧ rec.addressCredential.isSome = true := by
  constructor
  · rintro ⟨haddress, _, _, cred, _, _, hcred, _⟩
    exact ⟨haddress, by rw [hcred]; rfl⟩
  · rintro ⟨haddress, hsome⟩
    obtain ⟨cred, hcred⟩ := Option.isSome_iff_exists.mp hsome
    obtain ⟨dar, blocks, removal, t, hdar, hverified⟩ := hdecided.verified
    obtain ⟨hmatch, hchain, _⟩ := verifyManagedRecord_credential hverified hcred
    exact ⟨haddress, mrec, dar, cred, Node.dnsDiscover_record hdns, hdar, hcred, hmatch,
      anchored_of_verifyCredential hchain⟩

theorem verifyDAR_anchored {dar : DomainAuthorityRecord} (h : Node.verifyDAR rt dar mrec = true) :
    dar.verify rt = true ∧ Strings.equalFold rt.unicode (dar.fingerprint rt) mrec.fingerprint =
      true := by
  unfold Node.verifyDAR at h
  rw [Bool.and_eq_true, Bool.and_eq_true] at h
  exact h.1

theorem BoundByDomain.signedFor {P : Ideal.Party Bytes Bytes}
    (hbound : BoundByDomain rt n now a rec) (hdns : n.resolveDomain rt now (domainOf a) = .ok mrec)
    (houtside : HoldsNoDomainKey rt P mrec) :
    SignedFor rt a P mrec rec.ed25519Public := by
  obtain ⟨haddress, mrec', dar, cred, hdns', hdar, hcred, hmatch, hanchored⟩ := hbound
  obtain rfl : mrec = mrec' := Except.ok.inj (hdns.symm.trans hdns')
  obtain ⟨hself, hfingerprint⟩ := verifyDAR_anchored hdar
  obtain ⟨hdomain, hcredAddress, hrole, hsubject⟩ := Credential.matchesRecord_iff.mp hmatch
  -- the authority record is signed with the anchored key, and the credential with one of its own
  have hauthority : P.signed dar.authorityEd25519 (Ctx.darSelf.tag ++ dar.signableBytes rt) := by
    obtain ⟨_, _, hed⟩ := verifyCtx_ed25519 hself
    exact houtside.unforgeable.signed_of_not_holds (houtside.anchor _ _ hfingerprint) hed
  obtain ⟨hissuer, hsig⟩ := hanchored.issuer_mem
  have hissued : P.signed cred.issuerPub (Ctx.credential.tag ++ cred.signableBytes rt) := by
    obtain ⟨sig, hed⟩ := Credential.verifySignature_ed25519 hsig
    exact houtside.unforgeable.signed_of_not_holds
      (houtside.issuers dar hfingerprint hauthority _ hissuer) hed
  exact ⟨dar, cred, hfingerprint, hauthority, hissuer, hissued, hcredAddress.trans haddress, hrole,
    hsubject⟩

end Resolution

/-- Whatever the seeds serve, what `Resolve` returns is bound to the address by the domain exactly
if the record that decides it names the address and carries an address credential; and then a fleet
without the domain's keys can only serve a key that the domain has issued a credential to. -/
theorem resolve_bound_iff (rt : Runtime) (n : Node) (now : Time) (a : String)
    (heph : isEphemeralAddress a = false) :
    ((∀ rec, n.resolve rt now a = .ok rec → BoundByDomain rt n now a rec) ↔
      NamedAndCredentialed rt n now a) ∧
    (NamedAndCredentialed rt n now a → ∀ (P : Ideal.Party Bytes Bytes) (mrec : DnsRecord),
      n.resolveDomain rt now (domainOf a) = .ok mrec → HoldsNoDomainKey rt P mrec →
      ∀ rec, n.resolve rt now a = .ok rec → SignedFor rt a P mrec rec.ed25519Public) := by
  have hbound : NamedAndCredentialed rt n now a → ∀ rec, n.resolve rt now a = .ok rec →
      BoundByDomain rt n now a rec := by
    intro hnamed rec hrec
    obtain ⟨hdomain, mrec, seeds, hdns, hdecided⟩ := (resolve_eq_ok heph).mp hrec
    exact (boundByDomain_iff hdns hdecided).mpr (hnamed mrec seeds rec hdomain hdns hdecided)
  refine ⟨⟨?_, hbound⟩, ?_⟩
  · intro h mrec seeds rec hdomain hdns hdecided
    have hrec : n.resolve rt now a = .ok rec :=
      (resolve_eq_ok heph).mpr ⟨hdomain, mrec, seeds, hdns, hdecided⟩
    exact (boundByDomain_iff hdns hdecided).mp (h rec hrec)
  · intro hnamed P mrec hdns houtside rec hrec
    exact (hbound hnamed rec hrec).signedFor hdns houtside

theorem issuerKeys_of_signableBytes {rt : Runtime} {d d' : DomainAuthorityRecord}
    (h : d.signableBytes rt = d'.signableBytes rt) : issuerKeys d = issuerKeys d' := by
  have hmessage : ({ d.toProto with selfSignature := [] } : Pb.DomainAuthorityRecord) =
      { d'.toProto with selfSignature := [] } := Codec.marshalDeterministic_injective _ h
  have hkey : d.authorityEd25519 = d'.authorityEd25519 :=
    congrArg Pb.DomainAuthorityRecord.authorityEd25519PublicKey hmessage
  have hold : d.supersededKeys.map AuthorityKey.toProto =
      d'.supersededKeys.map AuthorityKey.toProto :=
    congrArg Pb.DomainAuthorityRecord.supersededKeys hmessage
  have hissued : d.authorityCredentials.map Credential.toProto = d'.authorityCredentials.map
      Credential.toProto :=
    congrArg Pb.DomainAuthorityRecord.authorityCredentials hmessage
  have hsuperseded := congrArg (List.map Pb.AuthorityKey.ed25519PublicKey) hold
  have hsubjects := congrArg (List.map Pb.Credential.subject) hissued
  rw [List.map_map, List.map_map] at hsuperseded hsubjects
  unfold issuerKeys DomainAuthorityRecord.rootKeys
  exact congrArg₂ _ (congrArg₂ _ hkey hsuperseded) hsubjects

namespace Hostile

def authority : Pb.DomainAuthorityRecord := plainAuthority "example.org" 1

def credential (account : String) (key : UInt8) : Pb.Credential :=
  plainCredential "example.org" account "address" 1 key

def managed (account : String) (key : UInt8) : Pb.IdentityRecord :=
  { plainRecord account key with addressCredential := some (credential account key) }

def alice : Pb.IdentityRecord := managed "alice@example.org" 2
def mallory : Pb.IdentityRecord := managed "mallory@example.org" 9
def bare : Pb.IdentityRecord := plainRecord "alice@example.org" 9

def dar : DomainAuthorityRecord := .fromProto authority

/-- The domain has signed its authority record and issued a credential to alice and one to
mallory. -/
noncomputable def log : List (Bytes × Bytes) :=
  [(keyOf 2, Ctx.identitySelf.tag ++ (IdentityRecord.ofMessage alice []).signableBytes
    (idealRuntime [] [])), (keyOf 1, Ctx.darSelf.tag ++ dar.signableBytes (idealRuntime [] [])),
    issuance (credential "alice@example.org" 2), issuance (credential "mallory@example.org" 9)]

noncomputable def runtime : Runtime := idealRuntime [keyOf 9] log

noncomputable def party : Ideal.Party Bytes Bytes := Ideal.tableParty [keyOf 9] log

noncomputable def mrec : DnsRecord := ⟨dar.fingerprint runtime, "", ["seed"]⟩

noncomputable def net (served : Pb.IdentityRecord) : Network where
  resolveDNS := fun _ _ => .ok mrec
  dnsVerify := fun _ _ _ => true
  parseRelayHint := fun _ => some "peer"
  connect := fun _ _ => true
  connected := fun _ => []
  clientGetDAR := fun _ _ _ => some (some (runtime.domainAuthorityRecord.marshal authority))
  clientGetIdentity := fun _ _ _ => some (some (runtime.identityRecord.marshal served))
  clientGetRemoval := fun _ _ _ => some none
  clientGetBlocklist := fun _ _ _ => some none

noncomputable def node (served : Pb.IdentityRecord) : Node :=
  ⟨"host", fun _ => none, [], net served, none⟩

theorem resolve_node {served : Pb.IdentityRecord} {now : Time} {t : VerificationTier}
    (hparse : IdentityRecord.fromProtoBytes runtime (runtime.identityRecord.marshal served) =
      some (.ofMessage served []))
    (hverified : verifyManagedRecord runtime (.ofMessage served []) dar none none now = .ok t) :
    (node served).resolve runtime now "alice@example.org" = .ok (.ofMessage served []) := by
  have hanchored : Node.verifyDAR runtime dar mrec = true :=
    verifyDAR_signed (length_keyOf 1) (List.mem_cons_of_mem _ (List.mem_cons_self ..)) (by decide)
  have hseed : AnchoredSeed runtime (node served) now "alice@example.org" mrec "seed" "peer" dar :=
    ⟨rfl, ⟨_, rfl, DomainAuthorityRecord.fromProtoBytes_marshal runtime authority⟩, hanchored⟩
  have hserves : ServesRecord runtime (node served) now "alice@example.org" mrec "seed" "peer" dar
      (.ofMessage served []) := ⟨hseed, ⟨_, rfl, hparse⟩, t, hverified⟩
  exact resolve_only_seed (by decide) (by decide)
    (Node.dnsDiscover_only_seed rfl (by decide) rfl) hserves

theorem resolve_bare (now : Time) :
    (node bare).resolve runtime now "alice@example.org" = .ok (.ofMessage bare []) := by
  have hself : (IdentityRecord.ofMessage bare []).verify runtime = true :=
    IdentityRecord.verify_idealRuntime (List.mem_singleton.mpr rfl) (length_keyOf 9)
  apply resolve_node (IdentityRecord.fromProtoBytes_plain rfl rfl rfl)
  exact verifyManagedRecord_uncredentialed hself (by decide) (by decide) rfl rfl

theorem verifyManagedRecord_managed {account : String} {key : UInt8} {now : Time}
    (hself : (IdentityRecord.ofMessage (managed account key) []).verify runtime = true)
    (hdomain : domainOf account = "example.org") (hissued : issuance (credential account key) ∈ log)
    (htarget : (Credential.fromProto (credential account key)).target = "example.org") :
    verifyManagedRecord runtime (.ofMessage (managed account key) []) dar none none now =
      .ok tierDomainDNS := by
  have haccount : domainOf (IdentityRecord.ofMessage (managed account key) []).address =
      dar.domain := hdomain
  have hne : dar.domain ≠ "" := by decide
  have hrole : (Credential.fromProto (credential account key)).hasRole roleAddress = true := by
    have hroles : (Credential.fromProto (credential account key)).roles = ["address"] := rfl
    unfold Credential.hasRole
    rw [hroles]
    decide
  have hmatch : (Credential.fromProto (credential account key)).matchesRecord dar.domain
      (.ofMessage (managed account key) []) roleAddress = true :=
    Credential.matchesRecord_iff.mpr ⟨rfl, rfl, hrole, rfl⟩
  have hchain : verifyCredential runtime (.fromProto (credential account key)) (some dar) none now =
      .ok () :=
    verifyCredential_plain hissued (by decide) (by decide) htarget
  have hcred : (IdentityRecord.ofMessage (managed account key) []).addressCredential =
      some (.fromProto (credential account key)) := rfl
  simp only [verifyManagedRecord, unit_bind, require_eq_ok, refuse_eq_ok, wrap_eq_ok, haccount,
    hcred]
  exact ⟨hself, by simp [hne], rfl, hmatch, hchain, by simp [bindingRemoved], rfl⟩

theorem resolve_mallory (now : Time) :
    (node mallory).resolve runtime now "alice@example.org" = .ok (.ofMessage mallory []) := by
  have hself : (IdentityRecord.ofMessage mallory []).verify runtime = true :=
    IdentityRecord.verify_idealRuntime (List.mem_singleton.mpr rfl) (length_keyOf 9)
  apply resolve_node (IdentityRecord.fromProtoBytes_plain rfl rfl rfl)
  exact verifyManagedRecord_managed hself (by decide) (by simp [log]) (by decide)

theorem resolve_alice (now : Time) :
    (node alice).resolve runtime now "alice@example.org" = .ok (.ofMessage alice []) := by
  have hself : (IdentityRecord.ofMessage alice []).verify runtime = true :=
    verifyCtx_idealRuntime.mpr ⟨length_keyOf 2, by simp, .inr (List.mem_cons_self ..)⟩
  apply resolve_node (IdentityRecord.fromProtoBytes_plain rfl rfl rfl)
  exact verifyManagedRecord_managed hself (by decide) (by simp [log]) (by decide)

theorem authority_of_signed {d : DomainAuthorityRecord}
    (h : party.signed d.authorityEd25519 (Ctx.darSelf.tag ++ d.signableBytes runtime)) :
    d.signableBytes runtime = dar.signableBytes runtime := by
  have hlog : (d.authorityEd25519, Ctx.darSelf.tag ++ d.signableBytes runtime) ∈ log := h
  simp only [log, issuance, List.mem_cons, Prod.mk.injEq, List.not_mem_nil, or_false] at hlog
  rcases hlog with ⟨_, h⟩ | ⟨_, h⟩ | ⟨_, h⟩ | ⟨_, h⟩
  · exact absurd (Ctx.tag_append_inj h).1 (by decide)
  · exact (Ctx.tag_append_inj h).2
  · exact absurd (Ctx.tag_append_inj h).1 (by decide)
  · exact absurd (Ctx.tag_append_inj h).1 (by decide)

theorem holdsNoDomainKey : HoldsNoDomainKey runtime party mrec where
  unforgeable := idealRuntime_unforgeable
  anchor := by
    intro k x hfingerprint hholds
    obtain rfl : k = keyOf 9 := List.mem_singleton.mp hholds
    have hhash : runtime.sha256 (keyOf 9 ++ x.val) = keyOf 9 := by
      change ((keyOf 9 ++ x.val) ++ _).take 32 = keyOf 9
      rw [List.append_assoc]
      exact List.take_left' (length_keyOf 9)
    have hseed : fingerprintOf runtime (keyOf 9) x = upperHex ((keyOf 9).take 20) := by
      unfold fingerprintOf
      rw [hhash]
    rw [hseed] at hfingerprint
    exact absurd hfingerprint (by decide)
  issuers := by
    intro d _ hsigned k hk hholds
    rw [issuerKeys_of_signableBytes (authority_of_signed hsigned)] at hk
    obtain rfl : k = keyOf 9 := List.mem_singleton.mp hholds
    have hkeys : issuerKeys dar = [keyOf 1] := rfl
    rw [hkeys, List.mem_singleton, keyOf_injective.eq_iff] at hk
    cases hk

theorem not_signedFor : ¬ SignedFor runtime "alice@example.org" party mrec (keyOf 9) := by
  rintro ⟨_, cred, _, _, _, hissued, haddress, _, hsubject⟩
  have hlog : (cred.issuerPub, Ctx.credential.tag ++ cred.signableBytes runtime) ∈ log := hissued
  simp only [log, issuance, List.mem_cons, Prod.mk.injEq, List.not_mem_nil, or_false] at hlog
  rcases hlog with ⟨_, h⟩ | ⟨_, h⟩ | ⟨_, h⟩ | ⟨_, h⟩
  · exact absurd (Ctx.tag_append_inj h).1 (by decide)
  · exact absurd (Ctx.tag_append_inj h).1 (by decide)
  · -- the credential of alice is for another key
    have hkey : cred.subject = (Credential.fromProto (credential "alice@example.org" 2)).subject :=
      Credential.subject_of_signableBytes (Ctx.tag_append_inj h).2
    exact absurd (keyOf_injective (hkey.symm.trans hsubject)) (by decide)
  · -- and mallory's is for another address
    have hmessage := runtime.credential.marshalDeterministic_injective (Ctx.tag_append_inj h).2
    have hother : cred.address = "mallory@example.org" := congrArg Pb.Credential.address hmessage
    exact absurd (hother.symm.trans haddress) (by decide)

theorem namedAndCredentialed : NamedAndCredentialed runtime
    (node alice) default "alice@example.org" := by
  intro mrec seeds rec hdomain hdns hdecided
  have hrec := (resolve_eq_ok (by decide)).mpr ⟨hdomain, mrec, seeds, hdns, hdecided⟩
  obtain rfl := Except.ok.inj ((resolve_alice default).symm.trans hrec)
  exact ⟨rfl, rfl⟩

end Hostile

/-- Seeds in the hands of mallory, who holds none of the domain's keys, have `Resolve` return a
record of alice with mallory's key and no credential, or mallory's own record in place of
alice's. -/
theorem hostile_fleet_chooses_the_key :
    HoldsNoDomainKey Hostile.runtime Hostile.party Hostile.mrec ∧ Hostile.party.holds (keyOf 9) ∧
    ((Hostile.node Hostile.bare).resolve Hostile.runtime default "alice@example.org" =
        .ok (.ofMessage Hostile.bare []) ∧
      (IdentityRecord.ofMessage Hostile.bare []).ed25519Public = keyOf 9 ∧
      ¬ BoundByDomain Hostile.runtime (Hostile.node Hostile.bare) default "alice@example.org"
        (.ofMessage Hostile.bare [])) ∧
    ((Hostile.node Hostile.mallory).resolve Hostile.runtime default "alice@example.org" =
        .ok (.ofMessage Hostile.mallory []) ∧
      (IdentityRecord.ofMessage Hostile.mallory []).ed25519Public = keyOf 9 ∧
      (IdentityRecord.ofMessage Hostile.mallory []).address ≠ "alice@example.org") ∧
    ¬ SignedFor Hostile.runtime "alice@example.org" Hostile.party Hostile.mrec (keyOf 9) := by
  refine ⟨Hostile.holdsNoDomainKey, List.mem_singleton.mpr rfl,
    ⟨Hostile.resolve_bare default, rfl, ?_⟩, ⟨Hostile.resolve_mallory default, rfl, by decide⟩,
      Hostile.not_signedFor⟩
  rintro ⟨_, _, _, cred, _, _, hcred, _⟩
  have hnone : (IdentityRecord.ofMessage Hostile.bare []).addressCredential = none := rfl
  exact absurd (hnone.symm.trans hcred) (by simp)

theorem alice_bound_by_domain :
    (∀ rec, (Hostile.node Hostile.alice).resolve Hostile.runtime default "alice@example.org" =
      .ok rec → BoundByDomain Hostile.runtime (Hostile.node Hostile.alice) default
        "alice@example.org" rec) ∧
    SignedFor Hostile.runtime "alice@example.org" Hostile.party Hostile.mrec (keyOf 2) := by
  have h := resolve_bound_iff Hostile.runtime (Hostile.node Hostile.alice) default
    "alice@example.org" (by decide)
  exact ⟨h.1.mpr Hostile.namedAndCredentialed, h.2 Hostile.namedAndCredentialed Hostile.party
    Hostile.mrec rfl
    Hostile.holdsNoDomainKey _ (Hostile.resolve_alice default)⟩

end Dmcn
