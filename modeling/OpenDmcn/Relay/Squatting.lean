import OpenDmcn.Relay.OperatorFields

/-! Squatting. The first record pushed for an address is stored without a credential, unless the
domain reserves the local part, and from then on the rebind gate defends whoever came first. -/

namespace Dmcn

open Go Guard RecordStore

variable {rt : Runtime} {anchor : DarAnchor}

/-- The pushing parties hold none of the domain's keys, and with these the domain has signed address
credentials for `a` to no key but `key`. -/
structure IssuedOnlyTo (rt : Runtime) (P : Ideal.Party Bytes Bytes) (domainKey : Bytes → Prop)
    (a : String) (key : Bytes) : Prop where
  unforgeable : Ideal.Unforgeable rt.ed25519Verify P
  outside : ∀ k, domainKey k → ¬ P.holds k
  issued : ∀ c : Credential, domainKey c.issuerPub →
    P.signed c.issuerPub (Ctx.credential.tag ++ c.signableBytes rt) → c.address = a →
    c.hasRole roleAddress = true → c.subject = key

theorem Credential.verifySignature_ed25519 {c : Credential} (h : c.verifySignature rt = true) :
    ∃ sig, rt.ed25519Verify c.issuerPub (Ctx.credential.tag ++ c.signableBytes rt) sig = true := by
  unfold Credential.verifySignature at h
  rw [Bool.and_eq_true] at h
  exact ⟨_, (verifyCtx_ed25519 h.2).2.2⟩

theorem Credential.subject_of_signableBytes {c d : Credential}
    (h : c.signableBytes rt = d.signableBytes rt) :
    c.subject = d.subject := by
  have hmessage : ({ c.toProto with signature := [] } : Pb.Credential) =
      { d.toProto with signature := [] } := Codec.marshalDeterministic_injective _ h
  exact (Pb.Credential.mk.inj hmessage).2.1

variable {domainKey : Bytes → Prop}

theorem IssuedOnlyTo.reserved_subject {P : Ideal.Party Bytes Bytes} {a : String} {key : Bytes}
    {rs : RecordStore} {rec : IdentityRecord} {dar : DomainAuthorityRecord} {now : Time}
    (h : IssuedOnlyTo rt P domainKey a key) (hkeys : ∀ k ∈ issuerKeys dar, domainKey k)
    (haddr : rec.address = a) (hres : dar.reservesLocalPart rt (localPartOf a) = true)
    (hok : checkReservedLocalPart rt rs rec
      (some dar) now = .ok ()) : rec.ed25519Public = key := by
  subst haddr
  simp only [checkReservedLocalPart, hres, Bool.not_true, Bool.false_eq_true, if_false, need_bind,
    unit_bind, require_eq_ok, wrap_eq_ok] at hok
  obtain ⟨c, -, ⟨hcaddr, hrole, hsubject⟩, hverify⟩ := hok
  obtain ⟨hissuer, hsig⟩ := (anchored_of_verifyCredential hverify).issuer_mem
  obtain ⟨sig, hed⟩ := Credential.verifySignature_ed25519 hsig
  have hdomain := hkeys _ hissuer
  have hsigned := h.unforgeable.signed_of_not_holds (h.outside _ hdomain) hed
  exact hsubject.symm.trans (h.issued c hdomain hsigned hcaddr hrole)

/-- The push does not take the address from under `R`. Of the key of `R` it sends nothing that is
newer than `R`; of another key it sends only what the domain has reserved, or what asks the key of
`R` to go and is not authorised to. An authority record that succeeds the one held names the
domain's keys. -/
structure LeavesFree (rt : Runtime) (domainKey : Bytes → Prop) (R : IdentityRecord) (r : Relay)
    (p : Push) : Prop where
  authority : p.kind = .dar → ∀ dar held, DomainAuthorityRecord.fromProtoBytes rt p.data =
    some dar →
    dar.verify rt = true → dar.domain = domainOf R.address →
    r.records.getDAR rt (domainOf R.address) = some held →
    darAcknowledges dar held.authorityEd25519 = true → ∀ k ∈ issuerKeys dar, domainKey k
  own : p.kind = .identity → ∀ rec, IdentityRecord.fromProtoBytes rt p.data = some rec →
    rec.address = R.address → rec.verify rt = true → rec.expired p.now = false →
    rec.ed25519Public = R.ed25519Public → NotOlder rec R
  others : p.kind = .identity → ∀ rec, IdentityRecord.fromProtoBytes rt p.data = some rec →
    rec.address = R.address → rec.verify rt = true → rec.expired p.now = false →
    rec.ed25519Public ≠ R.ed25519Public → isEphemeralAddress R.address = false ∧
      ∃ dar, r.records.getDAR rt (domainOf R.address) = some dar ∧
        (dar.reservesLocalPart rt (localPartOf R.address) = true ∨
          ∃ held e, r.records.getIdentity rt R.address = some held ∧
            authorizeRebind rt (some held) rec (r.records.storedRemoval rt dar R.address) (some dar)
              p.now = .error e)

/-- What is held for the address of `R` is of its key and not newer than it, under an authority
record that names the domain's keys. -/
structure KeptFree (rt : Runtime) (domainKey : Bytes → Prop) (R : IdentityRecord) (r : Relay) :
    Prop where
  authority : ∃ dar, r.records.getDAR rt (domainOf R.address) = some dar ∧
    ∀ k ∈ issuerKeys dar, domainKey k
  held : ∀ rec, r.records.getIdentity rt R.address = some rec →
    rec.ed25519Public = R.ed25519Public ∧ NotOlder rec R

/-- `R` is accepted whenever it is published before it expires, with an address credential that
verifies under the authority record held. -/
def AcceptedWhenPublished (rt : Runtime) (anchor : DarAnchor) (R : IdentityRecord) (r : Relay) :
    Prop :=
  ∀ p dar c, p.kind = .identity → IdentityRecord.fromProtoBytes rt p.data = some R →
    R.expired p.now = false → r.records.getDAR rt (domainOf R.address) = some dar →
    R.addressCredential = some c → c.matchesRecord dar.domain R roleAddress = true →
    verifyCredential rt c (some dar) (r.records.storedBlocklist rt dar) p.now = .ok () →
    (acceptRecord rt anchor r p).2 = .ok ()

theorem KeptFree.accepted {R : IdentityRecord} {r : Relay} (h : KeptFree rt domainKey R r)
    (hverify : R.verify rt = true) :
    AcceptedWhenPublished rt anchor R r := by
  intro p dar c hkind hparse hlive hdar hc hmatch hchain
  rw [acceptRecord_identity_iff hkind]
  refine ⟨R, hparse, hverify, hlive, ?_, ?_⟩
  · by_cases heph : isEphemeralAddress R.address = true
    · simp [checkDomainGates, heph]
    · refine (checkDomainGates_eq_ok (by simpa using heph)).mpr ⟨?_, ?_⟩
      · rw [hdar]
        exact checkReservedLocalPart_of_credential hc hmatch hchain
      · exact checkKeyContinuity_sameKey fun prev hprev => (h.held prev hprev).1
  · rw [checkRollback_iff_notOlder]
    exact fun existing hexisting => (h.held existing hexisting).2

theorem IssuedOnlyTo.admitted_own {P : Ideal.Party Bytes Bytes} {R rec : IdentityRecord} {r : Relay}
    {p : Push} (hissued : IssuedOnlyTo rt P domainKey R.address R.ed25519Public)
    (hr : KeptFree rt domainKey R r) (hp : LeavesFree rt domainKey R r p)
    (hkind : p.kind = .identity) (hadm : IdentityAdmitted rt r p.now p.data rec)
    (haddr : rec.address = R.address) :
    rec.ed25519Public = R.ed25519Public := by
  by_contra hkey
  obtain ⟨heph, dar, hdar, hcase⟩ :=
    hp.others hkind rec hadm.parsed haddr hadm.verified hadm.live hkey
  obtain ⟨dar', hdar', hkeys⟩ := hr.authority
  cases hdar.symm.trans hdar'
  rw [← haddr] at heph
  obtain ⟨hreserved, hgate⟩ := (checkDomainGates_eq_ok heph).mp hadm.gates
  rw [haddr, hdar] at hreserved hgate
  rcases hcase with hres | ⟨held, e, hheld, hrefused⟩
  · exact hkey (hissued.reserved_subject hkeys haddr hres hreserved)
  · rw [← haddr] at hheld hrefused
    obtain ⟨arm, harm⟩ := authorized_of_checkKeyContinuity hheld hgate
    cases hrefused.symm.trans harm

theorem keptFree_push {P : Ideal.Party Bytes Bytes} {R : IdentityRecord} {r : Relay} {p : Push}
    (hissued : IssuedOnlyTo rt P domainKey R.address R.ed25519Public)
    (hr : KeptFree rt domainKey R r) (hp : LeavesFree rt domainKey R r p) :
    KeptFree rt domainKey R (r.push rt anchor p) := by
  refine ⟨?_, ?_⟩
  · obtain ⟨dar, hdar, hkeys⟩ := hr.authority
    rcases getDAR_push rt anchor r p (domainOf R.address) with hkeep
      | ⟨dar', hkind, hadm, hdomain, hnew⟩
    · exact ⟨dar, hkeep.trans hdar, hkeys⟩
    · rw [← hdomain] at hdar
      have hack := (hadm.succeeds dar hdar).1
      exact ⟨dar', hnew, hp.authority hkind dar' dar hadm.parsed hadm.verified hdomain
        (by rw [← hdomain]; exact hdar) hack⟩
  · intro rec hrec
    rcases getIdentity_push rt anchor r p R.address with hkeep | ⟨rec', hkind, hadm, haddr, hnew⟩
    · exact hr.held rec (hkeep.symm.trans hrec)
    · cases hnew.symm.trans hrec
      have hkey := hissued.admitted_own hr hp hkind hadm haddr
      exact ⟨hkey, hp.own hkind rec hadm.parsed haddr hadm.verified hadm.live hkey⟩

/-- Over every run of a node that holds the domain's authority record and nothing for the address
of `R` that `R` could not follow, if all pushes leave the address free then in every state only the
key of `R` holds it, and `R` is accepted whenever it is published. -/
theorem address_not_squatted {P : Ideal.Party Bytes Bytes} {domainKey : Bytes → Prop}
    {R : IdentityRecord} {r : Relay} {dar : DomainAuthorityRecord} {ps : List Push}
    (hissued : IssuedOnlyTo rt P domainKey R.address R.ed25519Public) (hverify : R.verify rt = true)
    (hdar : r.records.getDAR rt (domainOf R.address) = some dar)
    (hkeys : ∀ k ∈ issuerKeys dar, domainKey k)
    (hfree : ∀ rec, r.records.getIdentity rt R.address = some rec →
      rec.ed25519Public = R.ed25519Public ∧ NotOlder rec R)
    (hps : Machine.Along (Relay.push rt anchor) (LeavesFree rt domainKey R) r ps) :
    Machine.Throughout (Relay.push rt anchor)
      (fun s => (∀ rec, s.records.getIdentity rt R.address = some rec →
        rec.ed25519Public = R.ed25519Public) ∧ AcceptedWhenPublished rt anchor R s) r ps := by
  have hstart : KeptFree rt domainKey R r := ⟨⟨dar, hdar, hkeys⟩, hfree⟩
  have hrun : Machine.Throughout (Relay.push rt anchor) (KeptFree rt domainKey R) r ps :=
    Machine.throughout_of_along hstart (fun s p hs hp => keptFree_push hissued hs hp) hps
  refine hrun.imp ?_
  intro s hs
  exact ⟨fun rec hrec => (hs.held rec hrec).1, hs.accepted hverify⟩

/-- Once another key holds the address, a record without a chain is refused for want of a root's
tombstone, whatever credentials it carries. -/
theorem refused_of_taken {r : Relay} {p : Push} {held rec : IdentityRecord}
    {dar : DomainAuthorityRecord} (hkind : p.kind = .identity)
    (hparse : IdentityRecord.fromProtoBytes rt p.data = some rec) (hverify : rec.verify rt = true)
    (hlive : rec.expired p.now = false) (heph : isEphemeralAddress rec.address = false)
    (hdar : r.records.getDAR rt (domainOf rec.address) = some dar)
    (hreserved : checkReservedLocalPart rt r.records rec (some dar) p.now = .ok ())
    (hheld : r.records.getIdentity rt rec.address = some held)
    (hkey : held.ed25519Public ≠ rec.ed25519Public)
    (hrm : r.records.storedRemoval rt dar rec.address = none) (hchain : rec.rotationChain = []) :
    (acceptRecord rt anchor r p).2 =
      .error (.rebindNeedsRemoval (.tombstoneRequired .incumbentNotTombstoned)) := by
  have hopen : openIdentity rt p.now p.data = .ok rec :=
    openIdentity_eq_ok.mpr ⟨hparse, hverify, hlive⟩
  have hgate : checkDomainGates rt r rec p.now = (r.rotationLimiter,
      .error (.rebindNeedsRemoval (.tombstoneRequired .incumbentNotTombstoned))) := by
    simp [checkDomainGates, heph, hdar, hreserved, checkKeyContinuity, hheld, authorizeRebind, hkey,
      hrm, hchain]
  simp only [acceptRecord, hkind, acceptIdentity, hopen, hgate]
  rfl

namespace Squatted

def authority (reserved : List String) : Pb.DomainAuthorityRecord :=
  { plainAuthority "example.org" 1 with reservedLocalParts := reserved }

def credential (address role : String) : Pb.Credential :=
  plainCredential "example.org" address role 1 2

def record (address : String) : Pb.IdentityRecord :=
  { plainRecord address 2 with
    addressCredential := some (credential address "address")
    routingCredential := some (credential address "routing") }

noncomputable def log (address : String) : List (Bytes × Bytes) :=
  [credential address "address", credential address "routing"].map issuance

noncomputable def runtime (address : String) : Runtime :=
  idealRuntime [keyOf 2, keyOf 9] (log address)

def genuine (address : String) : IdentityRecord := .ofMessage (record address) []

def squat (address : String) : IdentityRecord := .ofMessage (plainRecord address 9) []

noncomputable def publish (address : String) (pb : Pb.IdentityRecord) : Push :=
  ⟨Time.ofUnix 200, .identity, (runtime address).identityRecord.marshal pb⟩

noncomputable def seeded (address : String) (reserved : List String) : Relay :=
  seedOwnRecords (runtime address) [.fromProto (authority reserved)]

noncomputable def relay (address : String) : Relay :=
  (seeded address []).push (runtime address) none (publish address (plainRecord address 9))

variable (address : String) (reserved : List String)

theorem issuedOnlyTo : IssuedOnlyTo (runtime address)
    (Ideal.tableParty [keyOf 2, keyOf 9] (log address)) (fun k => k = keyOf 1) address
      (keyOf 2) := by
  refine ⟨idealRuntime_unforgeable, ?_, ?_⟩
  · rintro k rfl
    simp [Ideal.tableParty, keyOf_injective.eq_iff]
  · intro c _ hsigned _ _
    have hlog : (c.issuerPub, Ctx.credential.tag ++ c.signableBytes (runtime address)) ∈
        log address :=
      hsigned
    obtain ⟨pb, hpb, heq⟩ := List.mem_map.mp hlog
    have hbytes : (Credential.fromProto pb).signableBytes (idealRuntime [] []) =
        c.signableBytes (runtime address) := List.append_cancel_left (Prod.mk.inj heq).2
    rw [← Credential.subject_of_signableBytes hbytes]
    simp only [List.mem_cons, List.not_mem_nil, or_false] at hpb
    rcases hpb with rfl | rfl
    · rfl
    · rfl

theorem parsed_squat : IdentityRecord.fromProtoBytes (runtime address)
    (publish address (plainRecord address 9)).data = some (squat address) :=
  IdentityRecord.fromProtoBytes_plain rfl rfl rfl

theorem parsed_genuine : IdentityRecord.fromProtoBytes (runtime address)
    (publish address (record address)).data = some (genuine address) :=
  IdentityRecord.fromProtoBytes_plain rfl rfl rfl

theorem verified_genuine : (genuine address).verify (runtime address) = true := by
  have hheld : (genuine address).ed25519Public ∈ [keyOf 2, keyOf 9] := List.mem_cons_self ..
  exact IdentityRecord.verify_idealRuntime hheld (length_keyOf 2)

theorem records_relay : (relay address).records =
    (seeded address []).records.putIdentity (runtime address) (squat address) := by
  have hheld : (squat address).ed25519Public ∈ [keyOf 2, keyOf 9] := by
    change keyOf 9 ∈ _
    simp
  have hverify : (squat address).verify (runtime address) = true :=
    IdentityRecord.verify_idealRuntime hheld (length_keyOf 9)
  have hlive : (squat address).expired (Time.ofUnix 200) = false :=
    IdentityRecord.not_expired_of_unset rfl
  have hadm : IdentityAdmitted (runtime address) (seeded address [])
      (publish address (plainRecord address 9)).now (publish address (plainRecord address 9)).data
      (squat address) := by
    refine .genesis (parsed_squat address) hverify hlive (getIdentity_seed _ _ _) ?_
    intro d hd
    obtain rfl := eq_of_getDAR_seed hd
    exact DomainAuthorityRecord.reservesLocalPart_nil rfl
  exact (acceptRecord_identity rfl hadm).2

theorem getDAR_relay (hdomain : domainOf address = "example.org") :
    (relay address).records.getDAR (runtime address) (domainOf address) =
      some (.fromProto (authority [])) := by
  rw [records_relay address, hdomain]
  exact (getDAR_put_of_ne (by decide)).trans (getDAR_seed_singleton rfl)

theorem getIdentity_relay :
    (relay address).records.getIdentity (runtime address) address = some (squat address) := by
  rw [records_relay address, getIdentity_putIdentity (parsed_squat address)]
  exact if_pos rfl

theorem storedRemoval_relay (dar : DomainAuthorityRecord) :
    (relay address).records.storedRemoval (runtime address) dar address = none := by
  have hany : (relay address).records.storedRemovalAny (runtime address) address = none := by
    rw [records_relay address]
    exact (storedRemovalAny_put_of_ne (by decide)).trans (storedRemovalAny_seed _ _ _)
  simp [storedRemoval, hany]

theorem storedBlocklist_relay :
    (relay address).records.storedBlocklist (runtime address) (.fromProto (authority [])) =
      none := by
  unfold storedBlocklist
  have hnone : (relay address).records.get .blocklist "example.org" = none := by
    rw [records_relay address]
    exact (get_put_of_prefix_ne _ _ (by decide)).trans (get_seed _ _ _ (by decide))
  change ((relay address).records.get .blocklist "example.org").bind _ = none
  rw [hnone, Option.bind_none]

end Squatted

/-- Key 9, with no credential, takes an address the root has signed for key 2 only. The genuine
record, with its credentials, is refused from then on. -/
theorem address_squatted_by_outsider :
    (IssuedOnlyTo (Squatted.runtime "alice@example.org")
        (Ideal.tableParty [keyOf 2, keyOf 9] (Squatted.log "alice@example.org"))
          (fun k => k = keyOf 1)
        "alice@example.org" (keyOf 2) ∧
      (Squatted.relay "alice@example.org").Reachable (Squatted.runtime "alice@example.org") none ∧
      (Squatted.relay "alice@example.org").records.getDAR (Squatted.runtime "alice@example.org")
        (domainOf "alice@example.org") = some (.fromProto (Squatted.authority [])) ∧
      (Squatted.genuine "alice@example.org").verify (Squatted.runtime "alice@example.org") = true ∧
      CredentialsVerify (Squatted.runtime "alice@example.org")
        (Squatted.relay "alice@example.org").records (.fromProto (Squatted.authority []))
        (Squatted.genuine "alice@example.org") (Time.ofUnix 200)) ∧
    ((Squatted.relay "alice@example.org").records.getIdentity (Squatted.runtime "alice@example.org")
      "alice@example.org").map IdentityRecord.ed25519Public = some (keyOf 9) ∧
    (acceptRecord (Squatted.runtime "alice@example.org") none (Squatted.relay "alice@example.org")
      (Squatted.publish "alice@example.org" (Squatted.record "alice@example.org"))).2 =
        .error (.rebindNeedsRemoval (.tombstoneRequired .incumbentNotTombstoned)) := by
  have hdomain : domainOf "alice@example.org" = "example.org" := by decide
  have hdar := Squatted.getDAR_relay _ hdomain
  have hheld := Squatted.getIdentity_relay "alice@example.org"
  have hblocks := Squatted.storedBlocklist_relay "alice@example.org"
  refine ⟨⟨Squatted.issuedOnlyTo _, ⟨[Squatted.authority []], [_], rfl⟩, hdar,
    Squatted.verified_genuine _, ?_⟩, ?_, ?_⟩
  · constructor
    · refine ⟨_, rfl, by decide, ?_⟩
      rw [hblocks]
      exact verifyCredential_plain (List.mem_cons_self ..) (by decide) (by decide) (by decide)
    · refine ⟨_, rfl, by decide, rfl, ?_⟩
      rw [hblocks]
      exact verifyCredential_plain (List.mem_cons_of_mem _ (List.mem_cons_self ..)) (by decide)
        (by decide)
        (by decide)
  · rw [hheld]
    rfl
  · have hlive : (Squatted.genuine "alice@example.org").expired (Time.ofUnix 200) = false :=
      IdentityRecord.not_expired_of_unset rfl
    have hfree : ∀ d, some (DomainAuthorityRecord.fromProto (Squatted.authority [])) = some d →
        d.reservesLocalPart (Squatted.runtime "alice@example.org")
          (localPartOf "alice@example.org") =
          false := by
      rintro d ⟨⟩
      exact DomainAuthorityRecord.reservesLocalPart_nil rfl
    exact refused_of_taken rfl (Squatted.parsed_genuine _) (Squatted.verified_genuine _) hlive
      (by decide)
      hdar (checkReservedLocalPart_of_not_reserved hfree) hheld (by decide)
      (Squatted.storedRemoval_relay "alice@example.org" _) rfl

theorem reserved_address_not_squatted :
    Machine.Throughout (Relay.push (Squatted.runtime "postmaster@example.org") none)
      (fun s => (∀ rec, s.records.getIdentity (Squatted.runtime "postmaster@example.org")
          "postmaster@example.org" = some rec → rec.ed25519Public = keyOf 2) ∧
        AcceptedWhenPublished (Squatted.runtime "postmaster@example.org") none
          (Squatted.genuine "postmaster@example.org") s)
      (Squatted.seeded "postmaster@example.org" ["postmaster"])
      [Squatted.publish "postmaster@example.org" (plainRecord "postmaster@example.org" 9)] := by
  have hdomain : domainOf "postmaster@example.org" = "example.org" := by decide
  have hdar : (Squatted.seeded "postmaster@example.org" ["postmaster"]).records.getDAR
      (Squatted.runtime "postmaster@example.org") (domainOf "postmaster@example.org") =
      some (.fromProto (Squatted.authority ["postmaster"])) := by
    rw [hdomain]
    exact getDAR_seed_singleton rfl
  refine address_not_squatted (Squatted.issuedOnlyTo _) (Squatted.verified_genuine _) hdar ?_ ?_
    ⟨⟨?_, ?_, ?_⟩, trivial⟩
  · intro k hk
    exact List.mem_singleton.mp hk
  · intro rec hrec
    cases (getIdentity_seed _ _ _).symm.trans hrec
  · intro hkind
    cases hkind
  · intro _ rec hrec _ _ _ hkey
    cases (Squatted.parsed_squat _).symm.trans hrec
    exact absurd hkey (by decide)
  · intro _ rec _ _ _ _ _
    exact ⟨by decide, _, hdar, .inl (by decide)⟩

end Dmcn
