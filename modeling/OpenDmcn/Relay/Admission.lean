import OpenDmcn.Relay.AcceptRecord

/-! What a push can do to the store: nothing, or one write whose guards are spelled out here. The
results about runs are derived from these lemmas and never unfold the handlers again. -/

namespace Dmcn

open Go Guard RecordStore

variable {rt : Runtime} {anchor : DarAnchor}

structure IdentityAdmitted (rt : Runtime) (r : Relay) (now : Time) (data : Bytes)
    (rec : IdentityRecord) : Prop where
  parsed : IdentityRecord.fromProtoBytes rt data = some rec
  verified : rec.verify rt = true
  live : rec.expired now = false
  gates : (checkDomainGates rt r rec now).2 = .ok ()
  fresh : checkRollback rt r.records rec = .ok ()

variable {now : Time} {data : Bytes} {rec : IdentityRecord}

theorem openIdentity_eq_ok :
    openIdentity rt now data = .ok rec ↔
      IdentityRecord.fromProtoBytes rt data = some rec ∧ rec.verify rt = true ∧
        rec.expired now = false := by
  simp only [openIdentity, need_bind, unit_bind, require_eq_ok, refuse_eq_ok, pure_eq_ok]
  constructor
  · rintro ⟨rec', hparse, hverify, hlive, rfl⟩
    exact ⟨hparse, hverify, by simpa using hlive⟩
  · rintro ⟨hparse, hverify, hlive⟩
    exact ⟨rec, hparse, hverify, by simpa using hlive, rfl⟩

variable {r : Relay} {rs : RecordStore}

theorem acceptIdentity_eq_ok :
    (acceptIdentity rt r now data).2 = .ok rs ↔
      ∃ rec, IdentityAdmitted rt r now data rec ∧ rs = r.records.putIdentity rt rec := by
  unfold acceptIdentity
  cases hopen : openIdentity rt now data with
  | error e =>
    simp only [reduceCtorEq, false_iff, not_exists, not_and]
    intro rec hadm
    have hok := openIdentity_eq_ok.mpr ⟨hadm.parsed, hadm.verified, hadm.live⟩
    rw [hopen] at hok
    cases hok
  | ok rec =>
    obtain ⟨hparse, hverify, hlive⟩ := openIdentity_eq_ok.mp hopen
    simp only [unit_bind, pure_eq_ok]
    constructor
    · rintro ⟨hgate, hfresh, rfl⟩
      exact ⟨rec, ⟨hparse, hverify, hlive, hgate, hfresh⟩, rfl⟩
    · rintro ⟨rec', hadm, rfl⟩
      have hrec : rec' = rec := Option.some.inj (hadm.parsed.symm.trans hparse)
      subst hrec
      exact ⟨hadm.gates, hadm.fresh, rfl⟩

theorem checkRollback_eq_ok :
    checkRollback rt rs rec = .ok () ↔ ∀ existing, rs.getIdentity rt rec.address = some existing →
      existing.revision ≤ rec.revision ∧
      (rec.revision = existing.revision →
        (operatorFieldIssuedAt rec).before (operatorFieldIssuedAt existing) = false) := by
  unfold checkRollback
  cases rs.getIdentity rt rec.address with
  | none => simp
  | some existing => simp [UInt64.not_lt]

inductive Continuity (rt : Runtime) (r : Relay) (prev rec : IdentityRecord)
    (dar : Option DomainAuthorityRecord) (now : Time) : Prop
  | sameKey (h : prev.ed25519Public = rec.ed25519Public)
  | noAuthority (h : dar = none)
  | tombstone {d : DomainAuthorityRecord} {rm : AddressRemovalRecord} (hdar : dar = some d)
      (hrm : r.records.storedRemoval rt d rec.address = some rm)
      (h : rebindTombstoneFrees rt prev rec rm d = .ok ())
  | rotation {d : DomainAuthorityRecord} {last : RotationEntry} (hdar : dar = some d)
      (hlast : rec.rotationChain.getLast? = some last)
      (h : OwnerRotation rt prev rec last (r.records.storedRemoval rt d rec.address) d now)

theorem authorized_of_checkKeyContinuity {prev rec : IdentityRecord} {d : DomainAuthorityRecord}
    (hprev : r.records.getIdentity rt rec.address = some prev)
    (h : (checkKeyContinuity rt r rec (some d) now).2 = .ok ()) :
    ∃ arm, authorizeRebind rt (some prev) rec (r.records.storedRemoval rt d rec.address) (some d)
      now =
      .ok arm := by
  unfold checkKeyContinuity at h
  rw [hprev] at h
  simp only [Option.bind_some] at h
  cases hreb : authorizeRebind rt (some prev) rec (r.records.storedRemoval rt d rec.address)
    (some d)
      now with
  | ok arm => exact ⟨arm, rfl⟩
  | error e =>
    rw [hreb] at h
    cases e with
    | unverifiable => exact absurd hreb authorizeRebind_ne_unverifiable
    | tombstoneRequired why => cases h
    | rotationNotAllowed => cases h
    | chain err => cases h

theorem continuity_of_ok {prev rec : IdentityRecord} {dar : Option DomainAuthorityRecord}
    (hprev : r.records.getIdentity rt rec.address = some prev)
    (h : (checkKeyContinuity rt r rec dar now).2 = .ok ()) : Continuity rt r prev rec dar now := by
  cases dar with
  | none => exact .noAuthority rfl
  | some d =>
    obtain ⟨arm, harm⟩ := authorized_of_checkKeyContinuity hprev h
    rcases authorizeRebind_cases harm with ⟨-, hkey⟩ | ⟨-, d', rm, hd, hrm, hfree⟩ |
      ⟨-, d', last, hd, hlast, hrot⟩
    · exact .sameKey hkey
    · cases hd
      exact .tombstone rfl hrm hfree
    · cases hd
      exact .rotation rfl hlast hrot

theorem checkKeyContinuity_sameKey {dar : Option DomainAuthorityRecord}
    (h : ∀ prev, r.records.getIdentity rt rec.address = some prev →
      prev.ed25519Public = rec.ed25519Public) :
    (checkKeyContinuity rt r rec dar now).2 = .ok () := by
  unfold checkKeyContinuity
  cases hprev : r.records.getIdentity rt rec.address with
  | none => rfl
  | some prev => simp [authorizeRebind, h prev hprev]

theorem checkKeyContinuity_tombstone {prev rec : IdentityRecord} {d : DomainAuthorityRecord}
    {rm : AddressRemovalRecord} (hprev : r.records.getIdentity rt rec.address = some prev)
    (hrm : r.records.storedRemoval rt d rec.address = some rm)
    (h : rebindTombstoneFrees rt prev rec rm d = .ok ()) :
    (checkKeyContinuity rt r rec (some d) now).2 = .ok () := by
  unfold checkKeyContinuity
  rw [hprev]
  by_cases hkey : prev.ed25519Public = rec.ed25519Public
  · simp [authorizeRebind, hkey]
  · simp [authorizeRebind, hkey, hrm, h]

theorem checkKeyContinuity_ownerRotation {prev rec : IdentityRecord} {d : DomainAuthorityRecord}
    (hprev : r.records.getIdentity rt rec.address = some prev)
    (harm : authorizeRebind rt (some prev) rec (r.records.storedRemoval rt d rec.address) (some d)
      now =
      .ok .ownerRotation)
    (hallowed : (r.rotationLimiter.allow now (Strings.toLower rt.unicode rec.address)).2 = true) :
    (checkKeyContinuity rt r rec (some d) now).2 = .ok () := by
  unfold checkKeyContinuity
  rw [hprev]
  dsimp only [Option.bind_some]
  rw [harm]
  exact require_eq_ok.mpr hallowed

theorem checkReservedLocalPart_of_not_reserved {dar : Option DomainAuthorityRecord}
    (h : ∀ d, dar = some d → d.reservesLocalPart rt (localPartOf rec.address) = false) :
    checkReservedLocalPart rt rs rec dar now = .ok () := by
  unfold checkReservedLocalPart
  cases dar with
  | none => rfl
  | some d => simp [h d rfl]

theorem checkKeyContinuity_noAuthority :
    (checkKeyContinuity rt r rec none now).2 = .ok () := by
  unfold checkKeyContinuity
  cases r.records.getIdentity rt rec.address with
  | none => rfl
  | some prev =>
    by_cases hkey : prev.ed25519Public = rec.ed25519Public
    · simp [authorizeRebind, hkey]
    · simp [authorizeRebind, hkey]

theorem checkDomainGates_eq_ok (heph : isEphemeralAddress rec.address = false) :
    (checkDomainGates rt r rec now).2 = .ok () ↔
      checkReservedLocalPart rt r.records rec (r.records.getDAR rt (domainOf rec.address)) now =
      .ok () ∧
      (checkKeyContinuity rt r rec (r.records.getDAR rt (domainOf rec.address)) now).2 =
      .ok () := by
  simp only [checkDomainGates, heph, Bool.false_eq_true, if_false]
  cases checkReservedLocalPart rt r.records rec (r.records.getDAR rt (domainOf rec.address))
    now with
  | error e => simp
  | ok u => simp

theorem checkDomainGates_sameKey
    (hreserved : ∀ d, r.records.getDAR rt (domainOf rec.address) = some d →
      d.reservesLocalPart rt (localPartOf rec.address) = false)
    (hkey : ∀ prev, r.records.getIdentity rt rec.address = some prev →
      prev.ed25519Public = rec.ed25519Public) :
    (checkDomainGates rt r rec now).2 = .ok () := by
  by_cases heph : isEphemeralAddress rec.address = true
  · simp [checkDomainGates, heph]
  · rw [checkDomainGates_eq_ok (by simpa using heph)]
    exact ⟨checkReservedLocalPart_of_not_reserved hreserved, checkKeyContinuity_sameKey hkey⟩

theorem IdentityAdmitted.genesis (hparse : IdentityRecord.fromProtoBytes rt data = some rec)
    (hverify : rec.verify rt = true) (hlive : rec.expired now = false)
    (hnone : r.records.getIdentity rt rec.address = none)
    (hreserved : ∀ d, r.records.getDAR rt (domainOf rec.address) = some d →
      d.reservesLocalPart rt (localPartOf rec.address) = false) : IdentityAdmitted rt r now data
      rec := by
  refine ⟨hparse, hverify, hlive, checkDomainGates_sameKey hreserved ?_, ?_⟩
  · intro prev hprev
    cases hnone.symm.trans hprev
  · rw [checkRollback_eq_ok]
    intro existing hexisting
    cases hnone.symm.trans hexisting

theorem checkDomainGates_noAuthority (hdar : r.records.getDAR rt (domainOf rec.address) = none) :
    (checkDomainGates rt r rec now).2 = .ok () := by
  by_cases heph : isEphemeralAddress rec.address = true
  · simp [checkDomainGates, heph]
  · rw [checkDomainGates_eq_ok (by simpa using heph), hdar]
    exact ⟨rfl, checkKeyContinuity_noAuthority⟩

structure DarAdmitted (rt : Runtime) (anchor : DarAnchor) (rs : RecordStore) (now : Time)
    (data : Bytes) (dar : DomainAuthorityRecord) : Prop where
  parsed : DomainAuthorityRecord.fromProtoBytes rt data = some dar
  verified : dar.verify rt = true
  succeeds : ∀ existing, rs.getDAR rt dar.domain = some existing →
    darAcknowledges dar existing.authorityEd25519 = true ∧ existing.revision ≤ dar.revision ∧
    (dar.revision = existing.revision → rs.getDARBytes dar.domain = some data)
  anchored : rs.getDAR rt dar.domain = none → ∀ f, anchor = some f →
    f now dar.domain (dar.fingerprint rt) = true

variable {dar : DomainAuthorityRecord}

theorem checkDARSuccession_eq_ok :
    checkDARSuccession rt anchor rs now data dar = .ok () ↔
      (∀ existing, rs.getDAR rt dar.domain = some existing →
        darAcknowledges dar existing.authorityEd25519 = true ∧ existing.revision ≤ dar.revision ∧
        (dar.revision = existing.revision → rs.getDARBytes dar.domain = some data)) ∧
      (rs.getDAR rt dar.domain = none → ∀ f, anchor = some f →
        f now dar.domain (dar.fingerprint rt) = true) := by
  unfold checkDARSuccession
  cases rs.getDAR rt dar.domain with
  | some existing => simp [UInt64.not_lt]
  | none =>
    cases anchor with
    | none => simp
    | some f => simp

theorem acceptDAR_eq_ok {rs rs' : RecordStore} :
    acceptDAR rt anchor rs now data = .ok rs' ↔
      ∃ dar, DarAdmitted rt anchor rs now data dar ∧ rs' = rs.putDAR rt dar := by
  simp only [acceptDAR, need_bind, unit_bind, require_eq_ok, checkDARSuccession_eq_ok, pure_eq_ok]
  constructor
  · rintro ⟨dar, hparse, hverify, ⟨hsucc, hanchor⟩, rfl⟩
    exact ⟨dar, ⟨hparse, hverify, hsucc, hanchor⟩, rfl⟩
  · rintro ⟨dar, h, rfl⟩
    exact ⟨dar, h.parsed, h.verified, ⟨h.succeeds, h.anchored⟩, rfl⟩

theorem DarAdmitted.eq_of_revision_eq {dar existing : DomainAuthorityRecord}
    (h : DarAdmitted rt anchor rs now data dar) (hold : rs.getDAR rt dar.domain = some existing)
    (hrev : dar.revision = existing.revision) :
    dar = existing := by
  have hbytes := (h.succeeds existing hold).2.2 hrev
  unfold getDAR at hold
  unfold getDARBytes at hbytes
  rw [hbytes, Option.bind_some, h.parsed] at hold
  exact Option.some.inj hold

/-- The conditions under which `acceptRemoval` stores a record, under the authority record it
finds for the record's own spelling of the domain. -/
structure RemovalAdmitted (rt : Runtime) (rs : RecordStore) (data : Bytes)
    (rm : AddressRemovalRecord) (dar : DomainAuthorityRecord) : Prop where
  parsed : AddressRemovalRecord.fromProtoBytes rt data = some rm
  address_ne : rm.address ≠ ""
  domain_ne : rm.domain ≠ ""
  domain_eq : Strings.equalFold rt.unicode rm.domain (domainOf rm.address) = true
  authority : rs.getDAR rt rm.domain = some dar
  signed : removalIsRootSigned rt dar rm = true ∨ ownerSignedBy rt rs rm = true
  succeeds : ∀ existing, rs.storedRemovalAny rt rm.address = some existing →
    (removalIsRootSigned rt dar existing = true → removalIsRootSigned rt dar rm = true) ∧
    existing.revision ≤ rm.revision ∧ existing.keys ⊆ rm.keys

theorem removalDrops_eq_zero {next prior : AddressRemovalRecord} :
    removalDrops next prior = 0 ↔ prior.keys ⊆ next.keys := by
  unfold removalDrops
  rw [List.length_eq_zero_iff, List.filter_eq_nil_iff]
  constructor
  · intro h key hkey
    obtain ⟨b, hb, rfl⟩ := List.mem_map.mp hkey
    have hsome := h b hb
    rw [← AddressRemovalRecord.removed_isSome]
    simpa [Option.isSome_iff_ne_none] using hsome
  · intro h b hb
    have hmem := h (List.mem_map.mpr ⟨b, hb, rfl⟩)
    rw [← AddressRemovalRecord.removed_isSome] at hmem
    simpa [Option.isSome_iff_ne_none] using hmem

theorem checkRemovalSuccession_eq_ok {rm : AddressRemovalRecord} :
    checkRemovalSuccession rt rs dar rm = .ok () ↔
      ∀ existing, rs.storedRemovalAny rt rm.address = some existing →
        (removalIsRootSigned rt dar existing = true → removalIsRootSigned rt dar rm = true) ∧
        existing.revision ≤ rm.revision ∧ existing.keys ⊆ rm.keys := by
  unfold checkRemovalSuccession
  cases rs.storedRemovalAny rt rm.address with
  | none => simp
  | some existing =>
    simp only [unit_bind, require_eq_ok, refuse_eq_ok, removalDrops_eq_zero, UInt64.not_lt,
      Option.some.injEq, forall_eq']
    constructor
    · rintro ⟨hroot, hrest⟩
      refine ⟨?_, hrest⟩
      intro hex
      by_contra hrm
      exact hroot ⟨by simpa using hrm, hex⟩
    · rintro ⟨hroot, hrest⟩
      refine ⟨?_, hrest⟩
      rintro ⟨hrm, hex⟩
      rw [hroot hex] at hrm
      cases hrm

theorem acceptRemoval_eq_ok {rs rs' : RecordStore} :
    acceptRemoval rt rs data = .ok rs' ↔
      ∃ rm dar, RemovalAdmitted rt rs data rm dar ∧ rs' = rs.putRemoval rt rm := by
  simp only [acceptRemoval, need_bind, unit_bind, require_eq_ok, refuse_eq_ok, pure_eq_ok,
    checkRemovalSuccession_eq_ok, not_or]
  constructor
  · rintro ⟨rm, hparse, ⟨haddr, hdom⟩, hdomain, dar, hdar, hsigned, hsucc, rfl⟩
    exact ⟨rm, dar, ⟨hparse, haddr, hdom, hdomain, hdar, hsigned, hsucc⟩, rfl⟩
  · rintro ⟨rm, dar, h, rfl⟩
    exact ⟨rm, h.parsed, ⟨h.address_ne, h.domain_ne⟩, h.domain_eq, dar, h.authority, h.signed,
      h.succeeds, rfl⟩

inductive Effect (rt : Runtime) (anchor : DarAnchor) (r : Relay) (p : Push) : RecordStore → Prop
  | kept : Effect rt anchor r p r.records
  | identity {rec : IdentityRecord} (hkind : p.kind = .identity)
      (h : IdentityAdmitted rt r p.now p.data rec) :
        Effect rt anchor r p (r.records.putIdentity rt rec)
  | dar {dar : DomainAuthorityRecord} (hkind : p.kind = .dar)
      (h : DarAdmitted rt anchor r.records p.now p.data dar) :
      Effect rt anchor r p (r.records.putDAR rt dar)
  | removal {rm : AddressRemovalRecord} {dar : DomainAuthorityRecord} (hkind : p.kind = .removal)
      (h : RemovalAdmitted rt r.records p.data rm dar) :
      Effect rt anchor r p (r.records.putRemoval rt rm)
  | other {q : Prefix} {id : String} {data : Bytes} (hidentity : q ≠ .identity) (hdar : q ≠ .dar)
      (hremoval : q ≠ .removal) : Effect rt anchor r p (r.records.put q id data)

theorem commit_records (r : Relay) (result : Except Refusal RecordStore) :
    (r.commit result).1.records = r.records ∨ result = .ok (r.commit result).1.records := by
  cases result with
  | ok rs => exact .inr rfl
  | error e => exact .inl rfl

variable {p : Push}

theorem acceptHistory_effect (h : acceptHistory rt r.records p.data = .ok rs)
    : Effect rt anchor r p rs := by
  simp only [acceptHistory, need_bind, unit_bind] at h
  obtain ⟨_, _, rec, _, _, _, live, _, _, h⟩ := h
  split at h
  · rw [pure_eq_ok] at h
    subst h
    exact .kept
  · simp only [unit_bind, pure_eq_ok] at h
    obtain ⟨_, _, rfl⟩ := h
    exact .other (by decide) (by decide) (by decide)

theorem acceptBlocklist_effect (h : acceptBlocklist rt r.records p.data = .ok rs)
    : Effect rt anchor r p rs := by
  simp only [acceptBlocklist, need_bind, unit_bind, pure_eq_ok] at h
  obtain ⟨bl, _, dar, _, _, _, rfl⟩ := h
  exact .other (by decide) (by decide) (by decide)

theorem acceptRoster_effect (h : acceptRoster rt r.records p.data = .ok rs)
    : Effect rt anchor r p rs := by
  simp only [acceptRoster, need_bind, pure_eq_ok] at h
  obtain ⟨roster, _, rfl⟩ := h
  exact .other (by decide) (by decide) (by decide)

theorem push_effect (rt : Runtime) (anchor : DarAnchor) (r : Relay) (p : Push) :
    Effect rt anchor r p (r.push rt anchor p).records := by
  unfold Relay.push acceptRecord
  cases hkind : p.kind with
  | identity =>
    simp only
    rcases commit_records { r with rotationLimiter := (acceptIdentity rt r p.now p.data).1 }
      (acceptIdentity rt r p.now p.data).2 with hkeep | hok
    · rw [hkeep]
      exact .kept
    · obtain ⟨rec, hadm, hrs⟩ := acceptIdentity_eq_ok.mp hok
      rw [hrs]
      exact .identity hkind hadm
  | dar =>
    rcases commit_records r (acceptDAR rt anchor r.records p.now p.data) with hkeep | hok
    · rw [hkeep]
      exact .kept
    · obtain ⟨dar, hadm, hrs⟩ := acceptDAR_eq_ok.mp hok
      rw [hrs]
      exact .dar hkind hadm
  | removal =>
    rcases commit_records r (acceptRemoval rt r.records p.data) with hkeep | hok
    · rw [hkeep]
      exact .kept
    · obtain ⟨rm, dar, hadm, hrs⟩ := acceptRemoval_eq_ok.mp hok
      rw [hrs]
      exact .removal hkind hadm
  | history =>
    rcases commit_records r (acceptHistory rt r.records p.data) with hkeep | hok
    · rw [hkeep]
      exact .kept
    · exact acceptHistory_effect hok
  | blocklist =>
    rcases commit_records r (acceptBlocklist rt r.records p.data) with hkeep | hok
    · rw [hkeep]
      exact .kept
    · exact acceptBlocklist_effect hok
  | roster =>
    rcases commit_records r (acceptRoster rt r.records p.data) with hkeep | hok
    · rw [hkeep]
      exact .kept
    · exact acceptRoster_effect hok
  | unknown => exact .kept

theorem getDAR_push (rt : Runtime) (anchor : DarAnchor) (r : Relay) (p : Push) (d : String) :
    (r.push rt anchor p).records.getDAR rt d = r.records.getDAR rt d ∨
    ∃ dar, p.kind = .dar ∧ DarAdmitted rt anchor r.records p.now p.data dar ∧ dar.domain = d ∧
      (r.push rt anchor p).records.getDAR rt d = some dar := by
  have heffect := push_effect rt anchor r p
  generalize (r.push rt anchor p).records = rs at heffect
  cases heffect with
  | kept => exact .inl rfl
  | identity hkind h => exact .inl (getDAR_put_of_ne (by decide))
  | @dar dar hkind h =>
    rw [getDAR_putDAR h.parsed]
    split
    · next hd => exact .inr ⟨dar, hkind, h, hd.symm, rfl⟩
    · exact .inl rfl
  | removal hkind h => exact .inl (getDAR_put_of_ne (by decide))
  | other hidentity hdar hremoval => exact .inl (getDAR_put_of_ne hdar)

theorem getIdentity_push (rt : Runtime) (anchor : DarAnchor) (r : Relay) (p : Push) (a : String) :
    (r.push rt anchor p).records.getIdentity rt a = r.records.getIdentity rt a ∨
    ∃ rec, p.kind = .identity ∧ IdentityAdmitted rt r p.now p.data rec ∧ rec.address = a ∧
      (r.push rt anchor p).records.getIdentity rt a = some rec := by
  have heffect := push_effect rt anchor r p
  generalize (r.push rt anchor p).records = rs at heffect
  cases heffect with
  | kept => exact .inl rfl
  | @identity rec hkind h =>
    rw [getIdentity_putIdentity h.parsed]
    split
    · next ha => exact .inr ⟨rec, hkind, h, ha.symm, rfl⟩
    · exact .inl rfl
  | dar hkind h => exact .inl (getIdentity_put_of_ne (by decide))
  | removal hkind h => exact .inl (getIdentity_put_of_ne (by decide))
  | other hidentity hdar hremoval => exact .inl (getIdentity_put_of_ne hidentity)

theorem storedRemovalAny_push (rt : Runtime) (anchor : DarAnchor) (r : Relay) (p : Push)
    (a : String) :
    (r.push rt anchor p).records.storedRemovalAny rt a = r.records.storedRemovalAny rt a ∨
    ∃ rm dar, p.kind = .removal ∧ RemovalAdmitted rt r.records p.data rm dar ∧ rm.address = a ∧
      (r.push rt anchor p).records.storedRemovalAny rt a = some rm := by
  have heffect := push_effect rt anchor r p
  generalize (r.push rt anchor p).records = rs at heffect
  cases heffect with
  | kept => exact .inl rfl
  | identity hkind h => exact .inl (storedRemovalAny_put_of_ne (by decide))
  | dar hkind h => exact .inl (storedRemovalAny_put_of_ne (by decide))
  | @removal rm dar hkind h =>
    rw [storedRemovalAny_putRemoval h.parsed h.address_ne]
    split
    · next ha => exact .inr ⟨rm, dar, hkind, h, ha.symm, rfl⟩
    · exact .inl rfl
  | other hidentity hdar hremoval => exact .inl (storedRemovalAny_put_of_ne hremoval)

theorem commit_verdict (r : Relay) (result : Except Refusal RecordStore) :
    (r.commit result).2 = .ok () ↔ ∃ rs, result = .ok rs := by
  cases result with
  | ok rs => simp [Relay.commit]
  | error e => simp [Relay.commit]

theorem acceptRecord_identity_iff (hkind : p.kind = .identity) :
    (acceptRecord rt anchor r p).2 = .ok () ↔ ∃ rec, IdentityAdmitted rt r p.now p.data rec := by
  simp only [acceptRecord, hkind, commit_verdict, acceptIdentity_eq_ok]
  constructor
  · rintro ⟨rs, rec, hadm, -⟩
    exact ⟨rec, hadm⟩
  · rintro ⟨rec, hadm⟩
    exact ⟨_, rec, hadm, rfl⟩

theorem acceptRecord_removal_iff (hkind : p.kind = .removal) :
    (acceptRecord rt anchor r p).2 = .ok () ↔
      ∃ rm dar, RemovalAdmitted rt r.records p.data rm dar := by
  simp only [acceptRecord, hkind, commit_verdict, acceptRemoval_eq_ok]
  constructor
  · rintro ⟨rs, rm, dar, hadm, -⟩
    exact ⟨rm, dar, hadm⟩
  · rintro ⟨rm, dar, hadm⟩
    exact ⟨_, rm, dar, hadm, rfl⟩

theorem acceptRecord_identity (hkind : p.kind = .identity)
    (h : IdentityAdmitted rt r p.now p.data rec) :
    (acceptRecord rt anchor r p).2 = .ok () ∧
      (r.push rt anchor p).records = r.records.putIdentity rt rec := by
  have hok := acceptIdentity_eq_ok.mpr ⟨rec, h, rfl⟩
  simp [Relay.push, acceptRecord, hkind, Relay.commit, hok]

theorem acceptRecord_dar (hkind : p.kind = .dar)
    (h : DarAdmitted rt anchor r.records p.now p.data dar) :
    (acceptRecord rt anchor r p).2 = .ok () ∧
      (r.push rt anchor p).records = r.records.putDAR rt dar := by
  have hok := acceptDAR_eq_ok.mpr ⟨dar, h, rfl⟩
  simp [Relay.push, acceptRecord, hkind, Relay.commit, hok]

theorem acceptRecord_removal {rm : AddressRemovalRecord} (hkind : p.kind = .removal)
    (h : RemovalAdmitted rt r.records p.data rm dar) :
    (acceptRecord rt anchor r p).2 = .ok () ∧
      (r.push rt anchor p).records = r.records.putRemoval rt rm := by
  have hok := acceptRemoval_eq_ok.mpr ⟨rm, dar, h, rfl⟩
  simp [Relay.push, acceptRecord, hkind, Relay.commit, hok]

theorem push_genesis (h : IdentityAdmitted rt r now data rec)
    (hnone : r.records.getIdentity rt rec.address = none) :
    r.push rt anchor ⟨now, .identity, data⟩ =
      ⟨r.records.putIdentity rt rec, r.rotationLimiter⟩ := by
  have hopen := openIdentity_eq_ok.mpr ⟨h.parsed, h.verified, h.live⟩
  have hgates : checkDomainGates rt r rec now = (r.rotationLimiter, .ok ()) := by
    have hok := h.gates
    unfold checkDomainGates at hok ⊢
    split
    · rfl
    · next heph =>
      rw [if_neg heph] at hok
      dsimp only at hok ⊢
      cases hreserved : checkReservedLocalPart rt r.records rec
          (r.records.getDAR rt (domainOf rec.address)) now with
      | error e =>
        rw [hreserved] at hok
        cases hok
      | ok u =>
        unfold checkKeyContinuity
        rw [hnone]
  have haccept : acceptIdentity rt r now data =
      (r.rotationLimiter, .ok (r.records.putIdentity rt rec)) := by
    unfold acceptIdentity
    rw [hopen]
    dsimp only
    rw [hgates, h.fresh]
    rfl
  unfold Relay.push acceptRecord
  dsimp only
  rw [haccept]
  rfl

end Dmcn
