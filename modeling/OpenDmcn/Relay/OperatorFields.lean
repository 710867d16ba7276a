import OpenDmcn.IdealRuntime
import OpenDmcn.Relay.Invariant

/-! The operator's fields of a stored identity record: its address and routing credentials and its
relay hints. The owner's signature leaves them out and `acceptIdentity` does not verify them, so
what keeps them in place is only that nobody sends the signed core again with others. -/

namespace Dmcn

open Go RecordStore

variable {rt : Runtime} {anchor : DarAnchor}

theorem le_foldl_newest (cs : List Credential) (t : Time) :
    t.nanos ≤ (cs.foldl newest t).nanos ∧ ∀ c ∈ cs, c.issuedAt.nanos ≤
      (cs.foldl newest t).nanos := by
  induction cs generalizing t with
  | nil => simp
  | cons c cs ih =>
    have hstep : t.nanos ≤ (newest t c).nanos ∧ c.issuedAt.nanos ≤ (newest t c).nanos := by
      unfold newest
      split
      · next h => exact ⟨(Time.after_iff.mp h).le, le_rfl⟩
      · next h => exact ⟨le_rfl, not_lt.mp fun hlt => h (Time.after_iff.mpr hlt)⟩
    obtain ⟨hinit, hmem⟩ := ih (newest t c)
    refine ⟨hstep.1.trans hinit, ?_⟩
    intro d hd
    rcases List.mem_cons.mp hd with rfl | hd
    · exact hstep.2.trans hinit
    · exact hmem d hd

theorem foldl_newest_mem (cs : List Credential) (t : Time) :
    cs.foldl newest t = t ∨ ∃ c ∈ cs, cs.foldl newest t = c.issuedAt := by
  induction cs generalizing t with
  | nil => exact .inl rfl
  | cons c cs ih =>
    rcases ih (newest t c) with hinit | ⟨d, hd, heq⟩
    · rw [List.foldl_cons, hinit]
      unfold newest
      split
      · exact .inr ⟨c, List.mem_cons_self .., rfl⟩
      · exact .inl rfl
    · exact .inr ⟨d, List.mem_cons_of_mem _ hd, heq⟩

def IdentityRecord.reissued (rec : IdentityRecord) (rc : Credential) : IdentityRecord :=
  { rec with routingCredential := some rc, relayHints := rc.relayHints }

theorem operatorFieldIssuedAt_reissued {rec : IdentityRecord} {rc : Credential}
    (h : ∀ old, rec.routingCredential = some old → rc.issuedAt.after old.issuedAt = true) :
    (operatorFieldIssuedAt (rec.reissued rc)).before (operatorFieldIssuedAt rec) = false := by
  rw [Time.before_eq_false_iff]
  obtain ⟨hinit, hmem⟩ := le_foldl_newest ((rec.reissued rc).routingCredential.toList ++
    (rec.reissued rc).operatorCredentials) default
  rcases foldl_newest_mem (rec.routingCredential.toList ++ rec.operatorCredentials) default with
    hzero | ⟨c, hc, heq⟩
  · unfold operatorFieldIssuedAt
    rw [hzero]
    exact hinit
  · unfold operatorFieldIssuedAt
    rw [heq]
    rcases List.mem_append.mp hc with hrouting | hoperator
    · have hlater := Time.after_iff.mp (h c (Option.mem_toList.mp hrouting))
      exact hlater.le.trans (hmem rc (by simp [IdentityRecord.reissued]))
    · exact hmem c (by simp [IdentityRecord.reissued, hoperator])

/-- The record's address and routing credentials verify under the authority record, against the
blocklist the node holds. -/
structure CredentialsVerify (rt : Runtime) (rs : RecordStore) (dar : DomainAuthorityRecord)
    (rec : IdentityRecord) (now : Time) : Prop where
  address : ∃ c, rec.addressCredential = some c ∧
    c.matchesRecord dar.domain rec roleAddress = true ∧
    verifyCredential rt c (some dar) (rs.storedBlocklist rt dar) now = .ok ()
  routing : ∃ c, rec.routingCredential = some c ∧
    c.matchesRecord dar.domain rec roleRouting = true ∧ rec.relayHints = c.relayHints ∧
    verifyCredential rt c (some dar) (rs.storedBlocklist rt dar) now = .ok ()

def FieldsKept (rt : Runtime) (a : String) (R : IdentityRecord) (r : Relay) : Prop :=
  ∃ rec, r.records.getIdentity rt a = some rec ∧ rec.addressCredential = R.addressCredential ∧
    rec.routingCredential = R.routingCredential ∧ rec.relayHints = R.relayHints

/-- A genuine re-issue of the routing of `R`, later than its routing credential, is accepted. -/
def ReissueAccepted (rt : Runtime) (anchor : DarAnchor) (dar : DomainAuthorityRecord)
    (R : IdentityRecord) (r : Relay) : Prop :=
  ∀ p rc, p.kind = .identity → IdentityRecord.fromProtoBytes rt p.data = some (R.reissued rc) →
    CredentialsVerify rt r.records dar (R.reissued rc) p.now →
    (∀ old, R.routingCredential = some old → rc.issuedAt.after old.issuedAt = true) →
    R.expired p.now = false → (acceptRecord rt anchor r p).2 = .ok ()

/-- Not older than `R`: a higher revision, or the same one and an operator's date not before. -/
def NotOlder (R rec : IdentityRecord) : Prop :=
  R.revision < rec.revision ∨ (rec.revision = R.revision ∧
    (operatorFieldIssuedAt rec).before (operatorFieldIssuedAt R) = false)

theorem checkRollback_iff_notOlder {rs : RecordStore} {rec : IdentityRecord} :
    checkRollback rt rs rec = .ok () ↔
      ∀ existing, rs.getIdentity rt rec.address = some existing → NotOlder existing rec := by
  rw [checkRollback_eq_ok]
  refine forall_congr' fun existing => imp_congr_right fun _ => ?_
  constructor
  · rintro ⟨hrev, hdate⟩
    by_cases heq : rec.revision = existing.revision
    · exact .inr ⟨heq, hdate heq⟩
    · exact .inl (UInt64.lt_of_le_of_ne hrev (Ne.symm heq))
  · rintro (hlt | ⟨heq, hdate⟩)
    · exact ⟨UInt64.le_of_lt hlt, fun heq => absurd heq (UInt64.ne_of_lt hlt).symm⟩
    · exact ⟨UInt64.le_of_eq heq.symm, fun _ => hdate⟩

structure SameStanding (R rec : IdentityRecord) : Prop where
  key : rec.ed25519Public = R.ed25519Public
  revision : rec.revision = R.revision
  address : rec.addressCredential = R.addressCredential
  routing : rec.routingCredential = R.routingCredential
  hints : rec.relayHints = R.relayHints
  issuedAt : operatorFieldIssuedAt rec = operatorFieldIssuedAt R

/-- The push does not send a record of the key of `R` that is not older than `R` and differs from
it in the operator's fields, nor a rotation that the key held, or its recovery key, consented to. -/
structure Harmless (rt : Runtime) (a : String) (R : IdentityRecord) (r : Relay) (p : Push) :
    Prop where
  identity : p.kind = .identity
  sameKey : ∀ rec, IdentityRecord.fromProtoBytes rt p.data = some rec → rec.address = a →
    rec.verify rt = true → rec.expired p.now = false → rec.ed25519Public = R.ed25519Public →
    NotOlder R rec → SameStanding R rec
  noConsent : ∀ rec held last, IdentityRecord.fromProtoBytes rt p.data = some rec →
    rec.address = a → r.records.getIdentity rt a = some held →
    rec.rotationChain.getLast? = some last →
    last.authorizingEd25519Public = held.ed25519Public ∨
      last.authorizingEd25519Public = held.recoveryEd25519Public →
    verifyCtx rt last.authorizingEd25519Public .identityRotation (last.consentBytes rt)
      last.signature = false

/-- What a harmless run keeps: a record of the standing of `R`, the authority record, and no
root's removal of the key of `R`. -/
structure Standing (rt : Runtime) (a : String) (dar : DomainAuthorityRecord) (R : IdentityRecord)
    (r : Relay) : Prop where
  held : ∃ rec, r.records.getIdentity rt a = some rec ∧ SameStanding R rec
  authority : r.records.getDAR rt (domainOf a) = some dar
  notRemoved : ∀ rm, r.records.storedRemoval rt dar a = some rm → R.ed25519Public ∉ rm.keys

variable {dar : DomainAuthorityRecord}

theorem standing_push {a : String} {R : IdentityRecord} {r : Relay} {p : Push}
    (heph : isEphemeralAddress a = false) (hs : Standing rt a dar R r) (hp : Harmless rt a R r p)
    : Standing rt a dar R (r.push rt anchor p) := by
  obtain ⟨held, hheld, hsame⟩ := hs.held
  refine ⟨?_, ?_, ?_⟩
  · rcases getIdentity_push rt anchor r p a with hkeep | ⟨rec, -, hadm, ha, hnew⟩
    · exact ⟨held, hkeep.trans hheld, hsame⟩
    · refine ⟨rec, hnew, ?_⟩
      subst ha
      by_cases hkey : rec.ed25519Public = R.ed25519Public
      · refine hp.sameKey rec hadm.parsed rfl hadm.verified hadm.live hkey ?_
        have hfresh := checkRollback_iff_notOlder.mp hadm.fresh held hheld
        rwa [NotOlder, hsame.revision, hsame.issuedAt] at hfresh
      · -- a record of another key needs a tombstone or the owner's consent
        exfalso
        obtain ⟨-, hgate⟩ := (checkDomainGates_eq_ok heph).mp hadm.gates
        rw [hs.authority] at hgate
        cases continuity_of_ok hheld hgate with
        | sameKey h => exact hkey (h.symm.trans hsame.key)
        | noAuthority h => cases h
        | tombstone hd hrm h =>
          cases hd
          have hlisted := (rebindTombstoneFrees_iff.mp h).2.2.2
          rw [hsame.key] at hlisted
          exact hs.notRemoved _ hrm hlisted
        | rotation hd hlast h =>
          have hverify := (verifyRotationChain_last h.chain hlast).1
          have hconsent := (RotationEntry.verify_signatures hverify).1
          rw [hp.noConsent rec held _ hadm.parsed rfl hheld hlast h.authorized] at hconsent
          cases hconsent
  · rcases getDAR_push rt anchor r p (domainOf a) with hkeep | ⟨-, hkind, -⟩
    · exact hkeep.trans hs.authority
    · rw [hp.identity] at hkind
      cases hkind
  · intro rm hrm
    rcases storedRemovalAny_push rt anchor r p a with hkeep | ⟨-, -, hkind, -⟩
    · refine hs.notRemoved rm ?_
      rw [storedRemoval_eq_some] at hrm ⊢
      rw [hkeep] at hrm
      exact hrm
    · rw [hp.identity] at hkind
      cases hkind

theorem Standing.fieldsKept {a : String} {R : IdentityRecord} {r : Relay}
    (h : Standing rt a dar R r) : FieldsKept rt a R r := by
  obtain ⟨rec, hrec, hsame⟩ := h.held
  exact ⟨rec, hrec, hsame.address, hsame.routing, hsame.hints⟩

theorem checkReservedLocalPart_of_credential {rs : RecordStore} {rec : IdentityRecord} {now : Time}
    {c : Credential} (hc : rec.addressCredential = some c)
    (hmatch : c.matchesRecord dar.domain rec roleAddress = true)
    (hverify : verifyCredential rt c (some dar) (rs.storedBlocklist rt dar) now = .ok ()) :
    checkReservedLocalPart rt rs rec (some dar) now = .ok () := by
  simp only [Credential.matchesRecord, Bool.and_eq_true, beq_iff_eq] at hmatch
  simp [checkReservedLocalPart, hc, hmatch.1.1.2, hmatch.1.2, hmatch.2, hverify]

theorem Standing.reissueAccepted {a : String} {R : IdentityRecord} {r : Relay}
    (heph : isEphemeralAddress a = false) (haddr : R.address = a) (hverify : R.verify rt = true)
    (h : Standing rt a dar R r) :
    ReissueAccepted rt anchor dar R r := by
  intro p rc hkind hparse hcreds hlater hlive
  subst haddr
  obtain ⟨held, hheld, hsame⟩ := h.held
  rw [acceptRecord_identity_iff hkind]
  refine ⟨R.reissued rc, hparse, ?_, hlive, ?_, ?_⟩
  · exact (IdentityRecord.verify_congr rfl rfl).trans hverify
  · refine (checkDomainGates_eq_ok heph).mpr ⟨?_, ?_⟩
    · change checkReservedLocalPart rt r.records (R.reissued rc)
        (r.records.getDAR rt (domainOf R.address)) p.now = .ok ()
      rw [h.authority]
      obtain ⟨c, hc, hmatch, hchain⟩ := hcreds.address
      exact checkReservedLocalPart_of_credential hc hmatch hchain
    · apply checkKeyContinuity_sameKey
      intro prev hprev
      cases hheld.symm.trans hprev
      exact hsame.key
  · rw [checkRollback_iff_notOlder]
    intro existing hexisting
    cases hheld.symm.trans hexisting
    refine .inr ⟨hsame.revision.symm, ?_⟩
    rw [hsame.issuedAt]
    exact operatorFieldIssuedAt_reissued hlater

/-- Over every run of harmless identity pushes, from every reachable state, the operator's fields
stay those of `R` and a genuine re-issue of its routing is accepted in every state. -/
theorem operator_fields_kept {a : String} {dar : DomainAuthorityRecord} {R : IdentityRecord}
    {r : Relay} {ps : List Push} (hreach : r.Reachable rt anchor)
    (heph : isEphemeralAddress a = false) (hR : r.records.getIdentity rt a = some R)
    (hdar : r.records.getDAR rt (domainOf a) = some dar)
    (hfree : ∀ rm, r.records.storedRemoval rt dar a = some rm → R.ed25519Public ∉ rm.keys)
    (hps : Machine.Along (Relay.push rt anchor) (Harmless rt a R) r ps) :
    Machine.Throughout (Relay.push rt anchor)
      (fun s => FieldsKept rt a R s ∧ ReissueAccepted rt anchor dar R s) r ps := by
  obtain ⟨haddr, hverify⟩ := hreach.filed.identity a R hR
  have hstart : Standing rt a dar R r := ⟨⟨R, hR, ⟨rfl, rfl, rfl, rfl, rfl, rfl⟩⟩, hdar, hfree⟩
  have hrun : Machine.Throughout (Relay.push rt anchor) (Standing rt a dar R) r ps :=
    Machine.throughout_of_along hstart (fun s p hs hp => standing_push heph hs hp) hps
  refine hrun.imp ?_
  intro s hs
  exact ⟨hs.fieldsKept, hs.reissueAccepted heph haddr hverify⟩

namespace Displaced

def authority : Pb.DomainAuthorityRecord :=
  { (default : Pb.DomainAuthorityRecord) with
    version := 1, domain := "example.org", authorityEd25519PublicKey := keyOf 1, revision := 1 }

def credential (role : String) (hints : List String) (issuedAt : Int64) : Pb.Credential :=
  { (default : Pb.Credential) with
    version := 1, subject := keyOf 2, domain := "example.org", address := "alice@example.org"
    roles := [role], issuedAt := issuedAt, issuerPub := keyOf 1, signature := List.replicate 64 0
    relayHints := hints }

def record (routing : Pb.Credential) : Pb.IdentityRecord :=
  { (default : Pb.IdentityRecord) with
    version := 1, address := "alice@example.org", ed25519PublicKey := keyOf 2, revision := 1
    addressCredential := some (credential "address" [] 100), routingCredential := some routing }

def stripped : Pb.IdentityRecord :=
  { record default with
    addressCredential := none, routingCredential := none
    operatorCredentials := [{ (default : Pb.Credential) with issuedAt := 4000000000 }] }

def issued : Pb.Credential := credential "routing" ["relay-a"] 100
def reissue : Pb.Credential := credential "routing" ["relay-b"] 200

def held : IdentityRecord := .ofMessage (record issued) []

noncomputable def log : List (Bytes × Bytes) :=
  -- the core, and the three credentials
  (keyOf 2, Ctx.identitySelf.tag ++ held.signableBytes (idealRuntime [] [])) ::
  [credential "address" [] 100, issued, reissue].map fun c =>
    (keyOf 1, Ctx.credential.tag ++ (Credential.fromProto c).signableBytes (idealRuntime [] []))

noncomputable def runtime : Runtime := idealRuntime [] log

noncomputable def publish (pb : Pb.IdentityRecord) : Push :=
  ⟨default, .identity, runtime.identityRecord.marshal pb⟩

noncomputable def seeded : Relay := seedOwnRecords runtime [.fromProto authority]

noncomputable def relay : Relay := seeded.push runtime none (publish (record issued))

theorem verified {rec : IdentityRecord} (h : rec.core = held.core) : rec.verify runtime = true := by
  have hkey : rec.ed25519Public = keyOf 2 := congrArg Pb.IdentityRecord.ed25519PublicKey h
  refine verifyCtx_idealRuntime.mpr ⟨by rw [hkey]; exact length_keyOf 2, by simp, .inr ?_⟩
  have hsignable : rec.signableBytes runtime = held.signableBytes (idealRuntime [] []) := by
    unfold IdentityRecord.signableBytes
    rw [h]
    rfl
  rw [hkey, hsignable]
  exact List.mem_cons_self ..

theorem admitted {r : Relay} {pb : Pb.IdentityRecord}
    (hcore : (IdentityRecord.ofMessage pb []).core = held.core)
    (hplain : pb.rotationChain = [] ∧ pb.recoveryEd25519PublicKey = [] ∧ pb.forwardTo = "" ∧
      pb.expiresAt = 0)
    (hdar : r.records.getDAR runtime "example.org" = some (.fromProto authority))
    (hkey : ∀ prev, r.records.getIdentity runtime "alice@example.org" = some prev →
      prev.ed25519Public = keyOf 2)
    (hfresh : checkRollback runtime r.records (.ofMessage pb []) = .ok ()) :
    IdentityAdmitted runtime r default (publish pb).data (.ofMessage pb []) := by
  have haddr : (IdentityRecord.ofMessage pb []).address = "alice@example.org" :=
    congrArg Pb.IdentityRecord.address hcore
  have hed : (IdentityRecord.ofMessage pb []).ed25519Public = keyOf 2 :=
    congrArg Pb.IdentityRecord.ed25519PublicKey hcore
  have hdomain : domainOf "alice@example.org" = "example.org" := by decide
  refine ⟨IdentityRecord.fromProtoBytes_plain hplain.1 hplain.2.1 hplain.2.2.1, verified hcore,
    IdentityRecord.not_expired_of_unset hplain.2.2.2, checkDomainGates_sameKey ?_ ?_, hfresh⟩
  · intro d hd
    rw [haddr, hdomain, hdar] at hd
    cases hd
    exact DomainAuthorityRecord.reservesLocalPart_nil rfl
  · intro prev hprev
    rw [haddr] at hprev
    exact (hkey prev hprev).trans hed.symm

theorem getIdentity_seeded (a : String) : seeded.records.getIdentity runtime a = none :=
  getIdentity_put_of_ne (by decide)

theorem records_relay : relay.records = seeded.records.putIdentity runtime held := by
  refine (acceptRecord_identity rfl
    (admitted rfl ⟨rfl, rfl, rfl, rfl⟩ (getDAR_seed_singleton rfl) ?_ ?_)).2
  · intro prev hprev
    cases (getIdentity_seeded _).symm.trans hprev
  · rw [checkRollback_eq_ok]
    intro existing hexisting
    cases (getIdentity_seeded _).symm.trans hexisting

theorem getIdentity_relay : relay.records.getIdentity runtime "alice@example.org" = some held := by
  have hparse : IdentityRecord.fromProtoBytes runtime (publish (record issued)).data = some held :=
    IdentityRecord.fromProtoBytes_plain rfl rfl rfl
  rw [records_relay, getIdentity_putIdentity hparse]
  exact if_pos rfl

theorem getDAR_relay : relay.records.getDAR runtime "example.org" = some
    (.fromProto authority) := by
  rw [records_relay]
  exact (getDAR_put_of_ne (by decide)).trans (getDAR_seed_singleton rfl)

noncomputable def displaced : Relay := relay.push runtime none (publish stripped)

theorem records_displaced : displaced.records =
    relay.records.putIdentity runtime (.ofMessage stripped []) := by
  have hcore : (IdentityRecord.ofMessage stripped []).core = held.core := rfl
  refine (acceptRecord_identity rfl (admitted hcore ⟨rfl, rfl, rfl, rfl⟩ getDAR_relay ?_ ?_)).2
  · intro prev hprev
    cases getIdentity_relay.symm.trans hprev
    rfl
  · rw [checkRollback_eq_ok]
    intro existing hexisting
    cases getIdentity_relay.symm.trans hexisting
    decide

theorem getIdentity_displaced : displaced.records.getIdentity runtime "alice@example.org" =
    some (.ofMessage stripped []) := by
  have hparse : IdentityRecord.fromProtoBytes runtime (publish stripped).data =
      some (.ofMessage stripped []) := IdentityRecord.fromProtoBytes_plain rfl rfl rfl
  rw [records_displaced, getIdentity_putIdentity hparse]
  exact if_pos rfl

theorem verifyCredential_issued {c : Pb.Credential} {now : Time}
    (hc : c ∈ [credential "address" [] 100, issued, reissue]) :
    verifyCredential runtime (.fromProto c) (some (.fromProto authority)) none now = .ok () := by
  have hlog : (keyOf 1, Ctx.credential.tag ++ (Credential.fromProto c).signableBytes runtime) ∈
      log :=
    List.mem_cons_of_mem _ (List.mem_map.mpr ⟨c, hc, rfl⟩)
  have hsig : (Credential.fromProto c).issuerPub = keyOf 1 →
      (Credential.fromProto c).signature.length = 64 →
      (Credential.fromProto c).verifySignature runtime = true := by
    intro hissuer hlen
    refine Credential.verifySignature_idealRuntime.mpr ⟨?_, hlen, .inr ?_⟩
    · rw [hissuer, length_keyOf]
    · rw [hissuer]
      exact hlog
  simp only [List.mem_cons, List.not_mem_nil, or_false] at hc
  rcases hc with rfl | rfl | rfl
  · exact verifyCredential_of_root (hsig rfl (by decide)) rfl rfl rfl (by decide) rfl (by decide)
      (by decide) rfl (by decide)
  · exact verifyCredential_of_root (hsig rfl (by decide)) rfl rfl rfl (by decide) rfl (by decide)
      (by decide) rfl (by decide)
  · exact verifyCredential_of_root (hsig rfl (by decide)) rfl rfl rfl (by decide) rfl (by decide)
      (by decide) rfl (by decide)

theorem credentialsVerify {rs : RecordStore} {c : Pb.Credential} {now : Time}
    (hblocks : rs.get .blocklist "example.org" = none) (hc : c ∈ [issued, reissue]) :
    CredentialsVerify runtime rs (.fromProto authority) (.ofMessage (record c) []) now := by
  have hnone : rs.storedBlocklist runtime (.fromProto authority) = none := by
    unfold storedBlocklist
    change (rs.get .blocklist "example.org").bind _ = none
    rw [hblocks, Option.bind_none]
  refine ⟨⟨.fromProto (credential "address" [] 100), rfl, ?_, ?_⟩, ⟨.fromProto c, rfl, ?_, rfl, ?_⟩⟩
  · simp [Credential.matchesRecord, Credential.fromProto, credential,
      DomainAuthorityRecord.fromProto, authority, IdentityRecord.ofMessage, record,
        Credential.hasRole, Strings.contains, roleAddress]
  · rw [hnone]
    exact verifyCredential_issued (List.mem_cons_self ..)
  · simp only [List.mem_cons, List.not_mem_nil, or_false] at hc
    rcases hc with rfl | rfl <;> decide
  · rw [hnone]
    exact verifyCredential_issued (List.mem_cons_of_mem _ hc)

theorem blocklist_relay : relay.records.get .blocklist "example.org" = none := by
  rw [records_relay]
  rfl

theorem blocklist_displaced : displaced.records.get .blocklist "example.org" = none := by
  rw [records_displaced]
  exact (get_put_of_prefix_ne _ _ (by decide)).trans blocklist_relay

theorem not_fieldsKept : ¬ FieldsKept runtime "alice@example.org" held displaced := by
  rintro ⟨rec, hrec, haddr, -⟩
  cases getIdentity_displaced.symm.trans hrec
  cases haddr

theorem not_reissueAccepted : ¬ ReissueAccepted runtime none
    (.fromProto authority) held displaced := by
  intro h
  have hcreds : CredentialsVerify runtime displaced.records (.fromProto authority)
      (.ofMessage (record reissue) []) default :=
    credentialsVerify blocklist_displaced (List.mem_cons_of_mem _ (List.mem_cons_self ..))
  have hok := h (publish (record reissue)) (.fromProto reissue) rfl
    (IdentityRecord.fromProtoBytes_plain rfl rfl rfl) hcreds (by rintro old ⟨⟩; decide)
    (IdentityRecord.not_expired_of_unset rfl)
  obtain ⟨rec, hadm⟩ := (acceptRecord_identity_iff rfl).mp hok
  have hparse : IdentityRecord.fromProtoBytes runtime (publish (record reissue)).data =
      some (.ofMessage (record reissue) []) := IdentityRecord.fromProtoBytes_plain rfl rfl rfl
  cases hadm.parsed.symm.trans hparse
  have hfresh := checkRollback_eq_ok.mp hadm.fresh _ getIdentity_displaced
  exact absurd (hfresh.2 rfl) (by decide)

end Displaced

/-- A party that holds no key strips the credentials off a stored record whose credentials verify,
and the operator's genuine re-issue is refused from then on. -/
theorem operator_fields_displaced_by_outsider :
    (Displaced.relay.Reachable Displaced.runtime none ∧
      Displaced.relay.records.getIdentity Displaced.runtime "alice@example.org" =
        some Displaced.held ∧
      Displaced.relay.records.getDAR Displaced.runtime (domainOf "alice@example.org") =
        some (.fromProto Displaced.authority) ∧
      CredentialsVerify Displaced.runtime Displaced.relay.records (.fromProto Displaced.authority)
        Displaced.held default ∧
      Ideal.Unforgeable Displaced.runtime.ed25519Verify (Ideal.tableParty [] Displaced.log) ∧
      ∀ k, ¬ (Ideal.tableParty [] Displaced.log).holds k) ∧
    ¬ Machine.Throughout (Relay.push Displaced.runtime none)
      (FieldsKept Displaced.runtime "alice@example.org" Displaced.held) Displaced.relay
      [Displaced.publish Displaced.stripped] ∧
    ¬ Machine.Throughout (Relay.push Displaced.runtime none)
      (ReissueAccepted Displaced.runtime none (.fromProto Displaced.authority) Displaced.held)
      Displaced.relay [Displaced.publish Displaced.stripped] := by
  refine ⟨⟨?_, Displaced.getIdentity_relay, ?_, ?_, idealRuntime_unforgeable, ?_⟩, ?_, ?_⟩
  · exact ⟨[Displaced.authority], [Displaced.publish (Displaced.record Displaced.issued)], rfl⟩
  · have hdomain : domainOf "alice@example.org" = "example.org" := by decide
    rw [hdomain]
    exact Displaced.getDAR_relay
  · exact Displaced.credentialsVerify Displaced.blocklist_relay (List.mem_cons_self ..)
  · intro k hk
    cases hk
  · exact fun h => Displaced.not_fieldsKept h.2
  · exact fun h => Displaced.not_reissueAccepted h.2

theorem operator_fields_kept_by_republishing :
    Machine.Throughout (Relay.push Displaced.runtime none)
      (fun s => FieldsKept Displaced.runtime "alice@example.org" Displaced.held s ∧
        ReissueAccepted Displaced.runtime none (.fromProto Displaced.authority) Displaced.held s)
      Displaced.relay [Displaced.publish (Displaced.record Displaced.issued)] := by
  have hdomain : domainOf "alice@example.org" = "example.org" := by decide
  have hparse : IdentityRecord.fromProtoBytes Displaced.runtime
      (Displaced.publish (Displaced.record Displaced.issued)).data = some Displaced.held :=
    IdentityRecord.fromProtoBytes_plain rfl rfl rfl
  refine operator_fields_kept
    ⟨[Displaced.authority], [Displaced.publish (Displaced.record Displaced.issued)], rfl⟩
      (by decide)
    Displaced.getIdentity_relay (hdomain ▸ Displaced.getDAR_relay) ?_ ⟨⟨rfl, ?_, ?_⟩, trivial⟩
  · intro rm hrm
    have hany := (storedRemoval_eq_some.mp hrm).1
    rw [Displaced.records_relay] at hany
    cases hany
  · intro rec hrec _ _ _ _ _
    cases hparse.symm.trans hrec
    exact ⟨rfl, rfl, rfl, rfl, rfl, rfl⟩
  · intro rec held last hrec _ _ hlast
    cases hparse.symm.trans hrec
    cases hlast

end Dmcn
