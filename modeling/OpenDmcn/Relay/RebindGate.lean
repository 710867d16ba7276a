import OpenDmcn.Identity.DeviceGate
import OpenDmcn.Identity.Splice
import OpenDmcn.Relay.Invariant

/-! The rebind gate over whole runs: what must have been the case whenever the key held for an
address changes. -/

namespace Dmcn

open Go Guard RecordStore

variable {rt : Runtime} {anchor : DarAnchor}

def TombstoneArm (rt : Runtime) (rs : RecordStore) (dar : DomainAuthorityRecord) (a : String)
    (prev : IdentityRecord) : Prop :=
  ∃ rm, rs.storedRemovalAny rt a = some rm ∧ (∃ root ∈ dar.rootKeys, rm.verify rt root = true) ∧
    rm.address = a ∧ Strings.equalFold rt.unicode rm.domain (domainOf a) = true ∧
    prev.ed25519Public ∈ rm.keys

/-- The device has attested the entry: it is one of the address, by a credential that chains to the
authority record, and was enrolled for the days that the record asks for. -/
structure AttestedBy (rt : Runtime) (dar : DomainAuthorityRecord) (a : String)
    (last : RotationEntry) (cred : Credential) : Prop where
  named : last.deviceCredential = some cred
  role : cred.hasRole roleDevice = true
  address : Strings.equalFold rt.unicode cred.address a = true
  chain : verifyCredential rt cred (some dar) none last.rotatedAt = .ok ()
  tenure : tenureDays dar.rotationMinDeviceAgeDays * dayNanos ≤
    last.rotatedAt.nanos - cred.issuedAt.nanos
  signed : verifyCtx rt cred.subject .identityRotationDevice (last.deviceBytes rt)
    last.deviceSignature = true

structure RotationArm (rt : Runtime) (rs : RecordStore) (dar : DomainAuthorityRecord) (a : String)
    (prev next : IdentityRecord) : Prop where
  allowed : dar.allowKeyRotation = true
  chain : verifyRotationChain rt next = .ok ()
  terminal : ∃ last, next.rotationChain.getLast? = some last ∧
    last.retiredEd25519Public = prev.ed25519Public ∧ last.retiredX25519Public = prev.x25519Public ∧
    (∃ signer, (signer = prev.ed25519Public ∨ signer = prev.recoveryEd25519Public) ∧
      verifyCtx rt signer .identityRotation (last.consentBytes rt) last.signature = true) ∧
    verifyCtx rt next.ed25519Public .identityRotationAccept (last.acceptBytes rt)
      last.nextSignature = true ∧
    ∃ cred, AttestedBy rt dar a last cred
  advances : prev.revision < next.revision
  notTombstoned : ∀ rm, rs.storedRemovalAny rt a = some rm →
    (∃ root ∈ dar.rootKeys, rm.verify rt root = true) → next.ed25519Public ∉ rm.keys

/-- What a push may do to the key held for `a`: leave it, or change it through one of the arms,
the first of which no removal without a root's signature opens. -/
def KeyChangeGated (rt : Runtime) (anchor : DarAnchor) (a : String) (r : Relay) (p : Push) : Prop :=
  ∀ prev next, r.records.getIdentity rt a = some prev →
    (r.push rt anchor p).records.getIdentity rt a = some next →
    prev.ed25519Public ≠ next.ed25519Public →
    ∃ dar, r.records.getDAR rt (domainOf a) = some dar ∧
      (TombstoneArm rt r.records dar a prev ∨ RotationArm rt r.records dar a prev next) ∧
      ∀ rm, r.records.storedRemovalAny rt a = some rm →
        (∀ root ∈ dar.rootKeys, rm.verify rt root = false) → ¬ TombstoneArm rt r.records dar a prev

theorem tombstoneArm_of_frees {rs : RecordStore} {dar : DomainAuthorityRecord} {a : String}
    {prev next : IdentityRecord} {rm : AddressRemovalRecord} (hfiled : Filed rt rs)
    (hdar : dar.domain = domainOf a) (hrm : rs.storedRemoval rt dar a = some rm)
    (h : rebindTombstoneFrees rt prev next rm dar = .ok ()) : TombstoneArm rt rs dar a prev := by
  obtain ⟨hany, hroot⟩ := storedRemoval_eq_some.mp hrm
  obtain ⟨-, hdomain, -, hlisted⟩ := rebindTombstoneFrees_iff.mp h
  rw [hdar] at hdomain
  exact ⟨rm, hany, removalIsRootSigned_iff.mp hroot, hfiled.removal a rm hany, hdomain, hlisted⟩

def FitsTenure (dar : DomainAuthorityRecord) : Prop :=
  dar.rotationMinDeviceAgeDays = rotationMinDeviceAgeNone ∨ dar.rotationMinDeviceAgeDays.toNat ≤
    maxTenureDays

theorem rotationArm_of_ownerRotation {rs : RecordStore} {dar : DomainAuthorityRecord} {a : String}
    {prev next : IdentityRecord} {last : RotationEntry} {now : Time} (hfiled : Filed rt rs)
    (hfits : FitsTenure dar) (haddr : next.address = a)
    (hlast : next.rotationChain.getLast? = some last)
    (h : OwnerRotation rt prev next last (rs.storedRemoval rt dar a) dar now) :
    RotationArm rt rs dar a prev next := by
  obtain ⟨hverify, hfold, hnext, -, -⟩ := verifyRotationChain_last h.chain hlast
  obtain ⟨hconsent, haccept, hdevice⟩ := RotationEntry.verify_signatures hverify
  obtain ⟨cred, hcred⟩ := h.device
  have htenure := tenureEnforced_of_fits hfits rt last dar now rfl
    (authorizeRotationDevice_eq_ok.mpr h.device) cred
    hcred.named
  rw [haddr] at hfold
  refine ⟨h.allowed, h.chain, ?_, h.advances, ?_⟩
  · refine ⟨last, hlast, h.retiresKey, h.retiresMailboxKey, ⟨_, h.authorized, hconsent⟩,
      hnext ▸ haccept, cred, hcred.named, hcred.role, Strings.equalFold_trans hcred.address hfold,
        hcred.chain,
      htenure, hdevice cred hcred.named⟩
  · intro rm hrm hroot hlisted
    have hsigned := removalIsRootSigned_iff.mpr hroot
    have hstored : rs.storedRemoval rt dar a = some rm := storedRemoval_eq_some.mpr ⟨hrm, hsigned⟩
    have hnot := h.notTombstoned
    rw [hstored] at hnot
    have hsome := AddressRemovalRecord.removed_isSome.mpr hlisted
    simp [incomingTombstoned, hsigned, hfiled.removal a rm hrm, haddr, hsome] at hnot

def HoldsFitting (rt : Runtime) (a : String) (r : Relay) : Prop :=
  ∃ dar, r.records.getDAR rt (domainOf a) = some dar ∧ FitsTenure dar

theorem keyChangeGated_push {a : String} {r : Relay} {p : Push} (hfiled : Filed rt r.records)
    (heph : isEphemeralAddress a = false) (hdar : HoldsFitting rt a r) :
    KeyChangeGated rt anchor a r p := by
  intro prev next hprev hnext hne
  obtain ⟨dar, hheld, hfits⟩ := hdar
  refine ⟨dar, hheld, ?_, ?_⟩
  · rcases getIdentity_push rt anchor r p a with hsame | ⟨rec, -, hadm, ha, hnew⟩
    · cases hprev.symm.trans (hsame.symm.trans hnext)
      exact absurd rfl hne
    · cases hnew.symm.trans hnext
      subst ha
      obtain ⟨-, hgate⟩ := (checkDomainGates_eq_ok heph).mp hadm.gates
      rw [hheld] at hgate
      have hdomain := hfiled.dar _ dar hheld
      cases continuity_of_ok hprev hgate with
      | sameKey h => exact absurd h hne
      | noAuthority h => cases h
      | tombstone hd hrm h =>
        cases hd
        exact .inl (tombstoneArm_of_frees hfiled hdomain hrm h)
      | rotation hd hlast h =>
        cases hd
        exact .inr (rotationArm_of_ownerRotation hfiled hfits rfl hlast h)
  · rintro rm hrm hunsigned ⟨rm', hrm', ⟨root, hroot, hverify⟩, -⟩
    cases hrm.symm.trans hrm'
    rw [hunsigned root hroot] at hverify
    cases hverify

/-- Over every run of a node that holds the domain's authority record throughout, from every
reachable state, the key held for an address changes only through one of the two arms, as long as
the days that the record asks of a device fit. -/
theorem key_changes_are_gated {a : String} {r : Relay} {ps : List Push}
    (hreach : r.Reachable rt anchor) (heph : isEphemeralAddress a = false)
    (hheld : Machine.Throughout (Relay.push rt anchor) (HoldsFitting rt a) r ps) :
    Machine.Along (Relay.push rt anchor) (KeyChangeGated rt anchor a) r ps := by
  induction ps generalizing r with
  | nil => trivial
  | cons p ps ih =>
    exact ⟨keyChangeGated_push hreach.filed heph hheld.1, ih (hreach.push p) hheld.2⟩

namespace Rebound

def authority : Pb.DomainAuthorityRecord :=
  { (default : Pb.DomainAuthorityRecord) with
    version := 1, domain := "example.org", authorityEd25519PublicKey := keyOf 1, revision := 1 }

def record (b : UInt8) : Pb.IdentityRecord :=
  { (default : Pb.IdentityRecord) with
    version := 1, address := "alice@example.org", ed25519PublicKey := keyOf b, revision := 1 }

def tombstone : Pb.AddressRemovalRecord :=
  { (default : Pb.AddressRemovalRecord) with
    version := 1, domain := "example.org", address := "alice@example.org"
    removedBindings := [⟨keyOf 2, 0⟩], revision := 1 }

noncomputable def runtime : Runtime := idealRuntime [keyOf 1, keyOf 2, keyOf 3] []

noncomputable def relay : Relay := seedOwnRecords runtime [.fromProto authority]

noncomputable def publish (b : UInt8) : Push :=
  ⟨default, .identity, runtime.identityRecord.marshal (record b)⟩

noncomputable def retire : Push :=
  ⟨default, .removal, runtime.addressRemovalRecord.marshal tombstone⟩

theorem parsed_record (b : UInt8) : IdentityRecord.fromProtoBytes runtime (publish b).data =
    some (.ofMessage (record b) []) :=
  IdentityRecord.fromProtoBytes_plain rfl rfl rfl

theorem admitted {r : Relay} {b : UInt8} (hb : keyOf b ∈ [keyOf 1, keyOf 2, keyOf 3])
    (hdar : r.records.getDAR runtime "example.org" = some (.fromProto authority))
    (hgate : (checkKeyContinuity runtime r (.ofMessage (record b) []) (some (.fromProto authority))
      default).2 = .ok ())
    (hfresh : checkRollback runtime r.records (.ofMessage (record b) []) = .ok ()) :
    IdentityAdmitted runtime r default (publish b).data (.ofMessage (record b) []) := by
  have hverify : (IdentityRecord.ofMessage (record b) []).verify runtime = true :=
    IdentityRecord.verify_idealRuntime hb (length_keyOf b)
  have hlive : (IdentityRecord.ofMessage (record b) []).expired default = false :=
    IdentityRecord.not_expired_of_unset rfl
  refine ⟨parsed_record b, hverify, hlive, ?_, hfresh⟩
  have haddr : (IdentityRecord.ofMessage (record b) []).address = "alice@example.org" := rfl
  have hdomain : domainOf "alice@example.org" = "example.org" := by decide
  refine (checkDomainGates_eq_ok (by rw [haddr]; decide)).mpr ?_
  rw [haddr, hdomain, hdar]
  refine ⟨checkReservedLocalPart_of_not_reserved ?_, hgate⟩
  rintro d ⟨⟩
  exact DomainAuthorityRecord.reservesLocalPart_nil rfl

noncomputable def relay1 : Relay := relay.push runtime none (publish 2)
noncomputable def relay2 : Relay := relay1.push runtime none retire
noncomputable def relay3 : Relay := relay2.push runtime none (publish 3)

theorem getIdentity_relay (a : String) : relay.records.getIdentity runtime a = none := by
  exact getIdentity_put_of_ne (by decide)

theorem records_relay1 : relay1.records = relay.records.putIdentity runtime
    (.ofMessage (record 2) []) := by
  have hadm : IdentityAdmitted runtime relay (publish 2).now (publish 2).data
      (.ofMessage (record 2) []) := by
    refine admitted (by simp) (getDAR_seed_singleton rfl) ?_ ?_
    · apply checkKeyContinuity_sameKey
      intro prev hprev
      cases (getIdentity_relay _).symm.trans hprev
    · rw [checkRollback_eq_ok]
      intro existing hexisting
      cases (getIdentity_relay _).symm.trans hexisting
  exact (acceptRecord_identity rfl hadm).2

theorem getDAR_relay1 : relay1.records.getDAR runtime "example.org" = some
    (.fromProto authority) := by
  rw [records_relay1]
  exact (getDAR_put_of_ne (by decide)).trans (getDAR_seed_singleton rfl)

theorem getIdentity_relay1 : relay1.records.getIdentity runtime "alice@example.org" =
    some (.ofMessage (record 2) []) := by
  rw [records_relay1, getIdentity_putIdentity (parsed_record 2)]
  exact if_pos rfl

theorem rootSigned : removalIsRootSigned runtime (.fromProto authority)
    (.fromProto tombstone) = true := by
  rw [removalIsRootSigned_iff]
  refine ⟨keyOf 1, List.mem_cons_self .., ?_⟩
  exact AddressRemovalRecord.verify_idealRuntime.mpr ⟨length_keyOf 1, .inl (by simp)⟩

theorem records_relay2 : relay2.records = relay1.records.putRemoval runtime
    (.fromProto tombstone) := by
  have hadm : RemovalAdmitted runtime relay1.records retire.data (.fromProto tombstone)
      (.fromProto authority) := by
    refine ⟨AddressRemovalRecord.fromProtoBytes_marshal runtime tombstone, by decide, by decide,
      by decide, getDAR_relay1, .inl rootSigned, ?_⟩
    intro existing hexisting
    rw [records_relay1] at hexisting
    cases hexisting
  exact (acceptRecord_removal rfl hadm).2

theorem getIdentity_relay2 : relay2.records.getIdentity runtime "alice@example.org" =
    some (.ofMessage (record 2) []) := by
  rw [records_relay2]
  exact (getIdentity_put_of_ne (by decide)).trans getIdentity_relay1

theorem getDAR_relay2 : relay2.records.getDAR runtime "example.org" = some
    (.fromProto authority) := by
  rw [records_relay2]
  exact (getDAR_put_of_ne (by decide)).trans getDAR_relay1

theorem storedRemoval_relay2 : relay2.records.storedRemoval runtime (.fromProto authority)
    "alice@example.org" = some (.fromProto tombstone) := by
  rw [storedRemoval_eq_some, records_relay2, storedRemovalAny_putRemoval
    (AddressRemovalRecord.fromProtoBytes_marshal runtime tombstone) (by decide)]
  exact ⟨if_pos rfl, rootSigned⟩

theorem records_relay3 : relay3.records = relay2.records.putIdentity runtime
    (.ofMessage (record 3) []) := by
  have hadm : IdentityAdmitted runtime relay2 (publish 3).now (publish 3).data
      (.ofMessage (record 3) []) := by
    refine admitted (by simp) getDAR_relay2 ?_ ?_
    · apply checkKeyContinuity_tombstone getIdentity_relay2 storedRemoval_relay2
      exact rebindTombstoneFrees_iff.mpr ⟨by decide, by decide, rootSigned, List.mem_cons_self ..⟩
    · rw [checkRollback_eq_ok]
      intro existing hexisting
      cases getIdentity_relay2.symm.trans hexisting
      decide
  exact (acceptRecord_identity rfl hadm).2

theorem getIdentity_relay3 : relay3.records.getIdentity runtime "alice@example.org" =
    some (.ofMessage (record 3) []) := by
  rw [records_relay3, getIdentity_putIdentity (parsed_record 3)]
  exact if_pos rfl

theorem getDAR_relay3 : relay3.records.getDAR runtime "example.org" = some
    (.fromProto authority) := by
  rw [records_relay3]
  exact (getDAR_put_of_ne (by decide)).trans getDAR_relay2

end Rebound

theorem key_change_after_tombstone :
    Rebound.relay2.records.getIdentity Rebound.runtime "alice@example.org" =
      some (.ofMessage (Rebound.record 2) []) ∧
    Rebound.relay3.records.getIdentity Rebound.runtime "alice@example.org" =
      some (.ofMessage (Rebound.record 3) []) ∧
    Machine.Along (Relay.push Rebound.runtime none)
      (KeyChangeGated Rebound.runtime none "alice@example.org") Rebound.relay
      [Rebound.publish 2, Rebound.retire, Rebound.publish 3] := by
  refine ⟨Rebound.getIdentity_relay2, Rebound.getIdentity_relay3,
    key_changes_are_gated ⟨[Rebound.authority], [], rfl⟩ (by decide) ?_⟩
  have hfits : FitsTenure (.fromProto Rebound.authority) := .inr (by decide)
  exact ⟨⟨_, getDAR_seed_singleton rfl, hfits⟩, ⟨_, Rebound.getDAR_relay1, hfits⟩,
    ⟨_, Rebound.getDAR_relay2, hfits⟩, ⟨_, Rebound.getDAR_relay3, hfits⟩⟩

/-! A domain that asks for 106752 days, and a device that was enrolled a hundred seconds ago. -/
namespace JustEnrolled

noncomputable def runtime : Runtime := idealRuntime [keyOf 1, keyOf 2, keyOf 3, keyOf 5] []

def authority : Pb.DomainAuthorityRecord :=
  { plainAuthority "example.org" 1 with
    policyFlags := policyAllowKeyRotation, rotationMinDeviceAgeDays := 106752 }

def device : Credential :=
  .fromProto (plainCredential "example.org" "alice@example.org" roleDevice 1 5)

def entry : RotationEntry :=
  { Handed.entry 2 3 200 2 [] 1 with
    deviceCredential := some device, deviceSignature := Handed.sig 2 }

def message (key : UInt8) (revision : UInt64) (chain : List RotationEntry) : Pb.IdentityRecord :=
  { plainRecord "alice@example.org" key with
    x25519PublicKey := keyOf key, revision := revision, rotationChain :=
      chain.map RotationEntry.toProto }

def record (key : UInt8) (revision : UInt64) (chain : List RotationEntry) : IdentityRecord :=
  .ofMessage (message key revision chain) chain

noncomputable def send (key : UInt8) (revision : UInt64) (chain : List RotationEntry) : Push :=
  ⟨Time.ofUnix 200, .identity, runtime.identityRecord.marshal (message key revision chain)⟩

noncomputable def relay : Relay := seedOwnRecords runtime [.fromProto authority]

noncomputable def published : Relay := relay.push runtime none (send 2 1 [])

theorem verifyCtx_held (key : UInt8) {ctx : Ctx} {data sig : Bytes}
    (hkey : keyOf key ∈ [keyOf 1, keyOf 2, keyOf 3, keyOf 5]) (hsig : sig.length = 64) :
    verifyCtx runtime (keyOf key) ctx data sig = true :=
  verifyCtx_idealRuntime.mpr ⟨length_keyOf key, hsig, .inl hkey⟩

theorem verify_entry : entry.verify runtime = .ok () := by
  simp only [RotationEntry.verify, unit_bind, require_eq_ok]
  refine ⟨by decide, verifyCtx_held 2 (by simp) (Handed.length_sig _), ?_,
    verifyCtx_held 3 (by simp) (Handed.length_sig _)⟩
  exact require_eq_ok.mpr (verifyCtx_held 5 (by simp) (Handed.length_sig _))

theorem verify_record {key : UInt8} (hkey : keyOf key ∈ [keyOf 1, keyOf 2, keyOf 3, keyOf 5])
    (revision : UInt64) (chain : List RotationEntry) : (record key revision chain).verify runtime =
    true :=
  IdentityRecord.verify_idealRuntime hkey (length_keyOf key)

theorem live_record (key : UInt8) (revision : UInt64) (chain : List RotationEntry) :
    (record key revision chain).expired (Time.ofUnix 200) = false :=
  IdentityRecord.not_expired_of_unset rfl

theorem parsed_send {chain : List RotationEntry} (hchain : ∀ e ∈ chain, e = entry) (key : UInt8)
    (revision : UInt64) :
    IdentityRecord.fromProtoBytes runtime (send key revision chain).data =
      some (record key revision chain) := by
  unfold IdentityRecord.fromProtoBytes send
  dsimp only
  rw [Codec.unmarshal_marshal, Option.bind_some]
  refine IdentityRecord.fromProto_eq_some.mpr ⟨.inl rfl, ?_, chain, ?_, rfl⟩
  · change validateForwardTo runtime "alice@example.org" "" = true
    simp [validateForwardTo]
  · have hentry : entry.reread = entry := by
      simp [RotationEntry.reread, entry, Handed.entry, device]
    have hread : chain.map RotationEntry.reread = chain := by
      refine (List.map_congr_left fun e he => ?_).trans (List.map_id chain)
      rw [hchain e he]
      exact hentry
    have hparsed := rotationChainFromProto_eq_reread chain
    rw [hread] at hparsed
    exact hparsed

theorem not_reserved : ∀ d, some (DomainAuthorityRecord.fromProto authority) = some d →
    d.reservesLocalPart runtime (localPartOf "alice@example.org") = false := by
  intro d hd
  cases hd
  rfl

theorem published_eq :
    published = ⟨relay.records.putIdentity runtime (record 2 1 []), .newRotationLimiter⟩ := by
  have hadmitted : IdentityAdmitted runtime relay (Time.ofUnix 200) (send 2 1 []).data
      (record 2 1 []) := by
    refine .genesis (parsed_send (by simp) 2 1) (verify_record (by simp) 1 []) (live_record 2 1 [])
      (getIdentity_seed _ _ _) fun d hd => ?_
    obtain rfl := eq_of_getDAR_seed hd
    rfl
  exact push_genesis hadmitted (getIdentity_seed _ _ _)

theorem getIdentity_published :
    published.records.getIdentity runtime "alice@example.org" = some (record 2 1 []) := by
  rw [published_eq, getIdentity_putIdentity (parsed_send (by simp) 2 1)]
  exact if_pos rfl

theorem getDAR_published : published.records.getDAR runtime "example.org" = some
    (.fromProto authority) := by
  rw [published_eq]
  exact (getDAR_put_of_ne (by decide)).trans (getDAR_seed_singleton rfl)

theorem storedRemovalAny_published :
    published.records.storedRemovalAny runtime "alice@example.org" = none := by
  rw [published_eq]
  exact (storedRemovalAny_put_of_ne (by decide)).trans (storedRemovalAny_seed _ _ _)

theorem ownerRotation : OwnerRotation runtime (record 2 1 []) (record 3 2 [entry]) entry none
    (.fromProto authority) (Time.ofUnix 200) := by
  have hlinks : verifyChainLinks runtime [entry] "alice@example.org" = .ok () := by
    simp only [verifyChainLinks, verifyLinksAfter, verifyLink, unit_bind, require_eq_ok]
    exact ⟨⟨verify_entry, Strings.equalFold_refl _, rfl⟩, trivial⟩
  have hchain : verifyRotationChain runtime (record 3 2 [entry]) = .ok () := by
    have hlast : (record 3 2 [entry]).rotationChain.getLast? = some entry := rfl
    unfold verifyRotationChain
    rw [hlast]
    simp only [unit_bind, require_eq_ok, refuse_eq_ok, Nat.not_lt]
    exact ⟨by decide, hlinks, ⟨rfl, rfl⟩, rfl⟩
  have hdevice : verifyCredential runtime device (some (.fromProto authority)) none
      (Time.ofUnix 200) = .ok () := by
    have hsig : device.verifySignature runtime = true := Credential.verifySignature_idealRuntime.mpr
      ⟨length_keyOf 1, List.length_replicate, .inl (by decide)⟩
    exact verifyCredential_of_root hsig rfl rfl rfl (rootKeyAt_plainAuthority "example.org" 1) rfl
      (by decide)
      (by decide) rfl (by decide)
  exact ⟨by decide, hchain, rfl, rfl, .inl rfl, by decide,
    ⟨device, rfl, by decide, Strings.equalFold_refl _, hdevice, by decide, by decide⟩, rfl⟩

theorem records_rotated : (published.push runtime none (send 3 2 [entry])).records =
    published.records.putIdentity runtime (record 3 2 [entry]) := by
  have hdomain : domainOf "alice@example.org" = "example.org" := by decide
  have harm : authorizeRebind runtime (some (record 2 1 [])) (record 3 2 [entry])
      (published.records.storedRemoval runtime (.fromProto authority) "alice@example.org")
        (some (.fromProto authority))
      (Time.ofUnix 200) = .ok .ownerRotation := by
    have hnone : published.records.storedRemoval runtime (.fromProto authority)
        "alice@example.org" = none := by
      unfold storedRemoval
      rw [storedRemovalAny_published]
      rfl
    have hkey : keyOf 2 ≠ keyOf 3 := by decide
    rw [hnone]
    exact authorizeRebind_ownerRotation hkey rfl ownerRotation
  have hparsed : IdentityRecord.fromProtoBytes runtime (send 3 2 [entry]).data =
      some (record 3 2 [entry]) :=
    parsed_send (by simp) 3 2
  have hdar : published.records.getDAR runtime (domainOf (record 3 2 [entry]).address) =
      some (.fromProto authority) := hdomain ▸ getDAR_published
  have hadmitted : IdentityAdmitted runtime published (Time.ofUnix 200) (send 3 2 [entry]).data
      (record 3 2 [entry]) := by
    refine ⟨hparsed, verify_record (by simp) 2 [entry], live_record 3 2 [entry], ?_, ?_⟩
    · have hplain : isEphemeralAddress (record 3 2 [entry]).address = false := by
        change isEphemeralAddress "alice@example.org" = false
        decide
      rw [checkDomainGates_eq_ok hplain, hdar]
      refine ⟨checkReservedLocalPart_of_not_reserved not_reserved,
        checkKeyContinuity_ownerRotation getIdentity_published harm ?_⟩
      rw [published_eq]
      rfl
    · rw [checkRollback_eq_ok]
      intro existing hexisting
      cases getIdentity_published.symm.trans hexisting
      exact ⟨by decide, fun hrevision => by cases hrevision⟩
  exact (acceptRecord_identity rfl hadmitted).2

theorem getIdentity_rotated : (published.push runtime none (send 3 2 [entry])).records.getIdentity
    runtime
    "alice@example.org" = some (record 3 2 [entry]) := by
  rw [records_rotated, getIdentity_putIdentity (parsed_send (by simp) 3 2)]
  exact if_pos rfl

/-- The key changes, and neither is there a tombstone nor is the device old enough. -/
theorem young_device_rotates : relay.Reachable runtime none ∧
    isEphemeralAddress "alice@example.org" = false ∧
    Machine.Throughout (Relay.push runtime none)
      (fun s => (s.records.getDAR runtime (domainOf "alice@example.org")).isSome = true) relay
      [send 2 1 [], send 3 2 [entry]] ∧
    ¬ Machine.Along (Relay.push runtime none) (KeyChangeGated runtime none "alice@example.org")
      relay
      [send 2 1 [], send 3 2 [entry]] := by
  have hdomain : domainOf "alice@example.org" = "example.org" := by decide
  have hkey : keyOf 2 ≠ keyOf 3 := by decide
  have hrotated : (published.push runtime none (send 3 2 [entry])).records.getDAR runtime
      "example.org" =
      some (.fromProto authority) := by
    rw [records_rotated]
    exact (getDAR_put_of_ne (by decide)).trans getDAR_published
  simp only [hdomain]
  refine ⟨⟨[authority], [], rfl⟩, by decide, ⟨?_, ?_, ?_⟩, fun h => ?_⟩
  · exact Option.isSome_iff_exists.mpr ⟨_, getDAR_seed_singleton rfl⟩
  · exact Option.isSome_iff_exists.mpr ⟨_, getDAR_published⟩
  · exact Option.isSome_iff_exists.mpr ⟨_, hrotated⟩
  · obtain ⟨dar, hdar, harm, -⟩ := h.2.1 _ _ getIdentity_published getIdentity_rotated hkey
    rw [hdomain] at hdar
    obtain rfl : DomainAuthorityRecord.fromProto authority = dar :=
      Option.some.inj (getDAR_published.symm.trans hdar)
    rcases harm with ⟨rm, hrm, -⟩ | hrotation
    · cases storedRemovalAny_published.symm.trans hrm
    · obtain ⟨last, hlast, -, -, -, -, cred, hcred⟩ := hrotation.terminal
      obtain rfl : entry = last := Option.some.inj hlast
      obtain rfl : device = cred := Option.some.inj hcred.named
      exact absurd hcred.tenure (by decide)

end JustEnrolled

end Dmcn
