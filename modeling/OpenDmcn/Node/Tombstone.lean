import OpenDmcn.Node.LocalFirst

/-! What a tombstone suppresses. The serving handler and the authentication path look at the
expiry of the record they hold and never at its removal, and a reader looks at the removal only
once the record has shown an address credential. -/

namespace Dmcn

open Go Guard RecordStore

variable {rt : Runtime} {anchor : DarAnchor} {n : Node} {now : Time} {a : String}

/-- The documented effect of a tombstone on the record held: not served, not authenticated
against, and unverified to every reader handed the record, the authority record and the removal. -/
structure Suppressed (rt : Runtime) (n : Node) (r : Relay) (now : Time) (a : String)
    (rec : IdentityRecord) (dar : DomainAuthorityRecord) (blocks : Option CredentialBlockList)
    (rm : AddressRemovalRecord) : Prop where
  unserved : handleGetIdentity rt (some r.records) now a = none
  unauthenticated : ∀ rec', resolveIdentity rt (some r.records) ((n.serving r.records).lookup rt)
    now a =
    .ok (some rec') → rec'.ed25519Public ≠ rec.ed25519Public
  unverified : tierOf (verifyManagedRecord rt rec dar blocks (some rm) now) = tierUnverified

theorem unserved_iff {rs : RecordStore} {rec : IdentityRecord}
    (h : rs.getIdentity rt a = some rec) :
    handleGetIdentity rt (some rs) now a = none ↔ rec.expired now = true := by
  rw [← Option.not_isSome_iff_eq_none, handleGetIdentity_isSome h]
  simp

theorem unauthenticated_of_expired {rs : RecordStore} {rec : IdentityRecord}
    (h : rs.getIdentity rt a = some rec) (hexp : rec.expired now = true) (rec' : IdentityRecord) :
    resolveIdentity rt (some rs) ((n.serving rs).lookup rt) now a ≠ .ok (some rec') := by
  rw [Node.resolveIdentity_eq_lookup, Ne, Node.lookup_own h]
  rintro ⟨-, hlive⟩
  cases hexp.symm.trans hlive

/-- A reader handed a suppressing removal that lists the key stays at `TierUnverified`, unless the
record takes the exit for records without an address credential. -/
theorem unverified_iff {rec : IdentityRecord} {dar : DomainAuthorityRecord}
    {rm : AddressRemovalRecord} (now : Time) (blocks : Option CredentialBlockList)
    (hverify : rec.verify rt = true) (hdomain : domainOf rec.address = dar.domain)
    (hne : dar.domain ≠ "") (hsup : removalSuppresses rt rec dar rm = true)
    (hlisted : rec.ed25519Public ∈ rm.keys) :
    tierOf (verifyManagedRecord rt rec dar blocks (some rm) now) = tierUnverified ↔
      rec.hasAddressCredential = true ∨ rec.verificationTier = tierUnverified ∨
        checkRouting rt rec dar blocks now ≠ .ok () := by
  have hremoved : bindingRemoved rt rec dar (some rm) = true := by
    simp [bindingRemoved, hsup, AddressRemovalRecord.removed_isSome.mpr hlisted]
  cases hverdict : verifyManagedRecord rt rec dar blocks (some rm) now with
  | error e =>
    simp only [tierOf, true_iff]
    by_contra hnot
    simp only [not_or, not_not] at hnot
    obtain ⟨hcred, -, hrouting⟩ := hnot
    have hcred : rec.addressCredential = none := by
      simpa [IdentityRecord.hasAddressCredential] using hcred
    have hok : verifyManagedRecord rt rec dar blocks (some rm) now = .ok rec.verificationTier := by
      simp only [verifyManagedRecord, unit_bind, require_eq_ok, refuse_eq_ok, hdomain, hcred]
      exact ⟨hverify, by simp [hne], hrouting, rfl⟩
    cases hverdict.symm.trans hok
  | ok t =>
    cases hcred : rec.addressCredential with
    | some cred =>
      have hkept := (verifyManagedRecord_credential hverdict hcred).2.2
      cases hkept.symm.trans hremoved
    | none =>
      simp only [verifyManagedRecord, unit_bind, hcred, pure_eq_ok] at hverdict
      obtain ⟨-, -, hrouting, rfl⟩ := hverdict
      simp [tierOf, IdentityRecord.hasAddressCredential, hcred, hrouting]

/-- In every reachable state that holds a record and a removal that suppresses it, the tombstone
has its effect exactly when the record has also expired and shows its readers an address
credential, no tier of its own, or routing that fails. -/
theorem tombstone_suppresses_iff {r : Relay} {rec : IdentityRecord} {dar : DomainAuthorityRecord}
    {rm : AddressRemovalRecord} (n : Node) (now : Time) (blocks : Option CredentialBlockList)
    (hreach : r.Reachable rt anchor) (hrec : r.records.getIdentity rt a = some rec)
    (hdar : r.records.getDAR rt (domainOf a) = some dar)
    (hrm : r.records.storedRemovalAny rt a = some rm)
    (hsup : removalSuppresses rt rec dar rm = true) (hlisted : rec.ed25519Public ∈ rm.keys) :
    Suppressed rt n r now a rec dar blocks rm ↔ rec.expired now = true ∧
      (rec.hasAddressCredential = true ∨ rec.verificationTier = tierUnverified ∨
        checkRouting rt rec dar blocks now ≠ .ok ()) := by
  have hfiled := hreach.filed
  obtain ⟨haddr, hverify⟩ := hfiled.identity a rec hrec
  have hdomain : domainOf rec.address = dar.domain := by rw [haddr, hfiled.dar _ dar hdar]
  have hne : dar.domain ≠ "" := by
    obtain ⟨hnamed, hfold⟩ := hreach.removal_domain a rm hrm
    rw [hfiled.dar _ dar hdar]
    intro hempty
    rw [hempty] at hfold
    exact hnamed (Strings.eq_empty_of_equalFold hfold)
  have htier := unverified_iff now blocks hverify hdomain hne hsup hlisted
  constructor
  · intro h
    exact ⟨(unserved_iff hrec).mp h.unserved, htier.mp h.unverified⟩
  · rintro ⟨hexp, hshown⟩
    exact ⟨(unserved_iff hrec).mpr hexp, fun rec' h =>
      absurd h (unauthenticated_of_expired hrec hexp rec'), htier.mpr hshown⟩

namespace Retired

def authority : Pb.DomainAuthorityRecord := plainAuthority "example.org" 1

def record (tier : Int32) (expires : Int64) : Pb.IdentityRecord :=
  { plainRecord "alice@example.org" 2 with verificationTier := tier, expiresAt := expires }

def removal : Pb.AddressRemovalRecord := plainRemoval "example.org" "alice@example.org" [2] 1

noncomputable def runtime : Runtime := idealRuntime [keyOf 2] []

noncomputable def seeded : Relay := seedOwnRecords runtime [.fromProto authority]

noncomputable def pushRecord (tier : Int32) (expires : Int64) : Push :=
  ⟨Time.ofUnix 50, .identity, runtime.identityRecord.marshal (record tier expires)⟩

noncomputable def pushRemoval : Push :=
  ⟨Time.ofUnix 60, .removal, runtime.addressRemovalRecord.marshal removal⟩

noncomputable def published (tier : Int32) (expires : Int64) : Relay :=
  seeded.push runtime none (pushRecord tier expires)

noncomputable def relay (tier : Int32) (expires : Int64) : Relay :=
  (published tier expires).push runtime none pushRemoval

def node : Node where
  hostID := "host"
  staticDNS := fun _ => none
  peers := []
  net := {
    resolveDNS := fun _ _ => .error .notFound
    dnsVerify := fun _ _ _ => false
    parseRelayHint := fun _ => none
    connect := fun _ _ => false
    connected := fun _ => []
    clientGetDAR := fun _ _ _ => none
    clientGetIdentity := fun _ _ _ => none
    clientGetRemoval := fun _ _ _ => none
    clientGetBlocklist := fun _ _ _ => none }
  records := none

variable {tier : Int32} {expires : Int64}

theorem parsed : IdentityRecord.fromProtoBytes runtime (pushRecord tier expires).data =
    some (.ofMessage (record tier expires) []) := IdentityRecord.fromProtoBytes_plain rfl rfl rfl

theorem admitted (hlive : (IdentityRecord.ofMessage (record tier expires) []).expired
    (Time.ofUnix 50) = false) : IdentityAdmitted runtime seeded (pushRecord tier expires).now
      (pushRecord tier expires).data (.ofMessage (record tier expires) []) := by
  have hverify : (IdentityRecord.ofMessage (record tier expires) []).verify runtime = true :=
    IdentityRecord.verify_idealRuntime (List.mem_singleton.mpr rfl) (length_keyOf 2)
  refine .genesis parsed hverify hlive (getIdentity_seed _ _ _) ?_
  intro d hd
  obtain rfl := eq_of_getDAR_seed hd
  exact DomainAuthorityRecord.reservesLocalPart_nil rfl

theorem records_published (hlive : (IdentityRecord.ofMessage (record tier expires) []).expired
    (Time.ofUnix 50) = false) : (published tier expires).records =
      seeded.records.putIdentity runtime (.ofMessage (record tier expires) []) :=
  (acceptRecord_identity rfl (admitted hlive)).2

theorem getIdentity_published (hlive : (IdentityRecord.ofMessage (record tier expires) []).expired
    (Time.ofUnix 50) = false) : (published tier expires).records.getIdentity runtime
      "alice@example.org" =
      some (.ofMessage (record tier expires) []) := by
  rw [records_published hlive, getIdentity_putIdentity parsed]
  exact if_pos rfl

theorem ownerSigned : removalIsOwnerSigned runtime (.ofMessage (record tier expires) [])
    (.fromProto removal) = true := by
  have hsigned : (AddressRemovalRecord.fromProto removal).verify runtime (keyOf 2) = true :=
    AddressRemovalRecord.verify_idealRuntime.mpr ⟨length_keyOf 2, .inl (List.mem_singleton.mpr rfl)⟩
  have haddr : (AddressRemovalRecord.fromProto removal).address = "alice@example.org" := rfl
  simp only [removalIsOwnerSigned, Bool.and_eq_true]
  exact ⟨⟨rfl, by rw [haddr]; exact Strings.equalFold_refl _⟩, hsigned⟩

theorem records_relay (hlive : (IdentityRecord.ofMessage (record tier expires) []).expired
    (Time.ofUnix 50) = false) : (relay tier expires).records =
      (published tier expires).records.putRemoval runtime (.fromProto removal) := by
  have hadm : RemovalAdmitted runtime (published tier expires).records pushRemoval.data
      (.fromProto removal) (.fromProto authority) := by
    refine ⟨AddressRemovalRecord.fromProtoBytes_marshal runtime removal,
      by decide, by decide, by decide, ?_, .inr ?_, ?_⟩
    · rw [records_published hlive]
      exact (getDAR_put_of_ne (by decide)).trans (getDAR_seed_singleton rfl)
    · have haddress : (AddressRemovalRecord.fromProto removal).address = "alice@example.org" := rfl
      unfold ownerSignedBy
      rw [haddress, getIdentity_published hlive]
      exact ownerSigned
    · intro existing hexisting
      have hnone : (published tier expires).records.storedRemovalAny runtime "alice@example.org" =
          none := by
        rw [records_published hlive]
        exact (storedRemovalAny_put_of_ne (by decide)).trans (storedRemovalAny_seed runtime _ _)
      cases hnone.symm.trans hexisting
  exact (acceptRecord_removal rfl hadm).2

theorem holds (hlive : (IdentityRecord.ofMessage (record tier expires) []).expired
    (Time.ofUnix 50) = false) :
    (relay tier expires).Reachable runtime none ∧
    (relay tier expires).records.getIdentity runtime "alice@example.org" =
      some (.ofMessage (record tier expires) []) ∧
    (relay tier expires).records.getDAR runtime (domainOf "alice@example.org") =
      some (.fromProto authority) ∧
    (relay tier expires).records.storedRemovalAny runtime "alice@example.org" =
      some (.fromProto removal) := by
  have hdomain : domainOf "alice@example.org" = "example.org" := by decide
  refine ⟨⟨[authority], [pushRecord tier expires, pushRemoval], rfl⟩, ?_, ?_, ?_⟩
  · rw [records_relay hlive]
    exact (getIdentity_put_of_ne (by decide)).trans (getIdentity_published hlive)
  · rw [records_relay hlive, records_published hlive, hdomain]
    exact (getDAR_put_of_ne (by decide)).trans
      ((getDAR_put_of_ne (by decide)).trans (getDAR_seed_singleton rfl))
  · have hparse := AddressRemovalRecord.fromProtoBytes_marshal runtime removal
    rw [records_relay hlive, storedRemovalAny_putRemoval hparse (by decide)]
    exact if_pos rfl

theorem suppresses : removalSuppresses runtime (.ofMessage (record tier expires) [])
    (.fromProto authority) (.fromProto removal) = true := by
  rw [removalSuppresses, ownerSigned, Bool.or_true]

theorem listed : (IdentityRecord.ofMessage (record tier expires) []).ed25519Public ∈
    (AddressRemovalRecord.fromProto removal).keys := List.mem_singleton.mpr rfl

end Retired

/-- Alice has retired her key, and the node goes on as before: it serves the record, takes it for
authentication, and a reader handed the removal still reports the tier she claims. -/
theorem tombstone_ignored :
    ((Retired.relay 2 0).Reachable Retired.runtime none ∧
      (Retired.relay 2 0).records.storedRemovalAny Retired.runtime "alice@example.org" =
        some (.fromProto Retired.removal) ∧
      removalSuppresses Retired.runtime (.ofMessage (Retired.record 2 0) [])
        (.fromProto Retired.authority) (.fromProto Retired.removal) = true ∧
      (IdentityRecord.ofMessage (Retired.record 2 0) []).ed25519Public ∈
        (AddressRemovalRecord.fromProto Retired.removal).keys) ∧
    (handleGetIdentity Retired.runtime (some (Retired.relay 2 0).records) default
      "alice@example.org").isSome = true ∧
    resolveIdentity Retired.runtime (some (Retired.relay 2 0).records)
      ((Retired.node.serving (Retired.relay 2 0).records).lookup Retired.runtime) default
      "alice@example.org" = .ok (some (.ofMessage (Retired.record 2 0) [])) ∧
    verifyManagedRecord Retired.runtime (.ofMessage (Retired.record 2 0) [])
      (.fromProto Retired.authority) none (some (.fromProto Retired.removal)) default =
        .ok tierDomainDNS := by
  have hlive : ∀ now, (IdentityRecord.ofMessage (Retired.record 2 0) []).expired now = false :=
    fun _ => IdentityRecord.not_expired_of_unset rfl
  obtain ⟨hreach, hrec, -, hrm⟩ := Retired.holds (hlive _)
  refine ⟨⟨hreach, hrm, Retired.suppresses, Retired.listed⟩, ?_, ?_, ?_⟩
  · exact (handleGetIdentity_isSome hrec default).mpr (hlive default)
  · rw [Node.resolveIdentity_eq_lookup]
    exact (Node.lookup_own hrec).mpr ⟨rfl, hlive default⟩
  · have hverify : (IdentityRecord.ofMessage (Retired.record 2 0) []).verify Retired.runtime =
        true :=
      IdentityRecord.verify_idealRuntime (List.mem_singleton.mpr rfl) (length_keyOf 2)
    exact verifyManagedRecord_uncredentialed hverify (by decide) (by decide) rfl rfl

theorem expired_record_is_suppressed :
    Suppressed Retired.runtime Retired.node (Retired.relay 0 100) (Time.ofUnix 200)
      "alice@example.org"
      (.ofMessage (Retired.record 0 100) []) (.fromProto Retired.authority) none
      (.fromProto Retired.removal) := by
  obtain ⟨hreach, hrec, hdar, hrm⟩ := @Retired.holds 0 100 (by decide)
  exact (tombstone_suppresses_iff Retired.node (Time.ofUnix 200) none hreach hrec hdar hrm
    Retired.suppresses Retired.listed).mpr ⟨by decide, .inr (.inl rfl)⟩

end Dmcn
