import OpenDmcn.IdealRuntime
import OpenDmcn.Relay.Invariant

/-! Spellings of one address. The gates compare addresses without regard to case, but the store is
keyed by the text as it is written: what is held under another spelling is not seen. -/

namespace Dmcn

open Go Guard RecordStore Strings

variable {rt : Runtime} {anchor : DarAnchor}

def gateAuthority (rt : Runtime) (rs : RecordStore) (a : String) : Option DomainAuthorityRecord :=
  if isEphemeralAddress a then none else rs.getDAR rt (domainOf a)

def gateRemoval (rt : Runtime) (rs : RecordStore) (a : String) : Option AddressRemovalRecord :=
  (gateAuthority rt rs a).bind fun dar => rs.storedRemoval rt dar a

def Push.Carries (rt : Runtime) (p : Push) (rec : IdentityRecord) : Prop :=
  p.kind = .identity ∧ IdentityRecord.fromProtoBytes rt p.data = some rec

def ReservedFor (rt : Runtime) (rs : RecordStore) (dar : DomainAuthorityRecord)
    (rec : IdentityRecord) (now : Time) : Prop :=
  ∃ cred, rec.addressCredential = some cred ∧ cred.address = rec.address ∧
    cred.hasRole roleAddress = true ∧ cred.subject = rec.ed25519Public ∧
    verifyCredential rt cred (some dar) (rs.storedBlocklist rt dar) now = .ok ()

structure OneAddress (rt : Runtime) (anchor : DarAnchor) (r : Relay) (p : Push)
    (rec : IdentityRecord) (a : String) : Prop where
  authority : ∀ dar, gateAuthority rt r.records a = some dar →
    gateAuthority rt r.records rec.address = some dar
  incumbent : ∀ prev, r.records.getIdentity rt a = some prev →
    r.records.getIdentity rt rec.address = some prev
  removal : ∀ rm, gateRemoval rt r.records a = some rm → gateRemoval rt r.records rec.address =
    some rm
  reserved : ∀ dar, gateAuthority rt r.records a = some dar →
    dar.reservesLocalPart rt (localPartOf a) = true → (acceptRecord rt anchor r p).2 = .ok () →
    ReservedFor rt r.records dar rec p.now
  single : (acceptRecord rt anchor r p).2 = .ok () →
    ∀ other, (r.push rt anchor p).records.getIdentity rt a = some other →
      other.expired p.now = false →
      other.ed25519Public = rec.ed25519Public

def TreatedAsOne (rt : Runtime) (anchor : DarAnchor) (r : Relay) (p : Push) : Prop :=
  ∀ rec, p.Carries rt rec → ∀ a, CaseVariant rt.unicode a rec.address →
    OneAddress rt anchor r p rec a

/-- What is held for the address of the push, in whatever case, is held under its spelling. -/
def SpelledAsHeld (rt : Runtime) (r : Relay) (p : Push) : Prop :=
  ∀ rec, p.Carries rt rec → ∀ a, CaseVariant rt.unicode a rec.address →
    (gateAuthority rt r.records a ≠ none → domainOf a = domainOf rec.address) ∧
    (r.records.getIdentity rt a ≠ none → a = rec.address) ∧
    (gateRemoval rt r.records a ≠ none → a = rec.address)

theorem gateAuthority_congr {rs : RecordStore} {a b : String} (h : CaseVariant rt.unicode a b)
    (hdomain : domainOf a = domainOf b) : gateAuthority rt rs a = gateAuthority rt rs b := by
  unfold gateAuthority
  rw [isEphemeralAddress_congr h hdomain, hdomain]

variable {dar : DomainAuthorityRecord}

theorem gateAuthority_eq_some {rs : RecordStore} {a : String} :
    gateAuthority rt rs a = some dar ↔
      isEphemeralAddress a = false ∧ rs.getDAR rt (domainOf a) = some dar := by
  unfold gateAuthority
  split
  · next h => simp [h]
  · next h => simp [h]

theorem reservesLocalPart_caseVariant {l l' : String} (h : CaseVariant rt.unicode l l')
    : dar.reservesLocalPart rt l =
    dar.reservesLocalPart rt l' := by
  unfold DomainAuthorityRecord.reservesLocalPart
  rw [h.toLower_trimSpace]

theorem reservedFor_of_checkReservedLocalPart {rs : RecordStore} {rec : IdentityRecord} {now : Time}
    (hreserves : dar.reservesLocalPart rt (localPartOf rec.address) = true)
    (h : checkReservedLocalPart rt rs rec (some dar) now = .ok ()) :
    ReservedFor rt rs dar rec now := by
  simp only [checkReservedLocalPart, hreserves, Bool.not_true, Bool.false_eq_true, if_false,
    need_bind, unit_bind, require_eq_ok, wrap_eq_ok] at h
  obtain ⟨cred, hcred, ⟨haddress, hrole, hsubject⟩, hverify⟩ := h
  exact ⟨cred, hcred, haddress, hrole, hsubject, hverify⟩

theorem IdentityAdmitted.reservedFor {r : Relay} {now : Time} {data : Bytes} {rec : IdentityRecord}
    (h : IdentityAdmitted rt r now data rec)
    (hdar : gateAuthority rt r.records rec.address = some dar)
    (hreserves : dar.reservesLocalPart rt (localPartOf rec.address) = true) :
    ReservedFor rt r.records dar rec now := by
  obtain ⟨heph, hheld⟩ := gateAuthority_eq_some.mp hdar
  have hgates := ((checkDomainGates_eq_ok heph).mp h.gates).1
  rw [hheld] at hgates
  exact reservedFor_of_checkReservedLocalPart hreserves hgates

theorem oneAddress_of_spelledAsHeld {r : Relay} {p : Push} {rec : IdentityRecord} {a : String}
    (hspelled : SpelledAsHeld rt r p) (hcarries : p.Carries rt rec)
    (hcase : CaseVariant rt.unicode a rec.address) : OneAddress rt anchor r p rec a := by
  obtain ⟨hdomain, hidentity, hremoval⟩ := hspelled rec hcarries a hcase
  have hauthority : ∀ dar, gateAuthority rt r.records a = some dar →
      gateAuthority rt r.records rec.address = some dar := by
    intro dar hdar
    have hsame := hdomain (by simp [hdar])
    rw [← gateAuthority_congr hcase hsame]
    exact hdar
  have hadmitted : (acceptRecord rt anchor r p).2 = .ok () →
      IdentityAdmitted rt r p.now p.data rec := by
    intro hok
    obtain ⟨rec', hadm⟩ := (acceptRecord_identity_iff hcarries.1).mp hok
    cases hadm.parsed.symm.trans hcarries.2
    exact hadm
  refine ⟨hauthority, ?_, ?_, ?_, ?_⟩
  · intro prev hprev
    rw [← hidentity (by simp [hprev])]
    exact hprev
  · intro rm hrm
    rw [← hremoval (by simp [hrm])]
    exact hrm
  · intro dar hdar hreserves hok
    rw [reservesLocalPart_caseVariant (localPartOf_caseVariant hcase)] at hreserves
    exact (hadmitted hok).reservedFor (hauthority dar hdar) hreserves
  · intro hok other hother _
    have hstored : (r.push rt anchor p).records = r.records.putIdentity rt rec :=
      (acceptRecord_identity hcarries.1 (hadmitted hok)).2
    rw [hstored, getIdentity_putIdentity hcarries.2] at hother
    split at hother
    · cases hother
      rfl
    · next hne => exact absurd (hidentity (by simp [hother])) hne

theorem spelledAsHeld_of_treatedAsOne {r : Relay} {p : Push} (hfiled : Filed rt r.records)
    (h : TreatedAsOne rt anchor r p) : SpelledAsHeld rt r p := by
  intro rec hcarries a hcase
  have hone := h rec hcarries a hcase
  refine ⟨?_, ?_, ?_⟩
  · intro hsome
    obtain ⟨dar, hdar⟩ := Option.ne_none_iff_exists'.mp hsome
    -- the record names the domain it is filed under, so one record has one spelling
    have hhere := hfiled.dar _ _ (gateAuthority_eq_some.mp hdar).2
    have hthere := hfiled.dar _ _ (gateAuthority_eq_some.mp (hone.authority dar hdar)).2
    exact hhere.symm.trans hthere
  · intro hsome
    obtain ⟨prev, hprev⟩ := Option.ne_none_iff_exists'.mp hsome
    have hhere := (hfiled.identity _ _ hprev).1
    have hthere := (hfiled.identity _ _ (hone.incumbent prev hprev)).1
    exact hhere.symm.trans hthere
  · intro hsome
    obtain ⟨rm, hrm⟩ := Option.ne_none_iff_exists'.mp hsome
    have hnames : ∀ b, gateRemoval rt r.records b = some rm → rm.address = b := by
      intro b hb
      obtain ⟨dar, -, hstored⟩ := Option.bind_eq_some_iff.mp hb
      exact hfiled.removal _ _ (storedRemoval_eq_some.mp hstored).1
    exact (hnames a hrm).symm.trans (hnames _ (hone.removal rm hrm))

theorem treatedAsOne_iff {r : Relay} {p : Push} (hfiled : Filed rt r.records) :
    TreatedAsOne rt anchor r p ↔ SpelledAsHeld rt r p :=
  ⟨spelledAsHeld_of_treatedAsOne hfiled,
    fun h _ hcarries _ hcase => oneAddress_of_spelledAsHeld h hcarries hcase⟩

structure SpelledIn (rt : Runtime) (S : Set String) (p : Push) : Prop where
  identity : ∀ rec, p.Carries rt rec → rec.address ∈ S ∧ domainOf rec.address ∈ S
  dar : ∀ dar, p.kind = .dar → DomainAuthorityRecord.fromProtoBytes rt p.data = some dar →
    dar.domain ∈ S
  removal : ∀ rm, p.kind = .removal → AddressRemovalRecord.fromProtoBytes rt p.data = some rm →
    rm.address ∈ S

structure HeldIn (rt : Runtime) (S : Set String) (r : Relay) : Prop where
  identity : ∀ a rec, r.records.getIdentity rt a = some rec → a ∈ S
  dar : ∀ d dar, r.records.getDAR rt d = some dar → d ∈ S
  removal : ∀ a rm, r.records.storedRemovalAny rt a = some rm → a ∈ S

theorem heldIn_seed {S : Set String} {seeds : List Pb.DomainAuthorityRecord}
    (h : ∀ pb ∈ seeds, pb.domain ∈ S) :
    HeldIn rt S (seedOwnRecords rt (seeds.map DomainAuthorityRecord.fromProto)) := by
  have hfold : ∀ rs : RecordStore, (∀ d dar, rs.getDAR rt d = some dar → d ∈ S) → ∀ d dar,
      ((seeds.map DomainAuthorityRecord.fromProto).foldl (RecordStore.putDAR rt) rs).getDAR rt d =
        some dar → d ∈ S := by
    induction seeds with
    | nil => exact fun rs hrs => hrs
    | cons pb pbs ih =>
      intro rs hrs
      refine ih (fun pb' hpb' => h pb' (List.mem_cons_of_mem _ hpb')) _ ?_
      intro d dar hdar
      rw [getDAR_putDAR (DomainAuthorityRecord.fromProtoBytes_marshal rt pb)] at hdar
      split at hdar
      · next hd =>
        rw [hd]
        exact h pb (List.mem_cons_self ..)
      · exact hrs d dar hdar
  refine ⟨?_, hfold .empty ?_, ?_⟩
  · intro a rec hrec
    cases (getIdentity_seed rt _ a).symm.trans hrec
  · intro d dar hdar
    cases hdar
  · intro a rm hrm
    cases (storedRemovalAny_seed rt _ a).symm.trans hrm

theorem heldIn_push {S : Set String} (r : Relay) (p : Push) (h : HeldIn rt S r)
    (hp : SpelledIn rt S p) :
    HeldIn rt S (r.push rt anchor p) := by
  refine ⟨?_, ?_, ?_⟩
  · intro a rec hrec
    rcases getIdentity_push rt anchor r p a with hsame | ⟨rec', hkind, hadm, rfl, -⟩
    · exact h.identity a rec (hsame.symm.trans hrec)
    · exact (hp.identity rec' ⟨hkind, hadm.parsed⟩).1
  · intro d dar hdar
    rcases getDAR_push rt anchor r p d with hsame | ⟨dar', hkind, hadm, rfl, -⟩
    · exact h.dar d dar (hsame.symm.trans hdar)
    · exact hp.dar dar' hkind hadm.parsed
  · intro a rm hrm
    rcases storedRemovalAny_push rt anchor r p a with hsame | ⟨rm', dar, hkind, hadm, rfl, -⟩
    · exact h.removal a rm (hsame.symm.trans hrm)
    · exact hp.removal rm' hkind hadm.parsed

theorem spelledAsHeld_of_spelledIn {S : Set String}
    (hone : ∀ x ∈ S, ∀ y ∈ S, CaseVariant rt.unicode x y → x = y) {r : Relay} {p : Push}
    (hheld : HeldIn rt S r) (hp : SpelledIn rt S p) : SpelledAsHeld rt r p := by
  intro rec hcarries a hcase
  obtain ⟨haddress, hdomain⟩ := hp.identity rec hcarries
  refine ⟨?_, ?_, ?_⟩
  · intro hsome
    obtain ⟨dar, hdar⟩ := Option.ne_none_iff_exists'.mp hsome
    have hin := hheld.dar _ _ (gateAuthority_eq_some.mp hdar).2
    exact hone _ hin _ hdomain (domainOf_caseVariant hcase)
  · intro hsome
    obtain ⟨prev, hprev⟩ := Option.ne_none_iff_exists'.mp hsome
    exact hone _ (hheld.identity a prev hprev) _ haddress hcase
  · intro hsome
    obtain ⟨rm, hrm⟩ := Option.ne_none_iff_exists'.mp hsome
    obtain ⟨dar, -, hstored⟩ := Option.bind_eq_some_iff.mp hrm
    exact hone _ (hheld.removal a rm (storedRemoval_eq_some.mp hstored).1) _ haddress hcase

/-- Over every run of pushes, each push treats the spellings of its address as one exactly when what
is held for the address is held under the spelling it uses; and it is so throughout when the seeds
and the pushes of the run spell each address and domain one way. -/
theorem one_slot_per_address_iff (rt : Runtime) (anchor : DarAnchor)
    (seeds : List Pb.DomainAuthorityRecord) (ps : List Push) :
    (Machine.Along (Relay.push rt anchor) (TreatedAsOne rt anchor)
        (seedOwnRecords rt (seeds.map DomainAuthorityRecord.fromProto)) ps ↔
      Machine.Along (Relay.push rt anchor) (SpelledAsHeld rt)
        (seedOwnRecords rt (seeds.map DomainAuthorityRecord.fromProto)) ps) ∧
    ∀ S : Set String, (∀ x ∈ S, ∀ y ∈ S, CaseVariant rt.unicode x y → x = y) →
      (∀ pb ∈ seeds, pb.domain ∈ S) → (∀ p ∈ ps, SpelledIn rt S p) →
      Machine.Along (Relay.push rt anchor) (TreatedAsOne rt anchor)
        (seedOwnRecords rt (seeds.map DomainAuthorityRecord.fromProto)) ps := by
  have hfiled : Machine.Throughout (Relay.push rt anchor) (fun r => Filed rt r.records)
      (seedOwnRecords rt (seeds.map DomainAuthorityRecord.fromProto)) ps :=
    Machine.throughout_of_invariant (filed_seed seeds) filed_push
  have hiff : Machine.Along (Relay.push rt anchor) (TreatedAsOne rt anchor)
        (seedOwnRecords rt (seeds.map DomainAuthorityRecord.fromProto)) ps ↔
      Machine.Along (Relay.push rt anchor) (SpelledAsHeld rt)
        (seedOwnRecords rt (seeds.map DomainAuthorityRecord.fromProto)) ps :=
    Machine.along_congr hfiled fun _ _ hr => treatedAsOne_iff hr
  refine ⟨hiff, ?_⟩
  intro S hone hseeds hps
  have hspelled : Machine.Along (Relay.push rt anchor) (fun _ p => SpelledIn rt S p)
      (seedOwnRecords rt (seeds.map DomainAuthorityRecord.fromProto)) ps :=
    Machine.along_of_mem fun p hp _ => hps p hp
  have hheld := Machine.throughout_of_along (heldIn_seed hseeds) heldIn_push hspelled
  exact hiff.mpr (hspelled.mono hheld fun _ _ hr hp => spelledAsHeld_of_spelledIn hone hr hp)

/-! A domain that reserves `postmaster`, and a party that writes the addresses in another case. -/
namespace OtherCase

def authority : Pb.DomainAuthorityRecord :=
  { plainAuthority "example.org" 1 with reservedLocalParts := ["postmaster"] }

noncomputable def runtime : Runtime := idealRuntime [keyOf 2, keyOf 9] []

noncomputable def publish (address : String) (key : UInt8) : Push :=
  ⟨default, .identity, runtime.identityRecord.marshal (plainRecord address key)⟩

def record (address : String) (key : UInt8) : IdentityRecord :=
  .ofMessage (plainRecord address key) []

noncomputable def seeded : Relay := seedOwnRecords runtime [.fromProto authority]

noncomputable def relay : Relay := seeded.push runtime none (publish "alice@example.org" 2)

theorem carries (address : String) (key : UInt8) :
    (publish address key).Carries runtime (record address key) :=
  ⟨rfl, IdentityRecord.fromProtoBytes_plain rfl rfl rfl⟩

theorem admitted {r : Relay} {address : String} {key : UInt8}
    (hkey : keyOf key ∈ [keyOf 2, keyOf 9]) (hnone : r.records.getIdentity runtime address = none)
    (hreserved : ∀ d, r.records.getDAR runtime (domainOf address) = some d →
      d.reservesLocalPart runtime (localPartOf address) = false) :
    IdentityAdmitted runtime r (publish address key).now (publish address key).data
      (record address key) := by
  have hverify : (record address key).verify runtime = true :=
    IdentityRecord.verify_idealRuntime hkey (length_keyOf key)
  exact .genesis (carries address key).2 hverify (IdentityRecord.not_expired_of_unset rfl) hnone
    hreserved

theorem getDAR_seeded (d : String) : seeded.records.getDAR runtime d =
    if d = "example.org" then some (.fromProto authority) else none := by
  change (RecordStore.empty.putDAR runtime (.fromProto authority)).getDAR runtime d = _
  rw [getDAR_putDAR (DomainAuthorityRecord.fromProtoBytes_marshal runtime authority)]
  rfl

theorem records_relay : relay.records =
    seeded.records.putIdentity runtime (record "alice@example.org" 2) := by
  refine (acceptRecord_identity rfl (admitted (by decide) (getIdentity_seed _ _ _) ?_)).2
  intro d hd
  obtain rfl := eq_of_getDAR_seed hd
  decide

theorem getDAR_relay (d : String) : relay.records.getDAR runtime d =
    if d = "example.org" then some (.fromProto authority) else none := by
  rw [records_relay]
  exact (getDAR_put_of_ne (by decide)).trans (getDAR_seeded d)

theorem getIdentity_relay (a : String) : relay.records.getIdentity runtime a =
    if a = "alice@example.org" then some (record "alice@example.org" 2) else none := by
  rw [records_relay, getIdentity_putIdentity (carries "alice@example.org" 2).2]
  simp only [getIdentity_seed, seeded]
  rfl

theorem second_admitted : IdentityAdmitted runtime relay (publish "Alice@example.org" 9).now
    (publish "Alice@example.org" 9).data (record "Alice@example.org" 9) := by
  refine admitted (by decide) ((getIdentity_relay _).trans (if_neg (by decide))) ?_
  intro d hd
  cases ((getDAR_relay _).trans (if_pos (by decide))).symm.trans hd
  decide

theorem escaped_admitted : IdentityAdmitted runtime relay (publish "postmaster@EXAMPLE.org" 9).now
    (publish "postmaster@EXAMPLE.org" 9).data (record "postmaster@EXAMPLE.org" 9) := by
  refine admitted (by decide) ((getIdentity_relay _).trans (if_neg (by decide))) ?_
  intro d hd
  cases ((getDAR_relay _).trans (if_neg (by decide))).symm.trans hd

theorem refused : (acceptRecord runtime none relay (publish "postmaster@example.org" 9)).2 =
    .error .reservedNeedsCredential := by
  have hopen : openIdentity runtime (publish "postmaster@example.org" 9).now
      (publish "postmaster@example.org" 9).data = .ok (record "postmaster@example.org" 9) :=
    openIdentity_eq_ok.mpr ⟨(carries _ _).2,
      IdentityRecord.verify_idealRuntime (List.mem_cons_of_mem _ (List.mem_cons_self ..))
        (length_keyOf 9),
      IdentityRecord.not_expired_of_unset rfl⟩
  have hdar : relay.records.getDAR runtime (domainOf (record "postmaster@example.org" 9).address) =
      some (.fromProto authority) := (getDAR_relay _).trans (if_pos (by decide))
  have hreserves : (DomainAuthorityRecord.fromProto authority).reservesLocalPart runtime
      (localPartOf (record "postmaster@example.org" 9).address) = true := by decide
  have heph : isEphemeralAddress (record "postmaster@example.org" 9).address = false := by decide
  have hgate : checkDomainGates runtime relay (record "postmaster@example.org" 9)
      (publish "postmaster@example.org" 9).now =
        (relay.rotationLimiter, .error .reservedNeedsCredential) := by
    simp only [checkDomainGates, heph, hdar, checkReservedLocalPart, hreserves]
    rfl
  change (Relay.commit _ (acceptIdentity runtime relay _ _).2).2 = _
  unfold acceptIdentity
  rw [hopen]
  simp only [hgate]
  rfl

/-- Key 9 publishes `Alice@example.org` beside the record of key 2 for `alice@example.org`, and
`postmaster@EXAMPLE.org` with no credential: both are stored. -/
theorem spelling_makes_second_identity :
    (relay.Reachable runtime none ∧
      CaseVariant runtime.unicode "alice@example.org" "Alice@example.org" ∧
      (acceptRecord runtime none relay (publish "Alice@example.org" 9)).2 = .ok () ∧
      (relay.push runtime none (publish "Alice@example.org" 9)).records.getIdentity runtime
        "alice@example.org" = some (record "alice@example.org" 2) ∧
      (relay.push runtime none (publish "Alice@example.org" 9)).records.getIdentity runtime
        "Alice@example.org" = some (record "Alice@example.org" 9) ∧
      ¬ TreatedAsOne runtime none relay (publish "Alice@example.org" 9)) ∧
    CaseVariant runtime.unicode "postmaster@example.org" "postmaster@EXAMPLE.org" ∧
      (acceptRecord runtime none relay (publish "postmaster@example.org" 9)).2 =
        .error .reservedNeedsCredential ∧
      (acceptRecord runtime none relay (publish "postmaster@EXAMPLE.org" 9)).2 = .ok () ∧
      ¬ TreatedAsOne runtime none relay (publish "postmaster@EXAMPLE.org" 9) := by
  have halice : CaseVariant runtime.unicode "alice@example.org" "Alice@example.org" := by
    unfold CaseVariant runtime idealRuntime
    decide
  have hpostmaster : CaseVariant runtime.unicode "postmaster@example.org"
      "postmaster@EXAMPLE.org" := by
    unfold CaseVariant runtime idealRuntime
    decide
  have hsecond : (acceptRecord runtime none relay (publish "Alice@example.org" 9)).2 = .ok () ∧
      (relay.push runtime none (publish "Alice@example.org" 9)).records =
        relay.records.putIdentity runtime (record "Alice@example.org" 9) :=
    acceptRecord_identity rfl second_admitted
  have hescaped : (acceptRecord runtime none relay (publish "postmaster@EXAMPLE.org" 9)).2 =
      .ok () :=
    (acceptRecord_identity rfl escaped_admitted).1
  refine ⟨⟨⟨[authority], [_], rfl⟩, halice, hsecond.1, ?_, ?_, ?_⟩, hpostmaster, refused, hescaped,
    ?_⟩
  · rw [hsecond.2, getIdentity_putIdentity (carries _ _).2, if_neg (by decide), getIdentity_relay]
    exact if_pos rfl
  · rw [hsecond.2, getIdentity_putIdentity (carries _ _).2]
    exact if_pos rfl
  · intro h
    have hone := h _ (carries _ _) _ halice
    have hheld := hone.incumbent _ ((getIdentity_relay _).trans (if_pos rfl))
    cases ((getIdentity_relay _).trans (if_neg (by decide))).symm.trans hheld
  · intro h
    have hone := h _ (carries _ _) _ hpostmaster
    have hdar : gateAuthority runtime relay.records "postmaster@example.org" =
        some (.fromProto authority) :=
      gateAuthority_eq_some.mpr ⟨by decide, (getDAR_relay _).trans (if_pos (by decide))⟩
    obtain ⟨cred, hcred, -⟩ := hone.reserved _ hdar (by decide) hescaped
    cases hcred

end OtherCase

end Dmcn
