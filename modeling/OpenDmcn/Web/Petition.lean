import OpenDmcn.Relay.Spelling
import OpenDmcn.Web.Challenge
import OpenDmcn.Web.PetitionStore

/-! The petition endpoints (`web/api/petition.go`): the admin assigns an address and parks two
credentials, and the petitioner completes the record that they are attached to. What is checked when
they are parked is less than what the store and the readers of the record check later. -/

namespace Dmcn

open Go Guard Challenge RecordStore

section Definitions

variable (rt : Runtime)

structure AdminAssignRequest where
  code : String
  address : String
  addressCredential : String
  routingCredential : String
  nonce : String
  signature : String

structure PetitionCompleteRequest where
  code : String
  identityRecord : String

/-- What a request finds: the outstanding admin nonce, the root key of the domain, the clock when
the petition is read and when it is used, and whether the file can be written then. -/
structure AtHand where
  challenge : Option Bytes
  rootPub : Option Bytes
  now : Time
  later : Time
  dropSaves : Bool
  saves : Bool

structure PetitionHandler where
  domain : String

def decodeCred (rootPub : Option Bytes) (encoded field : String) (p : Petition) (address : String) :
    Except Challenge.Refusal Credential := do
  let raw ← need (Base64.decodeString encoded) ⟨400, "invalid " ++ field ++ " encoding"⟩
  refuse (raw.isEmpty) ⟨400, "invalid " ++ field ++ " encoding"⟩
  let cred ← need (Credential.fromProtoBytes rt raw) ⟨400, "invalid " ++ field⟩
  require (cred.verifySignature rt) ⟨400, field ++ " signature invalid"⟩
  let root ← need rootPub ⟨403, "not_root_signed"⟩
  require (cred.issuerPub = root) ⟨403, "not_root_signed"⟩
  require (cred.subject = p.ed25519Public) ⟨400, "subject_mismatch"⟩
  require (cred.address = address) ⟨400, "address_mismatch"⟩
  return cred

namespace PetitionHandler

variable (h : PetitionHandler)

def checkAssign (w : AtHand) (req : AdminAssignRequest) (code address : String) :
    Except Challenge.Refusal Unit := do
  let want ← need w.challenge ⟨401, "no_challenge"⟩
  verifyAdmin rt ⟨0, none, none, none, w.rootPub⟩
    ⟨req.nonce, req.signature, adminAssignContext, code ++ String.singleton (Char.ofNat 0) ++
      address⟩ want
  let (localPart, addrDomain) ← need (Strings.splitAtSign address) ⟨400, "invalid_address"⟩
  require (localPart ≠ "") ⟨400, "invalid_address"⟩
  require (Strings.equalFold rt.unicode addrDomain h.domain) ⟨403, "domain_not_served"⟩

def decodeCreds (w : AtHand) (req : AdminAssignRequest) (p : Petition) (address : String) :
    Except Challenge.Refusal (Credential × Credential) := do
  let addrCred ← decodeCred rt w.rootPub req.addressCredential "address_credential" p address
  let routeCred ← decodeCred rt w.rootPub req.routingCredential "routing_credential" p address
  return (addrCred, routeCred)

/-- `HandleAdminAssign`: the address it answers `assigned` with, or its refusal. A body that does
not decode is `none`. -/
def handleAdminAssign (s : PetitionStore) (w : AtHand) (req : Option AdminAssignRequest) :
    PetitionStore × Except Challenge.Refusal String :=
  match req with
  | none => (s, .error ⟨400, "invalid request body"⟩)
  | some req =>
    let code := Strings.trimSpace rt.unicode req.code
    let address := Strings.trimSpace rt.unicode req.address
    match h.checkAssign rt w req code address with
    | .error e => (s, .error e)
    | .ok () =>
      match s.get code w.now w.dropSaves with
      | (s, .error _) => (s, .error ⟨404, "unknown_code"⟩)
      | (s, .ok p) =>
        match decodeCreds rt w req p address with
        | .error e => (s, .error e)
        | .ok (addrCred, routeCred) =>
          match s.assign rt code address addrCred routeCred w.later w.saves with
          | (s, .ok _) => (s, .ok address)
          | (s, .error .assigned) => (s, .error ⟨409, "already_assigned"⟩)
          | (s, .error .expired) => (s, .error ⟨410, "expired"⟩)
          | (s, .error _) => (s, .error ⟨500, "could not assign the address"⟩)

end PetitionHandler

def Petition.attach (p : Petition) (rec : IdentityRecord) : IdentityRecord :=
  { rec with
    addressCredential := p.addressCredential
    routingCredential := p.routingCredential
    relayHints := IdentityRecord.mirrorHints rec.relayHints p.routingCredential }

def checkRecord (p : Petition) (encoded : String) : Except Challenge.Refusal IdentityRecord := do
  require p.assigned ⟨409, "not_assigned"⟩
  let recBytes ← need (Base64.decodeString encoded) ⟨400, "invalid identity_record encoding"⟩
  let rec ← need (IdentityRecord.fromProtoBytes rt recBytes) ⟨400, "invalid identity record"⟩
  require (rec.verify rt) ⟨400, "identity record signature invalid"⟩
  require (rec.address = p.address) ⟨400, "address_mismatch"⟩
  require (rec.ed25519Public = p.ed25519Public ∧ rec.x25519Public = p.x25519Public)
    ⟨403, "key_mismatch"⟩
  return p.attach rec

def storeOwn (anchor : DarAnchor) (relay : Option Relay) (p : Push) : Option Relay × ℕ :=
  match relay with
  | none => (none, 0)
  | some r =>
    match acceptRecord rt anchor r p with
    | (r, .ok ()) => (some r, 1)
    | (r, .error _) => (some r, 0)

/-- `FanOutRecord`: the own store first, and then every target in reach. A target is known by
whether it ends up with the record. -/
def fanOutRecord (anchor : DarAnchor) (relay : Option Relay) (targets : List (Push → Bool))
    (p : Push) :
    Option Relay × Except Unit ℕ :=
  let (relay, own) := storeOwn rt anchor relay p
  match own + targets.countP fun target => target p with
  | 0 => (relay, .error ())
  | accepted => (relay, .ok accepted)

structure Daemon where
  petitions : PetitionStore
  relay : Option Relay

def handleComplete (anchor : DarAnchor) (targets : List (Push → Bool)) (d : Daemon) (w : AtHand)
    (req : Option PetitionCompleteRequest) : Daemon × Except Challenge.Refusal String :=
  match req with
  | none => (d, .error ⟨400, "invalid request body"⟩)
  | some req =>
    match d.petitions.get (Strings.trimSpace rt.unicode req.code) w.now w.dropSaves with
    | (s, .error _) => ({ d with petitions := s }, .error ⟨404, "unknown_code"⟩)
    | (s, .ok p) =>
      match checkRecord rt p req.identityRecord with
      | .error e => ({ d with petitions := s }, .error e)
      | .ok rec =>
        match fanOutRecord rt anchor d.relay targets
          ⟨w.later, .identity, rt.identityRecord.marshal rec.toProto⟩ with
        | (relay, .error ()) => (⟨s, relay⟩, .error ⟨500, "could not publish the record"⟩)
        -- a queue that is not cleared is logged only
        | (relay, .ok _) => (⟨(s.complete p.code w.saves).1, relay⟩, .ok rec.address)

/-- The record that the petitioner signs for the petition: its address and keys, no expiry and no
rotation. -/
structure SelfSigned (p : Petition) (rec : IdentityRecord) (data : Bytes) : Prop where
  parsed : IdentityRecord.fromProtoBytes rt data = some rec
  verified : rec.verify rt = true
  address : rec.address = p.address
  key : rec.ed25519Public = p.ed25519Public
  mailboxKey : rec.x25519Public = p.x25519Public
  unexpiring : rec.expiresAt = default
  unrotated : rec.rotationChain = []

/-- The store accepts the record, and a reader who has the domain's authority record and what the
store then serves takes it for verified by the domain, with its routing attested. -/
def AcceptedAndVerified (r : Relay) (dar : DomainAuthorityRecord) (rec : IdentityRecord)
    (now : Time) : Prop :=
  ∃ rs, (acceptIdentity rt r now (rt.identityRecord.marshal rec.toProto)).2 = .ok rs ∧
    verifyManagedRecord rt rec dar (rs.storedBlocklist rt dar) (rs.storedRemovalAny rt rec.address)
      now =
      .ok tierDomainDNS ∧
    rec.hasRoutingCredential = true ∧ checkRouting rt rec dar (rs.storedBlocklist rt dar) now =
      .ok ()

/-- A parked credential is good in its role: it names the role and, in its own spelling, the domain
of the authority record, under which it verifies. -/
def Serves (r : Relay) (dar : DomainAuthorityRecord) (cred : Option Credential) (role : String)
    (now : Time) : Prop :=
  ∃ c, cred = some c ∧ c.hasRole role = true ∧ c.domain = dar.domain ∧
    verifyCredential rt c (some dar) (r.records.storedBlocklist rt dar) now = .ok ()

def MayDisplace (r : Relay) (prev rec : IdentityRecord) : Prop :=
  prev.ed25519Public = rec.ed25519Public ∨ r.records.getDAR rt (domainOf rec.address) = none ∨
    ∃ d rm, r.records.getDAR rt (domainOf rec.address) = some d ∧
      r.records.storedRemoval rt d rec.address = some rm ∧ rebindTombstoneFrees rt prev rec rm d =
        .ok ()

/-- What has to hold at the completion, beyond what the assignment has checked. -/
structure Completable (r : Relay) (dar : DomainAuthorityRecord) (p : Petition)
    (rec : IdentityRecord) (now : Time) :
    Prop where
  address : Serves rt r dar p.addressCredential roleAddress now
  routing : Serves rt r dar p.routingCredential roleRouting now
  domain : domainOf p.address ≠ ""
  notRemoved : bindingRemoved rt rec dar (r.records.storedRemovalAny rt rec.address) = false
  reserved : isEphemeralAddress rec.address = false →
    ∀ d, r.records.getDAR rt (domainOf rec.address) = some d →
    d.reservesLocalPart rt (localPartOf rec.address) = true → ∀ c, p.addressCredential = some c →
      verifyCredential rt c (some d) (r.records.storedBlocklist rt d) now = .ok ()
  displaces : isEphemeralAddress rec.address = false →
    ∀ prev, r.records.getIdentity rt rec.address = some prev →
    MayDisplace rt r prev rec
  fresh : ∀ prev, r.records.getIdentity rt rec.address = some prev → prev.revision ≤ rec.revision ∧
    (rec.revision = prev.revision →
      (operatorFieldIssuedAt rec).before (operatorFieldIssuedAt prev) = false)

def ActiveOnlyIfHeld (anchor : DarAnchor) (targets : List (Push → Bool)) (d : Daemon) (w : AtHand)
    (req : PetitionCompleteRequest) (p : Petition) : Prop :=
  ∀ address, (handleComplete rt anchor targets d w (some req)).2 = .ok address →
    ∃ r rec, (handleComplete rt anchor targets d w (some req)).1.relay = some r ∧
      checkRecord rt p req.identityRecord = .ok rec ∧ r.records.getIdentity rt address = some rec

end Definitions

/-! What an assignment leaves. -/

structure Credential.Names (p : Petition) (c : Credential) : Prop where
  subject : c.subject = p.ed25519Public
  address : c.address = p.address
  stable : Credential.fromProto c.toProto = c

structure PetitionHandler.Assigned (rt : Runtime) (h : PetitionHandler) (p : Petition) : Prop where
  parked : p.Parked rt
  domain : Strings.equalFold rt.unicode (domainOf p.address) h.domain = true
  addressCredential : ∃ c, p.addressCredential = some c ∧ c.Names p
  routingCredential : ∃ c, p.routingCredential = some c ∧ c.Names p

section Assignment

variable {rt : Runtime} {h : PetitionHandler} {s s' : PetitionStore} {w : AtHand} {p : Petition}
  {address : String}

theorem names_of_decodeCred {rootPub : Option Bytes} {encoded field : String} {c : Credential}
    (hdec : decodeCred rt rootPub encoded field p address = .ok c) :
    c.subject = p.ed25519Public ∧ c.address = address ∧ Credential.fromProto c.toProto = c := by
  simp only [decodeCred, need_bind, unit_bind, require_eq_ok, pure_eq_ok] at hdec
  obtain ⟨raw, -, -, cred, hcred, -, root, -, -, hsubject, haddress, rfl⟩ := hdec
  obtain ⟨pb, -, rfl⟩ := Option.map_eq_some_iff.mp hcred
  exact ⟨hsubject, haddress, Credential.fromProto_toProto_fromProto pb⟩

theorem rehydrateCredential_marshal {c : Credential} (haddress : c.address ≠ "")
    (hstable : Credential.fromProto c.toProto = c) :
    Petition.rehydrateCredential rt (rt.credential.marshal c.toProto) = some (some c) := by
  have hmsg : c.toProto ≠ default := by
    intro heq
    exact haddress (congrArg Pb.Credential.address heq)
  have hbytes : rt.credential.marshal c.toProto ≠ [] := rt.credential.marshal_ne_nil hmsg
  unfold Petition.rehydrateCredential Credential.fromProtoBytes
  rw [if_neg (by simpa using hbytes), Codec.unmarshal_marshal, Option.map_some, hstable]
  rfl

variable {req : AdminAssignRequest}

theorem address_of_checkAssign {code : String}
    (hcheck : h.checkAssign rt w req code address = .ok ()) :
    address ≠ "" ∧ Strings.equalFold rt.unicode (domainOf address) h.domain = true := by
  simp only [PetitionHandler.checkAssign, need_bind, unit_bind, require_eq_ok, Prod.exists]
    at hcheck
  obtain ⟨want, -, -, localPart, addrDomain, hsplit, -, hdomain⟩ := hcheck
  constructor
  · rintro rfl
    cases hsplit
  · unfold domainOf
    rw [hsplit]
    exact hdomain

theorem get_eq_ok {code : String} {now : Time} {saves : Bool}
    (hget : s.get code now saves = (s', .ok p)) :
    s' = s ∧ PetitionStore.find s.byCode code = some p ∧ p.expired now = false := by
  unfold PetitionStore.get at hget
  split at hget
  · cases hget
  · next q hfind =>
    split at hget
    · cases hget
    · next hlive =>
      cases hget
      exact ⟨rfl, hfind, by simpa using hlive⟩

theorem assign_eq_ok {code : String} {addrCred routeCred : Credential} {now : Time} {saves : Bool}
    (hassign : s.assign rt code address addrCred routeCred now saves = (s', .ok p)) :
    ∃ q, PetitionStore.find s.byCode code = some q ∧
      p = q.assign rt address addrCred routeCred now ∧
      s' = { s with byCode := PetitionStore.replace s.byCode p }.saveLocked true := by
  unfold PetitionStore.assign at hassign
  split at hassign
  · cases hassign
  · next q hfind =>
    split at hassign
    · cases hassign
    · split at hassign
      · cases hassign
      · cases saves with
        | false => cases hassign
        | true =>
          cases hassign
          exact ⟨q, hfind, rfl, rfl⟩

theorem handleAdminAssign_of_checked {code : String} {s₁ s₂ : PetitionStore} {p p' : Petition}
    {addrCred routeCred : Credential} (hcode : Strings.trimSpace rt.unicode req.code = code)
    (haddress : Strings.trimSpace rt.unicode req.address = address)
    (hcheck : h.checkAssign rt w req code address = .ok ())
    (hget : s.get code w.now w.dropSaves = (s₁, .ok p))
    (hcreds : PetitionHandler.decodeCreds rt w req p address = .ok (addrCred, routeCred))
    (hassign : s₁.assign rt code address addrCred routeCred w.later w.saves = (s₂, .ok p')) :
    h.handleAdminAssign rt s w (some req) = (s₂, .ok address) := by
  unfold PetitionHandler.handleAdminAssign
  dsimp only
  rw [hcode, haddress, hcheck]
  dsimp only
  rw [hget]
  dsimp only
  rw [hcreds]
  dsimp only
  rw [hassign]

theorem handleAdminAssign_ok (hassign : h.handleAdminAssign rt s w (some req) = (s', .ok address)) :
    ∃ q addrCred routeCred, PetitionStore.find s.byCode (Strings.trimSpace rt.unicode req.code) =
      some q ∧
      PetitionHandler.decodeCreds rt w req q address = .ok (addrCred, routeCred) ∧ address ≠ "" ∧
      Strings.equalFold rt.unicode (domainOf address) h.domain = true ∧
      s' = { s with
        byCode := PetitionStore.replace s.byCode (q.assign rt address addrCred routeCred w.later)
          }.saveLocked
          true := by
  unfold PetitionHandler.handleAdminAssign at hassign
  dsimp only at hassign
  split at hassign
  · cases hassign
  · next hcheck =>
    split at hassign
    · cases hassign
    · next s₁ q hget =>
      obtain ⟨rfl, hfind, -⟩ := get_eq_ok hget
      split at hassign
      · cases hassign
      · next addrCred routeCred hcreds =>
        split at hassign
        · next s₂ p hstore =>
          cases hassign
          obtain ⟨q', hfind', rfl, hs⟩ := assign_eq_ok hstore
          obtain rfl : q' = q := Option.some.inj (hfind'.symm.trans hfind)
          obtain ⟨haddress, hdomain⟩ := address_of_checkAssign hcheck
          exact ⟨q', addrCred, routeCred, hfind, hcreds, haddress, hdomain, hs⟩
        · cases hassign
        · cases hassign
        · cases hassign

theorem assigned_of_handleAdminAssign
    (hassign : h.handleAdminAssign rt s w (some req) = (s', .ok address)) :
    ∃ q addrCred routeCred, PetitionStore.find s.byCode (Strings.trimSpace rt.unicode req.code) =
      some q ∧
      PetitionHandler.decodeCreds rt w req q address = .ok (addrCred, routeCred) ∧
      h.Assigned rt (q.assign rt address addrCred routeCred w.later) ∧
      s'.Holds (q.assign rt address addrCred routeCred w.later) := by
  obtain ⟨q, addrCred, routeCred, hfind, hcreds, haddress, hdomain, rfl⟩ :=
    handleAdminAssign_ok hassign
  have hnames := hcreds
  simp only [PetitionHandler.decodeCreds, bind_eq_ok, pure_eq_ok, Prod.mk.injEq] at hnames
  obtain ⟨a, hdec, c, hdec', rfl, rfl⟩ := hnames
  have haddr := names_of_decodeCred hdec
  have hroute := names_of_decodeCred hdec'
  refine ⟨q, a, c, hfind, hcreds, ⟨⟨?_, ?_⟩, hdomain, ?_, ?_⟩, ?_⟩
  · simpa [Petition.assigned, Petition.assign] using haddress
  · have ha : Petition.rehydrateCredential rt (rt.credential.marshal a.toProto) = some (some a) :=
      rehydrateCredential_marshal (haddr.2.1.symm ▸ haddress) haddr.2.2
    have hc : Petition.rehydrateCredential rt (rt.credential.marshal c.toProto) = some (some c) :=
      rehydrateCredential_marshal (hroute.2.1.symm ▸ haddress) hroute.2.2
    simp [Petition.rehydrate, Petition.saved, Petition.assign, ha, hc]
  · exact ⟨a, rfl, haddr.1, haddr.2.1, haddr.2.2⟩
  · exact ⟨c, rfl, hroute.1, hroute.2.1, hroute.2.2⟩
  · have hcode := PetitionStore.code_of_find hfind
    have hqueued := PetitionStore.find_replace hfind (r := q.assign rt address a c w.later)
    rw [if_pos (show _ = (q.assign rt address a c w.later).code from hcode.symm)] at hqueued
    exact PetitionStore.holds_saveLocked (hcode ▸ hqueued) (by simp)

end Assignment

/-! What the store and the readers make of the completed record. -/

section Completion

variable {rt : Runtime} {h : PetitionHandler} {r : Relay} {dar : DomainAuthorityRecord}
  {p : Petition}
  {rec : IdentityRecord} {data : Bytes} {now : Time}

theorem verify_attach (p : Petition) (rec : IdentityRecord) :
    (p.attach rec).verify rt = rec.verify rt :=
  IdentityRecord.verify_congr rfl rfl

theorem parsed_attach (hassigned : h.Assigned rt p)
    (hparsed : IdentityRecord.fromProtoBytes rt data = some rec) :
    IdentityRecord.fromProtoBytes rt (rt.identityRecord.marshal (p.attach rec).toProto) =
      some (p.attach rec) := by
  obtain ⟨a, ha, hnames⟩ := hassigned.addressCredential
  obtain ⟨c, hc, hnames'⟩ := hassigned.routingCredential
  obtain ⟨pb, -, hpb⟩ := Option.bind_eq_some_iff.mp hparsed
  obtain ⟨hrecovery, hforward, chain, hchain, rfl⟩ := IdentityRecord.fromProto_eq_some.mp hpb
  have hback := rotationChainFromProto_toProto hchain
  unfold IdentityRecord.fromProtoBytes
  rw [Codec.unmarshal_marshal, Option.bind_some]
  refine IdentityRecord.fromProto_eq_some.mpr ⟨hrecovery, hforward, chain, hback, ?_⟩
  simp [IdentityRecord.ofMessage, IdentityRecord.toProto, Petition.attach, unixOrZero_timeOrZero,
    ha, hc, hnames.stable, hnames'.stable, IdentityRecord.mirrorHints]

theorem checkRecord_eq_ok {encoded : String} : checkRecord rt p encoded = .ok rec ↔
    p.assigned = true ∧ ∃ data own, Base64.decodeString encoded = some data ∧
      IdentityRecord.fromProtoBytes rt data = some own ∧ own.verify rt = true ∧
      own.address = p.address ∧
      (own.ed25519Public = p.ed25519Public ∧ own.x25519Public = p.x25519Public) ∧
      p.attach own = rec := by
  simp only [checkRecord, need_bind, unit_bind, require_eq_ok, pure_eq_ok]
  constructor
  · rintro ⟨hassigned, data, hdata, own, hown, hverify, haddress, hkeys, heq⟩
    exact ⟨hassigned, data, own, hdata, hown, hverify, haddress, hkeys, heq⟩
  · rintro ⟨hassigned, data, own, hdata, hown, hverify, haddress, hkeys, heq⟩
    exact ⟨hassigned, data, hdata, own, hown, hverify, haddress, hkeys, heq⟩

theorem checkKeyContinuity_unrotated (hchain : rec.rotationChain = []) :
    (checkKeyContinuity rt r rec (r.records.getDAR rt (domainOf rec.address)) now).2 = .ok () ↔
      ∀ prev, r.records.getIdentity rt rec.address = some prev → MayDisplace rt r prev rec := by
  constructor
  · intro hok prev hprev
    cases continuity_of_ok hprev hok with
    | sameKey hkey => exact .inl hkey
    | noAuthority hnone => exact .inr (.inl hnone)
    | tombstone hdar hrm hfrees => exact .inr (.inr ⟨_, _, hdar, hrm, hfrees⟩)
    | rotation hdar hlast _ =>
      rw [hchain] at hlast
      cases hlast
  · intro hdisplace
    cases hprev : r.records.getIdentity rt rec.address with
    | none => exact checkKeyContinuity_sameKey fun prev h => absurd (hprev.symm.trans h) (by simp)
    | some prev =>
      rcases hdisplace prev hprev with hkey | hnone | ⟨d, rm, hdar, hrm, hfrees⟩
      · refine checkKeyContinuity_sameKey fun prev' h => ?_
        rw [hprev, Option.some.injEq] at h
        rw [← h, hkey]
      · rw [hnone]
        exact checkKeyContinuity_noAuthority
      · rw [hdar]
        exact checkKeyContinuity_tombstone hprev hrm hfrees

theorem checkReservedLocalPart_of_names {c : Credential} (hcred : rec.addressCredential = some c)
    (haddress : c.address = rec.address) (hrole : c.hasRole roleAddress = true)
    (hsubject : c.subject = rec.ed25519Public) :
    checkReservedLocalPart rt r.records rec (r.records.getDAR rt (domainOf rec.address)) now =
      .ok () ↔
      ∀ d, r.records.getDAR rt (domainOf rec.address) = some d →
        d.reservesLocalPart rt (localPartOf rec.address) = true →
        verifyCredential rt c (some d) (r.records.storedBlocklist rt d) now = .ok () := by
  unfold checkReservedLocalPart
  cases r.records.getDAR rt (domainOf rec.address) with
  | none => simp
  | some d =>
    cases hreserved : d.reservesLocalPart rt (localPartOf rec.address) with
    | false => simp [hreserved]
    | true => simp [hreserved, hcred, haddress, hrole, hsubject, unit_bind, need, ok_bind]

theorem checkDomainGates_unrotated (rt : Runtime) (r : Relay) (now : Time) {c : Credential}
    (hchain : rec.rotationChain = []) (hcred : rec.addressCredential = some c)
    (haddress : c.address = rec.address) (hrole : c.hasRole roleAddress = true)
    (hsubject : c.subject = rec.ed25519Public) :
    (checkDomainGates rt r rec now).2 = .ok () ↔
      (isEphemeralAddress rec.address = false → ∀ d, r.records.getDAR rt (domainOf rec.address) =
        some d → d.reservesLocalPart rt (localPartOf rec.address) = true →
        verifyCredential rt c (some d) (r.records.storedBlocklist rt d) now = .ok ()) ∧
      (isEphemeralAddress rec.address = false → ∀ prev, r.records.getIdentity rt rec.address =
        some prev → MayDisplace rt r prev rec) := by
  cases heph : isEphemeralAddress rec.address with
  | true => simp [checkDomainGates, heph]
  | false =>
    rw [checkDomainGates_eq_ok heph, checkReservedLocalPart_of_names hcred haddress hrole hsubject,
      checkKeyContinuity_unrotated hchain]
    simp

theorem served_putIdentity (rt : Runtime) (dar : DomainAuthorityRecord) (rs : RecordStore)
    (rec : IdentityRecord) :
    (rs.putIdentity rt rec).storedBlocklist rt dar = rs.storedBlocklist rt dar ∧
    (rs.putIdentity rt rec).storedRemovalAny rt rec.address =
      rs.storedRemovalAny rt rec.address := by
  constructor
  · unfold RecordStore.storedBlocklist RecordStore.putIdentity
    rw [RecordStore.get_put_of_prefix_ne _ _ (by decide)]
  · exact RecordStore.storedRemovalAny_put_of_ne (by decide)

theorem verifyManagedRecord_of_parked (dar : DomainAuthorityRecord)
    (blocks : Option CredentialBlockList) (removal : Option AddressRemovalRecord) (now : Time)
    {a c : Credential} (ha : rec.addressCredential = some a) (hc : rec.routingCredential = some c)
    (hhints : rec.relayHints = c.relayHints) (hverify : rec.verify rt = true) :
    verifyManagedRecord rt rec dar blocks removal now = .ok tierDomainDNS ↔
      domainOf rec.address ≠ "" ∧ Strings.equalFold rt.unicode (domainOf rec.address) dar.domain =
      true ∧
      (c.matchesRecord dar.domain rec roleRouting = true ∧
        verifyCredential rt c (some dar) blocks now = .ok ()) ∧
      (a.matchesRecord dar.domain rec roleAddress = true ∧
        verifyCredential rt a (some dar) blocks now = .ok ()) ∧
      bindingRemoved rt rec dar removal = false := by
  simp only [verifyManagedRecord, checkRouting, unit_bind, require_eq_ok, refuse_eq_ok, wrap_eq_ok,
    pure_eq_ok, ha, hc]
  constructor
  · rintro ⟨-, hdomain, ⟨hmatch, -, hchain⟩, hmatch', hchain', hkept, -⟩
    rw [not_or, Bool.not_eq_false] at hdomain
    exact ⟨hdomain.1, hdomain.2, ⟨hmatch, hchain⟩, ⟨hmatch', hchain'⟩, by simpa using hkept⟩
  · rintro ⟨hne, hdomain, ⟨hmatch, hchain⟩, ⟨hmatch', hchain'⟩, hkept⟩
    refine ⟨hverify, ?_, ⟨hmatch, hhints, hchain⟩, hmatch', hchain', by simp [hkept], trivial⟩
    rw [not_or, Bool.not_eq_false]
    exact ⟨hne, hdomain⟩

theorem serves_iff (rt : Runtime) (r : Relay) (dar : DomainAuthorityRecord) (now : Time)
    (role : String) {cred : Option Credential} {c : Credential} (hcred : cred = some c)
    (hnames : c.Names p) (haddress : rec.address = p.address)
    (hkey : rec.ed25519Public = p.ed25519Public) :
    Serves rt r dar cred role now ↔ c.matchesRecord dar.domain rec role = true ∧
      verifyCredential rt c (some dar) (r.records.storedBlocklist rt dar) now = .ok () := by
  subst hcred
  unfold Serves
  rw [Credential.matchesRecord_iff]
  constructor
  · rintro ⟨c', hc, hrole, hdomain, hchain⟩
    obtain rfl := Option.some.inj hc
    exact ⟨⟨hdomain, hnames.address.trans haddress.symm, hrole, hnames.subject.trans hkey.symm⟩,
      hchain⟩
  · rintro ⟨⟨hdomain, -, hrole, -⟩, hchain⟩
    exact ⟨c, rfl, hrole, hdomain, hchain⟩

theorem accepted_iff_completable (hassigned : h.Assigned rt p) (hself : SelfSigned rt p rec data)
    (hname : dar.domain = h.domain) :
    AcceptedAndVerified rt r dar (p.attach rec) now ↔
      Completable rt r dar p (p.attach rec) now := by
  obtain ⟨a, ha, hnamesA⟩ := hassigned.addressCredential
  obtain ⟨c, hc, hnamesC⟩ := hassigned.routingCredential
  have hparsed := parsed_attach hassigned hself.parsed
  have hverify : (p.attach rec).verify rt = true := (verify_attach p rec).trans hself.verified
  have haddress : (p.attach rec).address = p.address := hself.address
  have hkey : (p.attach rec).ed25519Public = p.ed25519Public := hself.key
  have hcredA : (p.attach rec).addressCredential = some a := ha
  have hcredC : (p.attach rec).routingCredential = some c := hc
  have hhints : (p.attach rec).relayHints = c.relayHints := by
    simp [Petition.attach, hc, IdentityRecord.mirrorHints]
  have hchain : (p.attach rec).rotationChain = [] := hself.unrotated
  have hlive : (p.attach rec).expired now = false := by
    have hnever : (p.attach rec).expiresAt = default := hself.unexpiring
    simp [IdentityRecord.expired, hnever, Time.isZero_default]
  have hfold : Strings.equalFold rt.unicode (domainOf (p.attach rec).address) dar.domain =
      true := by
    rw [haddress, hname]
    exact hassigned.domain
  obtain ⟨hblocks, hremoval⟩ := served_putIdentity rt dar r.records (p.attach rec)
  have hreads := verifyManagedRecord_of_parked dar (r.records.storedBlocklist rt dar)
    (r.records.storedRemovalAny rt (p.attach rec).address) now hcredA hcredC hhints hverify
  have hservesA := serves_iff rt r dar now roleAddress ha hnamesA haddress hkey
  have hservesC := serves_iff rt r dar now roleRouting hc hnamesC haddress hkey
  have hgates := fun hrole : a.hasRole roleAddress = true =>
    checkDomainGates_unrotated rt r now hchain hcredA (hnamesA.address.trans haddress.symm) hrole
      (hnamesA.subject.trans hkey.symm)
  constructor
  · rintro ⟨rs, haccept, hread, -, -⟩
    obtain ⟨rec', hadm, rfl⟩ := acceptIdentity_eq_ok.mp haccept
    obtain rfl : rec' = p.attach rec := Option.some.inj (hadm.parsed.symm.trans hparsed)
    rw [hblocks, hremoval, hreads] at hread
    obtain ⟨hne, -, hrouting, haddr, hkept⟩ := hread
    have hrole := (Credential.matchesRecord_iff.mp haddr.1).2.2.1
    obtain ⟨hreserved, hdisplaces⟩ := (hgates hrole).mp hadm.gates
    refine ⟨hservesA.mpr haddr, hservesC.mpr hrouting, haddress ▸ hne, hkept, ?_, hdisplaces, ?_⟩
    · intro heph d hdar hres c' hc'
      obtain rfl := Option.some.inj (ha.symm.trans hc')
      exact hreserved heph d hdar hres
    · exact checkRollback_eq_ok.mp hadm.fresh
  · intro hcomp
    have haddr := hservesA.mp hcomp.address
    have hrouting := hservesC.mp hcomp.routing
    have hrole := (Credential.matchesRecord_iff.mp haddr.1).2.2.1
    have hadm : IdentityAdmitted rt r now (rt.identityRecord.marshal (p.attach rec).toProto)
        (p.attach rec) := by
      refine ⟨hparsed, hverify, hlive, (hgates hrole).mpr ⟨?_, hcomp.displaces⟩,
        checkRollback_eq_ok.mpr hcomp.fresh⟩
      exact fun heph d hdar hres => hcomp.reserved heph d hdar hres a ha
    refine ⟨_, acceptIdentity_eq_ok.mpr ⟨_, hadm, rfl⟩, ?_,
      by simp [IdentityRecord.hasRoutingCredential, hcredC], ?_⟩
    · rw [hblocks, hremoval, hreads]
      exact ⟨haddress.symm ▸ hcomp.domain, hfold, hrouting, haddr, hcomp.notRemoved⟩
    · rw [hblocks]
      simp only [checkRouting, hcredC, unit_bind, require_eq_ok, wrap_eq_ok]
      exact ⟨hrouting.1, hhints, hrouting.2⟩

end Completion

/-! When `active` is answered. -/

section Publishing

variable {rt : Runtime} {anchor : DarAnchor} {h : PetitionHandler} {r : Relay}
  {targets : List (Push → Bool)}
  {now : Time} {data : Bytes} {p : Petition} {rec : IdentityRecord} {d : Daemon} {w : AtHand}
    {req : PetitionCompleteRequest}

theorem storeOwn_admitted (anchor : DarAnchor) (hadm : IdentityAdmitted rt r now data rec) :
    ∃ r', storeOwn rt anchor (some r) ⟨now, .identity, data⟩ = (some r', 1) ∧
      r'.records = r.records.putIdentity rt rec := by
  have haccept : (acceptIdentity rt r now data).2 = .ok (r.records.putIdentity rt rec) :=
    acceptIdentity_eq_ok.mpr ⟨rec, hadm, rfl⟩
  unfold storeOwn acceptRecord
  dsimp only
  rw [haccept]
  exact ⟨_, rfl, rfl⟩

theorem storeOwn_refused (anchor : DarAnchor) (hno : ¬ ∃ rec, IdentityAdmitted rt r now data rec) :
    ∃ r', storeOwn rt anchor (some r) ⟨now, .identity, data⟩ = (some r', 0) ∧
      r'.records = r.records := by
  obtain ⟨e, hrefuse⟩ : ∃ e, (acceptIdentity rt r now data).2 = .error e := by
    cases haccept : (acceptIdentity rt r now data).2 with
    | error e => exact ⟨e, rfl⟩
    | ok rs =>
      obtain ⟨rec, hadm, -⟩ := acceptIdentity_eq_ok.mp haccept
      exact absurd ⟨rec, hadm⟩ hno
  unfold storeOwn acceptRecord
  dsimp only
  rw [hrefuse]
  exact ⟨_, rfl, rfl⟩

theorem fanOutRecord_fst (anchor : DarAnchor) (relay : Option Relay) (targets : List (Push → Bool))
    (push : Push) :
    (fanOutRecord rt anchor relay targets push).1 = (storeOwn rt anchor relay push).1 := by
  unfold fanOutRecord
  dsimp only
  split
  · rfl
  · rfl

theorem fanOutRecord_ok (anchor : DarAnchor) (relay : Option Relay) (targets : List (Push → Bool))
    (push : Push) :
    (∃ n, (fanOutRecord rt anchor relay targets push).2 = .ok n) ↔
      (storeOwn rt anchor relay push).2 ≠ 0 ∨ ∃ target ∈ targets, target push = true := by
  have hcount : (storeOwn rt anchor relay push).2 + (targets.countP fun target => target push) = 0 ↔
      ¬ ((storeOwn rt anchor relay push).2 ≠ 0 ∨ ∃ target ∈ targets, target push = true) := by
    rw [Nat.add_eq_zero_iff, List.countP_eq_zero]
    simp
  unfold fanOutRecord
  dsimp only
  split
  · next hzero =>
    have hnobody := hcount.mp hzero
    simp [hnobody]
  · next hsome =>
    have hsomebody := not_not.mp (mt hcount.mpr hsome)
    simp [hsomebody]

theorem checkRecord_parsed (hassigned : h.Assigned rt p) {encoded : String}
    (hcheck : checkRecord rt p encoded = .ok rec) :
    IdentityRecord.fromProtoBytes rt (rt.identityRecord.marshal rec.toProto) = some rec := by
  obtain ⟨-, data, own, -, hown, -, -, -, rfl⟩ := checkRecord_eq_ok.mp hcheck
  exact parsed_attach hassigned hown

theorem handleComplete_live (hholds : d.petitions.Holds p) (hlive : p.expired w.now = false)
    (hcode : Strings.trimSpace rt.unicode req.code = p.code) :
    handleComplete rt anchor targets d w (some req) =
      match checkRecord rt p req.identityRecord with
      | .error e => (d, .error e)
      | .ok rec =>
        match fanOutRecord rt anchor d.relay targets
          ⟨w.later, .identity, rt.identityRecord.marshal rec.toProto⟩ with
        | (relay, .error ()) => (⟨d.petitions, relay⟩, .error ⟨500, "could not publish the record"⟩)
        | (relay, .ok _) =>
          (⟨(d.petitions.complete p.code w.saves).1, relay⟩, .ok rec.address) := by
  have hget : d.petitions.get p.code w.now w.dropSaves = (d.petitions, .ok p) := by
    unfold PetitionStore.get
    rw [hholds.queued]
    dsimp only
    rw [hlive]
    rfl
  unfold handleComplete
  dsimp only
  rw [hcode, hget]

theorem handleComplete_checked (anchor : DarAnchor) (targets : List (Push → Bool))
    (hholds : d.petitions.Holds p) (hlive : p.expired w.now = false)
    (hcode : Strings.trimSpace rt.unicode req.code = p.code)
    (hcheck : checkRecord rt p req.identityRecord = .ok rec) :
    (handleComplete rt anchor targets d w (some req)).1.relay =
      (storeOwn rt anchor d.relay ⟨w.later, .identity, rt.identityRecord.marshal rec.toProto⟩).1 ∧
    ∀ address, (handleComplete rt anchor targets d w (some req)).2 = .ok address ↔
      ((storeOwn rt anchor d.relay ⟨w.later, .identity, rt.identityRecord.marshal rec.toProto⟩).2 ≠
        0 ∨ ∃ target ∈ targets, target ⟨w.later, .identity, rt.identityRecord.marshal rec.toProto⟩ =
          true) ∧
      rec.address = address := by
  rw [handleComplete_live hholds hlive hcode, hcheck, ← fanOutRecord_ok,
    ← fanOutRecord_fst anchor d.relay targets]
  dsimp only
  rcases fanOutRecord rt anchor d.relay targets
    ⟨w.later, .identity, rt.identityRecord.marshal rec.toProto⟩ with
    ⟨relay, _ | n⟩
  · simp
  · simp

theorem activeOnlyIfHeld_iff (hassigned : h.Assigned rt p) (hholds : d.petitions.Holds p)
    (hlive : p.expired w.now = false) (hcode : Strings.trimSpace rt.unicode req.code = p.code)
    (hrelay : d.relay = some r) :
    ActiveOnlyIfHeld rt anchor targets d w req p ↔
      ∀ rec, checkRecord rt p req.identityRecord = .ok rec →
        IdentityAdmitted rt r w.later (rt.identityRecord.marshal rec.toProto) rec ∨
        (∀ target ∈ targets, target ⟨w.later, .identity, rt.identityRecord.marshal rec.toProto⟩ =
          false) ∨
        r.records.getIdentity rt rec.address = some rec := by
  unfold ActiveOnlyIfHeld
  cases hcheck : checkRecord rt p req.identityRecord with
  | error e =>
    rw [handleComplete_live hholds hlive hcode, hcheck]
    simp
  | ok rec =>
    obtain ⟨hafter, hactive⟩ := handleComplete_checked anchor targets hholds hlive hcode hcheck
    have hparsed := checkRecord_parsed hassigned hcheck
    simp only [hactive, hafter, Except.ok.injEq, forall_eq']
    rw [hrelay]
    by_cases hadm : IdentityAdmitted rt r w.later (rt.identityRecord.marshal rec.toProto) rec
    · obtain ⟨r', hown, hrecords⟩ := storeOwn_admitted anchor hadm
      rw [hown]
      refine ⟨fun _ => .inl hadm, ?_⟩
      rintro - address ⟨-, rfl⟩
      refine ⟨r', rec, rfl, rfl, ?_⟩
      rw [hrecords, RecordStore.getIdentity_putIdentity hparsed, if_pos rfl]
    · have hno : ¬ ∃ rec', IdentityAdmitted rt r w.later (rt.identityRecord.marshal rec.toProto)
          rec' := by
        rintro ⟨rec', hadm'⟩
        obtain rfl := Option.some.inj (hadm'.parsed.symm.trans hparsed)
        exact hadm hadm'
      obtain ⟨r', hown, hrecords⟩ := storeOwn_refused anchor hno
      rw [hown]
      constructor
      · intro hheld
        by_cases htaken : ∃ target ∈ targets,
            target ⟨w.later, .identity, rt.identityRecord.marshal rec.toProto⟩ = true
        · obtain ⟨r'', rec', hr, hrec, hget⟩ := hheld rec.address ⟨.inr htaken, rfl⟩
          obtain rfl := Option.some.inj hr
          subst hrec
          rw [hrecords] at hget
          exact .inr (.inr hget)
        · exact .inr (.inl (by simpa using htaken))
      · rintro (hadm' | hnobody | hget) address ⟨htaken, rfl⟩
        · exact absurd hadm' hadm
        · rcases htaken with hzero | ⟨target, htarget, htakes⟩
          · exact absurd rfl hzero
          · rw [hnobody target htarget] at htakes
            cases htakes
        · refine ⟨r', rec, rfl, rfl, ?_⟩
          rw [hrecords]
          exact hget

end Publishing

/-- An assignment can be completed exactly when what it leaves unchecked is in order at the
completion; and `active` is answered for a record that the own store lacks exactly when the own
store refuses it, does not hold it already, and some other node takes it. -/
theorem assigned_completable_iff (rt : Runtime) (h : PetitionHandler) (s s' : PetitionStore)
    (w : AtHand) (req : AdminAssignRequest) (address : String)
    (hassign : h.handleAdminAssign rt s w (some req) = (s', .ok address)) :
    ∃ q addrCred routeCred p, PetitionStore.find s.byCode (Strings.trimSpace rt.unicode req.code) =
      some q ∧
      PetitionHandler.decodeCreds rt w req q address = .ok (addrCred, routeCred) ∧
      p = q.assign rt address addrCred routeCred w.later ∧ s'.Holds p ∧
      ∀ (events : List PetitionEvent) (r : Relay) (dar : DomainAuthorityRecord) (c : AtHand),
        (∀ e ∈ events, p.Waits e) → p.expired c.now = false →
        r.records.getDAR rt h.domain = some dar → dar.domain = h.domain →
        (∀ rec data encoded, SelfSigned rt p rec data → Base64.decodeString encoded = some data →
          checkRecord rt p encoded = .ok (p.attach rec) ∧
          (AcceptedAndVerified rt r dar (p.attach rec) c.later ↔
            Completable rt r dar p (p.attach rec) c.later)) ∧
        ∀ anchor targets creq, Strings.trimSpace rt.unicode creq.code = p.code →
          (ActiveOnlyIfHeld rt anchor targets
            ⟨Machine.run (PetitionStore.step rt) s' events, some r⟩ c creq p ↔
            ∀ rec, checkRecord rt p creq.identityRecord = .ok rec →
              IdentityAdmitted rt r c.later (rt.identityRecord.marshal rec.toProto) rec ∨
              (∀ target ∈ targets,
                target ⟨c.later, .identity, rt.identityRecord.marshal rec.toProto⟩ = false) ∨
              r.records.getIdentity rt rec.address = some rec) := by
  obtain ⟨q, addrCred, routeCred, hfind, hcreds, hassigned, hholds⟩ :=
    assigned_of_handleAdminAssign hassign
  refine ⟨q, addrCred, routeCred, _, hfind, hcreds, rfl, hholds, ?_⟩
  intro events r dar c hwaits hlive _ hname
  constructor
  · intro rec data encoded hself hdecode
    refine ⟨checkRecord_eq_ok.mpr ⟨hassigned.parked.assigned, data, rec, hdecode, hself.parsed,
      hself.verified, hself.address, ⟨hself.key, hself.mailboxKey⟩, rfl⟩, ?_⟩
    exact accepted_iff_completable hassigned hself hname
  · intro anchor targets creq hcode
    have hlater := PetitionStore.holds_run hassigned.parked hholds hwaits
    exact activeOnlyIfHeld_iff hassigned hlater hlive hcode rfl

theorem verifyAdmin_of_signed {rt : Runtime} {w : World} {proof : AdminProof}
    {nonce sig root : Bytes} (hnonce : Base64.decodeString proof.nonceB64 = some nonce)
    (hne : nonce ≠ []) (hsig : Base64.decodeString proof.sigB64 = some sig)
    (hroot : w.rootPub = some root) (hsigned : Crypto.verify rt root
      (adminSignableBytes proof.sigContext nonce proof.bound) sig = true) :
    verifyAdmin rt w proof nonce = .ok () := by
  unfold verifyAdmin
  rw [hnonce, hsig, hroot]
  cases nonce with
  | nil => exact absurd rfl hne
  | cons b bs =>
    dsimp only
    rw [if_neg (not_not_intro rfl), if_pos hsigned]

/-! A petition that is assigned an address, with the two credentials for it or with the routing one
in both places. -/
namespace Parking

noncomputable def runtime : Runtime := idealRuntime [keyOf 1, keyOf 2] []

def authority : Pb.DomainAuthorityRecord :=
  { plainAuthority "example.org" 1 with reservedLocalParts := ["bob"] }

noncomputable def relay : Relay := seedOwnRecords runtime [.fromProto authority]

def credential (role : String) : Pb.Credential :=
  plainCredential "example.org" "bob@example.org" role 1 2

def petition : Petition :=
  ⟨"0428-9173-5560", keyOf 2, .zero 32, Time.ofUnix 100, Time.ofUnix 1000, "", default, none, none,
    [], []⟩

def queue : PetitionStore := ⟨Duration.hour, [petition], []⟩

def handler : PetitionHandler := ⟨"example.org"⟩

def atHand : AtHand :=
  ⟨some (keyOf 9), some (keyOf 1), Time.ofUnix 200, Time.ofUnix 200, true, true⟩

def text (b : Bytes) : String := String.ofList (Base64.encode b)

noncomputable def request (role : String) : AdminAssignRequest :=
  ⟨"0428-9173-5560", "bob@example.org", text (runtime.credential.marshal (credential role)),
    text (runtime.credential.marshal (credential roleRouting)), text (keyOf 9),
      text (List.replicate 64 0)⟩

noncomputable def assigned (role : String) : Petition :=
  petition.assign runtime "bob@example.org" (.fromProto (credential role))
    (.fromProto (credential roleRouting))
    (Time.ofUnix 200)

noncomputable def assignedQueue (role : String) : PetitionStore :=
  ⟨Duration.hour, [assigned role], [(assigned role).saved]⟩

def record : Pb.IdentityRecord := plainRecord "bob@example.org" 2

def own : IdentityRecord := .ofMessage record []

noncomputable def completion : PetitionCompleteRequest :=
  ⟨"0428-9173-5560", text (runtime.identityRecord.marshal record)⟩

variable (role : String)

theorem verifySignature_credential : (Credential.fromProto (credential role)).verifySignature
    runtime = true :=
  Credential.verifySignature_idealRuntime.mpr
    ⟨length_keyOf 1, List.length_replicate, .inl (List.mem_cons_self ..)⟩

theorem decodeCred_credential (field : String) :
    decodeCred runtime (some (keyOf 1)) (text (runtime.credential.marshal (credential role))) field
      petition
      "bob@example.org" = .ok (.fromProto (credential role)) := by
  have hmsg : credential role ≠ default := by
    intro heq
    exact absurd (congrArg Pb.Credential.address heq) (show "bob@example.org" ≠ "" by decide)
  have hbytes : runtime.credential.marshal (credential role) ≠ [] :=
    runtime.credential.marshal_ne_nil hmsg
  have hread : Credential.fromProtoBytes runtime (runtime.credential.marshal (credential role)) =
      some (.fromProto (credential role)) := by
    unfold Credential.fromProtoBytes
    rw [Codec.unmarshal_marshal, Option.map_some]
  simp only [decodeCred, need_bind, unit_bind, require_eq_ok, refuse_eq_ok, pure_eq_ok]
  exact ⟨_, Base64.decodeString_encode _,
    by simpa using hbytes, _, hread, verifySignature_credential role, keyOf 1,
    rfl, rfl, rfl, rfl, rfl⟩

theorem decodeCreds_request : PetitionHandler.decodeCreds runtime atHand
    (request role) petition "bob@example.org" =
    .ok (.fromProto (credential role), .fromProto (credential roleRouting)) := by
  simp only [PetitionHandler.decodeCreds, bind_eq_ok, pure_eq_ok]
  exact ⟨_, decodeCred_credential role _, _, decodeCred_credential roleRouting _, rfl⟩

theorem checkAssign_request :
    handler.checkAssign runtime atHand (request role) "0428-9173-5560" "bob@example.org" =
      .ok () := by
  have hadmin : verifyAdmin runtime ⟨0, none, none, none, atHand.rootPub⟩
      ⟨(request role).nonce, (request role).signature, adminAssignContext,
        "0428-9173-5560" ++ String.singleton (Char.ofNat 0) ++ "bob@example.org"⟩ (keyOf 9) =
          .ok () := by
    have hsigned : ∀ message, Crypto.verify runtime (keyOf 1) message (List.replicate 64 0) =
        true := by
      intro message
      simp [keyOf, Crypto.verify, Crypto.ed25519PublicKeySize, Crypto.ed25519SignatureSize, runtime,
        idealRuntime, Ideal.tableVerify]
    exact verifyAdmin_of_signed (Base64.decodeString_encode _) (by decide)
      (Base64.decodeString_encode _) rfl
      (hsigned _)
  simp only [PetitionHandler.checkAssign, need_bind, unit_bind, require_eq_ok, Prod.exists]
  exact ⟨keyOf 9, rfl, hadmin, "bob", "example.org", by decide, by decide, Strings.equalFold_refl _⟩

theorem trimSpace_code : Strings.trimSpace runtime.unicode
    (request role).code = "0428-9173-5560" := by
  change Strings.trimSpace asciiUnicode "0428-9173-5560" = _
  decide

theorem handleAdminAssign_request : handler.handleAdminAssign runtime queue atHand
    (some (request role)) = (assignedQueue role, .ok "bob@example.org") := by
  have haddress : Strings.trimSpace runtime.unicode (request role).address = "bob@example.org" := by
    change Strings.trimSpace asciiUnicode "bob@example.org" = _
    decide
  have hget : queue.get "0428-9173-5560" atHand.now atHand.dropSaves = (queue, .ok petition) := rfl
  exact handleAdminAssign_of_checked (trimSpace_code role) haddress (checkAssign_request role) hget
    (decodeCreds_request role) rfl

theorem selfSigned_own : SelfSigned runtime (assigned role) own
    (runtime.identityRecord.marshal record) where
  parsed := IdentityRecord.fromProtoBytes_plain rfl rfl rfl
  verified := IdentityRecord.verify_idealRuntime (List.mem_cons_of_mem _ (List.mem_cons_self ..))
    (length_keyOf 2)
  address := rfl
  key := rfl
  mailboxKey := rfl
  unexpiring := rfl
  unrotated := rfl

theorem checkRecord_own : checkRecord runtime (assigned role) completion.identityRecord =
    .ok ((assigned role).attach own) := by
  have hown := selfSigned_own role
  exact checkRecord_eq_ok.mpr
    ⟨show ("bob@example.org" != "") = true by decide, _, own, Base64.decodeString_encode _,
    hown.parsed, hown.verified, hown.address, ⟨hown.key, hown.mailboxKey⟩, rfl⟩

theorem reserves_bob : (DomainAuthorityRecord.fromProto authority).reservesLocalPart runtime
    (localPartOf ((assigned roleRouting).attach own).address) = true := by
  have hlocal : localPartOf ((assigned roleRouting).attach own).address = "bob" := by decide
  rw [hlocal]
  change DomainAuthorityRecord.reservesLocalPart ⟨_, _, _, asciiUnicode, _, _, _, _, _, _, _, _, _⟩
    _ _ = true
  decide

theorem not_verified_routing (now : Time) :
    ¬ AcceptedAndVerified runtime relay (.fromProto authority) ((assigned roleRouting).attach own)
      now := by
  rintro ⟨rs, -, hread, -⟩
  have hcred := verifyManagedRecord_credential hread rfl
  have hrole := (Credential.matchesRecord_iff.mp hcred.1).2.2.1
  exact absurd hrole (by decide)

theorem not_admitted_routing {now : Time} {data : Bytes} :
    ¬ IdentityAdmitted runtime relay now data ((assigned roleRouting).attach own) := by
  intro hadm
  have heph : isEphemeralAddress ((assigned roleRouting).attach own).address = false := by decide
  have hdomain : domainOf ((assigned roleRouting).attach own).address = "example.org" := by decide
  have hdar : gateAuthority runtime relay.records ((assigned roleRouting).attach own).address =
      some (.fromProto authority) := by
    rw [gateAuthority_eq_some, hdomain]
    exact ⟨heph, getDAR_seed_singleton rfl⟩
  obtain ⟨c, hcred, -, hrole, -⟩ := hadm.reservedFor hdar reserves_bob
  obtain rfl := Option.some.inj hcred
  exact absurd hrole (by decide)

theorem assigned_request : handler.Assigned runtime (assigned role) ∧ (assignedQueue role).Holds
    (assigned role) := by
  obtain ⟨q, a, c, hfind, hcreds, hassigned, hholds⟩ :=
    assigned_of_handleAdminAssign (handleAdminAssign_request role)
  rw [trimSpace_code role] at hfind
  obtain rfl : petition = q := Option.some.inj hfind
  rw [decodeCreds_request] at hcreds
  obtain ⟨rfl, rfl⟩ := Prod.mk.inj (Except.ok.inj hcreds)
  exact ⟨hassigned, hholds⟩

/-- The routing credential in both places is assigned; the record that the petitioner then signs
does not verify, and is answered `active` though the own store refuses it, because another node
takes it. -/
theorem assigned_and_not_completed :
    handler.handleAdminAssign runtime queue atHand (some (request roleRouting)) =
      (assignedQueue roleRouting, .ok "bob@example.org") ∧
    relay.records.getDAR runtime "example.org" = some (.fromProto authority) ∧
    relay.records.getIdentity runtime "bob@example.org" = none ∧
    SelfSigned runtime (assigned roleRouting) own (runtime.identityRecord.marshal record) ∧
    ¬ AcceptedAndVerified runtime relay (.fromProto authority) ((assigned roleRouting).attach own)
      (Time.ofUnix 200) ∧
    (handleComplete runtime none [fun _ => true] ⟨assignedQueue roleRouting, some relay⟩ atHand
      (some completion)).2 =
      .ok "bob@example.org" ∧
    ¬ ActiveOnlyIfHeld runtime none [fun _ => true] ⟨assignedQueue roleRouting, some relay⟩ atHand
      completion
      (assigned roleRouting) := by
  obtain ⟨hassigned, hholds⟩ := assigned_request roleRouting
  have hnone : relay.records.getIdentity runtime "bob@example.org" = none :=
    getIdentity_seed runtime _ _
  have hlive : (assigned roleRouting).expired atHand.now = false := by decide
  have hcode : Strings.trimSpace runtime.unicode completion.code = (assigned roleRouting).code :=
    trimSpace_code roleRouting
  have hchecked :=
    handleComplete_checked none [fun _ => true] (d := ⟨assignedQueue roleRouting, some relay⟩)
    (w := atHand) hholds hlive hcode (checkRecord_own roleRouting)
  refine ⟨handleAdminAssign_request roleRouting, getDAR_seed_singleton rfl, hnone,
    selfSigned_own roleRouting, not_verified_routing _, ?_, ?_⟩
  · exact (hchecked.2 _).mpr ⟨.inr ⟨_, List.mem_singleton_self _, rfl⟩, rfl⟩
  · rw [activeOnlyIfHeld_iff hassigned hholds hlive hcode rfl]
    intro hheld
    rcases hheld _ (checkRecord_own roleRouting) with hadm | hnobody | hget
    · exact not_admitted_routing hadm
    · cases hnobody _ (List.mem_singleton_self _)
    · cases hnone.symm.trans hget

theorem storedBlocklist_relay (dar : DomainAuthorityRecord) :
    relay.records.storedBlocklist runtime dar = none := by
  unfold storedBlocklist
  rw [relay, get_seed runtime _ _ (by decide), Option.bind_none]

theorem serves_credential {role : String} (hrole : role = roleAddress ∨ role = roleRouting)
    (now : Time) :
    Serves runtime relay (.fromProto authority) (some (.fromProto (credential role))) role now := by
  have hgranted : isAuthorityRole role = false ∧ role ∈ rootGrants := by
    rcases hrole with rfl | rfl
    · decide
    · decide
  have hdomain : domainOf "bob@example.org" = "example.org" := by decide
  have htarget : (Credential.fromProto (credential role)).target = "example.org" := by
    simp [Credential.target, Credential.fromProto, credential, plainCredential, hdomain]
  have hheld : (Credential.fromProto (credential role)).hasRole role = true := by
    simp [Credential.hasRole, Strings.contains_iff, credential, plainCredential,
      Credential.fromProto]
  refine ⟨_, rfl, hheld, rfl, ?_⟩
  rw [storedBlocklist_relay]
  exact verifyCredential_of_root (verifySignature_credential role) rfl rfl rfl
    (rootKeyAt_plainAuthority "example.org" 1) rfl hgranted.1 hgranted.2 rfl htarget

theorem completable_address (now : Time) : Completable runtime relay (.fromProto authority)
    (assigned roleAddress) ((assigned roleAddress).attach own) now := by
  have hnone : relay.records.getIdentity runtime ((assigned roleAddress).attach own).address =
      none :=
    getIdentity_seed runtime _ _
  have hremoval :
      relay.records.storedRemovalAny runtime ((assigned roleAddress).attach own).address = none :=
    storedRemovalAny_seed runtime _ _
  have hserves := serves_credential (.inl rfl) now
  refine ⟨hserves, serves_credential (.inr rfl) now, by decide, by rw [hremoval]; rfl, ?_, ?_, ?_⟩
  · intro _ d hdar _ c hc
    obtain rfl := eq_of_getDAR_seed hdar
    obtain ⟨c', hc', -, -, hchain⟩ := hserves
    obtain rfl := Option.some.inj (hc.symm.trans hc')
    exact hchain
  · intro _ prev hprev
    cases hnone.symm.trans hprev
  · intro prev hprev
    cases hnone.symm.trans hprev

/-- The two credentials in their places: the record is accepted and verified. -/
theorem assigned_and_completed :
    AcceptedAndVerified runtime relay (.fromProto authority) ((assigned roleAddress).attach own)
      atHand.later := by
  obtain ⟨q, a, c, p, hfind, hcreds, rfl, -, hcompletes⟩ :=
    assigned_completable_iff runtime handler queue _ atHand
    (request roleAddress) _ (handleAdminAssign_request roleAddress)
  rw [trimSpace_code roleAddress] at hfind
  obtain rfl : petition = q := Option.some.inj hfind
  rw [decodeCreds_request] at hcreds
  obtain ⟨rfl, rfl⟩ := Prod.mk.inj (Except.ok.inj hcreds)
  have hlive : (assigned roleAddress).expired atHand.now = false := by decide
  have hone := (hcompletes [] relay (.fromProto authority) atHand (by simp) hlive
    (getDAR_seed_singleton rfl) rfl).1 own _ _
    (selfSigned_own roleAddress) (Base64.decodeString_encode _)
  exact hone.2.mpr (completable_address _)

end Parking

end Dmcn
