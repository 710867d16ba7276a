import OpenDmcn.Relay.Resolve

/-! Discovery and resolution (`node/resolver.go`). A domain's `_dmcn` record carries the
fingerprint that everything is verified against and the seeds to ask; the seeds themselves are
trusted with nothing. What the network answers is an arbitrary function of time. -/

namespace Dmcn

open Go Guard

structure DnsRecord where
  fingerprint : String
  fleet : String
  seeds : List String
  deriving DecidableEq

inductive DnsError where
  | notFound | transient
  deriving DecidableEq

abbrev PeerID := String

/-- What a node can see of the outside. A fetch that ends in an error is `none`, and one that
reports the record absent is `some none`. -/
structure Network where
  resolveDNS : Time → String → Except DnsError DnsRecord
  dnsVerify : Time → String → String → Bool
  parseRelayHint : String → Option PeerID
  connect : Time → PeerID → Bool
  connected : Time → List PeerID
  clientGetDAR : Time → PeerID → String → Option (Option Bytes)
  clientGetIdentity : Time → PeerID → String → Option (Option Bytes)
  clientGetRemoval : Time → PeerID → String → Option (Option Bytes)
  clientGetBlocklist : Time → PeerID → String → Option (Option Bytes)

structure Node where
  hostID : PeerID
  staticDNS : String → Option DnsRecord
  peers : List String
  net : Network
  records : Option RecordStore

namespace Node

variable (rt : Runtime) (n : Node)

def resolveDomain (now : Time) (domain : String) : Except DnsError DnsRecord :=
  match n.staticDNS (Strings.toLower rt.unicode domain) with
  | some rec => .ok rec
  | none => n.net.resolveDNS now domain

def bootstrapSeeds (now : Time) (mrec : DnsRecord) : Except LookupError (List String) :=
  if mrec.fleet = "" then .ok mrec.seeds
  else
    match n.resolveDomain rt now mrec.fleet with
    | .ok frec => .ok frec.seeds
    | .error _ => .error .transient

def dnsDiscover (now : Time) (domain : String) : Except LookupError (DnsRecord × List String) :=
  match n.resolveDomain rt now domain with
  | .error .notFound => .error .notFound
  | .error .transient => .error .transient
  | .ok mrec => do
    refuse (mrec.fingerprint = "") .notFound
    let seeds ← n.bootstrapSeeds rt now mrec
    refuse (seeds = []) .transient
    return (mrec, seeds)

def verifyDAR (dar : DomainAuthorityRecord) (mrec : DnsRecord) : Bool :=
  dar.verify rt && Strings.equalFold rt.unicode (dar.fingerprint rt) mrec.fingerprint &&
    !((dar.defersToFleet rt).2 && mrec.fleet != (dar.defersToFleet rt).1)

def dial (now : Time) (seed : String) : Except LookupError PeerID := do
  let peer ← need (n.net.parseRelayHint seed) .transient
  require (peer = n.hostID ∨ n.net.connect now peer) .transient
  return peer

def fetchDAR (now : Time) (peer : PeerID) (domain : String) (mrec : DnsRecord)
    (absent : LookupError) :
    Except LookupError DomainAuthorityRecord := do
  let answer ← need (n.net.clientGetDAR now peer domain) .transient
  let data ← need answer absent
  let dar ← need (DomainAuthorityRecord.fromProtoBytes rt data) .transient
  require (verifyDAR rt dar mrec) .transient
  return dar

def fetchBlocklist (now : Time) (peer : PeerID) (domain : String) (dar : DomainAuthorityRecord) :
    Option CredentialBlockList := do
  let data ← (n.net.clientGetBlocklist now peer domain).join
  (CredentialBlockList.fromProtoBytes rt data).filter (blocklistIsRootSigned rt dar)

def fetchRemoval (now : Time) (peer : PeerID) (address : String) : Option AddressRemovalRecord := do
  let data ← (n.net.clientGetRemoval now peer address).join
  AddressRemovalRecord.fromProtoBytes rt data

def resolveVia (now : Time) (seed address domain : String) (mrec : DnsRecord) :
    Except LookupError IdentityRecord := do
  let peer ← n.dial now seed
  let dar ← n.fetchDAR rt now peer domain mrec .transient
  let answer ← need (n.net.clientGetIdentity now peer address) .transient
  let data ← need answer .notFound
  let rec ← need (IdentityRecord.fromProtoBytes rt data) .transient
  match verifyManagedRecord rt rec dar (n.fetchBlocklist rt now peer domain dar)
      (n.fetchRemoval rt now peer address) now with
  | .ok _ => return rec
  | .error _ => throw .transient

def overSeeds {α : Type} (fetch : String → Except LookupError α) : List String →
    Except LookupError α
  | [] => .error .transient
  | seed :: seeds =>
    match fetch seed with
    | .ok a => .ok a
    | .error .notFound => .error .notFound
    | .error .transient => overSeeds fetch seeds

def tryPeer (now : Time) (address : String) (peer : PeerID) : Option IdentityRecord := do
  guard (peer ≠ n.hostID)
  let data ← (n.net.clientGetIdentity now peer address).join
  (IdentityRecord.fromProtoBytes rt data).filter (IdentityRecord.verify rt)

def pairingPeers (now : Time) : List PeerID :=
  n.net.connected now ++ n.peers.filterMap fun p =>
    (n.net.parseRelayHint p).filter fun peer => peer == n.hostID || n.net.connect now peer

def localPairing (address : String) : Option IdentityRecord := do
  let rs ← n.records
  let data ← rs.getIdentityBytes address
  (IdentityRecord.fromProtoBytes rt data).filter (IdentityRecord.verify rt)

def resolveEphemeral (now : Time) (address : String) : Except LookupError IdentityRecord :=
  match n.localPairing rt address with
  | some rec => .ok rec
  | none =>
    match (n.pairingPeers now).findSome? (n.tryPeer rt now address) with
    | some rec => .ok rec
    | none =>
      if (n.pairingPeers now).all (fun peer => peer == n.hostID ||
          n.net.clientGetIdentity now peer address == some none) &&
          n.peers.all (fun p => (n.net.parseRelayHint p).elim true fun peer =>
            peer == n.hostID || n.net.connect now peer)
      then .error .notFound
      else .error .transient

def resolve (now : Time) (address : String) : Except LookupError IdentityRecord :=
  if domainOf address = "" then .error .transient
  else if isEphemeralAddress address then n.resolveEphemeral rt now address
  else do
    let (mrec, seeds) ← n.dnsDiscover rt now (domainOf address)
    overSeeds (fun seed => n.resolveVia rt now seed address (domainOf address) mrec) seeds

def resolveDAR (now : Time) (domain : String) : Except LookupError DomainAuthorityRecord := do
  let (mrec, seeds) ← n.dnsDiscover rt now domain
  overSeeds (fun seed => do
    let peer ← n.dial now seed
    n.fetchDAR rt now peer domain mrec .notFound) seeds

def fleetBytes (now : Time) (domain : String) (fetch : PeerID → Option (Option Bytes)) :
    Except LookupError (Option Bytes) := do
  let (_, seeds) ← n.dnsDiscover rt now domain
  overSeeds (fun seed => do
    let peer ← n.dial now seed
    need (fetch peer) .transient) seeds

def darForSource (now : Time) (domain : String) : Answer DomainAuthorityRecord :=
  match n.records.bind fun rs => rs.getDAR rt domain with
  | some dar => .ok (some dar)
  | none =>
    match n.resolveDAR rt now domain with
    | .ok dar => .ok (some dar)
    | .error e => .error e

def parsed {α : Type} (parse : Bytes → Option α) (data : Bytes) : Answer α :=
  match parse data with
  | some a => .ok (some a)
  | none => .error .transient

def resolveRemovalViaFleet (now : Time) (address : String) : Answer AddressRemovalRecord :=
  match n.records.bind fun rs => rs.getRemovalBytes address with
  | some data => parsed (AddressRemovalRecord.fromProtoBytes rt) data
  | none =>
    match n.fleetBytes rt now (domainOf address) (n.net.clientGetRemoval now · address) with
    | .error e => .error e
    | .ok none => .ok none
    | .ok (some data) => parsed (AddressRemovalRecord.fromProtoBytes rt) data

def vouchedBlocklist (now : Time) (domain : String) (raw : Bytes) : Answer CredentialBlockList :=
  match CredentialBlockList.fromProtoBytes rt raw with
  | none => .error .transient
  | some bl =>
    match n.darForSource rt now domain with
    | .ok (some dar) => .ok (if blocklistIsRootSigned rt dar bl then some bl else none)
    | _ => .ok none

def resolveBlocklistViaFleet (now : Time) (domain : String) : Answer CredentialBlockList :=
  match n.records.bind fun rs => rs.getBlocklistBytes domain with
  | some raw => n.vouchedBlocklist rt now domain raw
  | none =>
    match n.fleetBytes rt now domain (n.net.clientGetBlocklist now · domain) with
    | .error e => .error e
    | .ok none => .ok none
    | .ok (some raw) => n.vouchedBlocklist rt now domain raw

def identityForSource (now : Time) (address : String) : Answer IdentityRecord :=
  match n.records.bind fun rs => rs.getIdentity rt address with
  | some rec => .ok (some rec)
  | none =>
    match n.resolve rt now address with
    | .ok rec => .ok (some rec)
    | .error e => .error e

def recordSource : RecordSource where
  identity := some (n.identityForSource rt)
  dar := some (n.darForSource rt)
  removal := some (n.resolveRemovalViaFleet rt)
  blocklist := some (n.resolveBlocklistViaFleet rt)

def registry : Registry := .new n.net.dnsVerify (some (n.recordSource rt))

def lookup (now : Time) (address : String) : Answer IdentityRecord :=
  (n.registry rt).lookup now address

def serving (rs : RecordStore) : Node := { n with records := some rs }

end Node

section Definitions

variable (rt : Runtime) (n : Node) (now : Time) (a : String)

structure AnchoredSeed (mrec : DnsRecord) (seed : String) (peer : PeerID)
    (dar : DomainAuthorityRecord) : Prop where
  dialled : n.dial now seed = .ok peer
  served : ∃ data, n.net.clientGetDAR now peer (domainOf a) = some (some data) ∧
    DomainAuthorityRecord.fromProtoBytes rt data = some dar
  anchored : Node.verifyDAR rt dar mrec = true

structure ServesRecord (mrec : DnsRecord) (seed : String) (peer : PeerID)
    (dar : DomainAuthorityRecord) (rec : IdentityRecord) : Prop where
  anchor : AnchoredSeed rt n now a mrec seed peer dar
  served : ∃ data, n.net.clientGetIdentity now peer a = some (some data) ∧
    IdentityRecord.fromProtoBytes rt data = some rec
  verifies : ∃ t, verifyManagedRecord rt rec dar (n.fetchBlocklist rt now peer (domainOf a) dar)
    (n.fetchRemoval rt now peer a) now = .ok t

def DeniesRecord (mrec : DnsRecord) (seed : String) : Prop :=
  ∃ peer dar, AnchoredSeed rt n now a mrec seed peer dar ∧ n.net.clientGetIdentity now peer a =
    some none

def DecidedBy (mrec : DnsRecord) (seeds : List String) (rec : IdentityRecord) : Prop :=
  ∃ before seed after peer dar, seeds = before ++ seed :: after ∧
    (∀ s ∈ before, ¬ DeniesRecord rt n now a mrec s ∧ ∀ peer dar rec,
      ¬ ServesRecord rt n now a mrec s peer dar rec) ∧
    ServesRecord rt n now a mrec seed peer dar rec

def VerifiesBy (peer : PeerID) (dar : DomainAuthorityRecord) (rec : IdentityRecord) : Prop :=
  ∃ t, verifyManagedRecord rt rec dar (n.fetchBlocklist rt now peer (domainOf a) dar)
    (n.fetchRemoval rt now peer a) now = .ok t

end Definitions

section Resolution

variable {rt : Runtime} {n : Node} {now : Time} {a : String} {mrec : DnsRecord}
  {rec : IdentityRecord}

theorem need_eq_error {ε α : Type} {o : Option α} {e e' : ε} : need o e = .error e' ↔ o = none ∧
    e = e' := by
  cases o with
  | none => simp [need]
  | some b => simp [need]

theorem transient_iff {α : Type} {x : Except LookupError α} :
    x = .error .transient ↔ x ≠ .error .notFound ∧ ∀ y, x ≠ .ok y := by
  cases x with
  | error e =>
    cases e with
    | notFound => simp
    | transient => simp
  | ok y => simp

theorem overSeeds_eq_ok_iff {α : Type} {fetch : String → Except LookupError α} {seeds : List String}
    {x : α} :
    Node.overSeeds fetch seeds = .ok x ↔ ∃ before seed after, seeds = before ++ seed :: after ∧
      (∀ s ∈ before, fetch s = .error .transient) ∧ fetch seed = .ok x := by
  induction seeds with
  | nil => simp [Node.overSeeds]
  | cons s seeds ih =>
    rw [Node.overSeeds]
    constructor
    · intro h
      split at h
      · next y hy =>
        obtain rfl := Except.ok.inj h
        exact ⟨[], s, seeds, rfl, by simp, hy⟩
      · cases h
      · next htransient =>
        obtain ⟨before, seed, after, rfl, hbefore, hseed⟩ := ih.mp h
        refine ⟨s :: before, seed, after, rfl, ?_, hseed⟩
        intro t ht
        rcases List.mem_cons.mp ht with rfl | ht
        · exact htransient
        · exact hbefore t ht
    · rintro ⟨before, seed, after, heq, hbefore, hseed⟩
      cases before with
      | nil =>
        obtain ⟨rfl, rfl⟩ := List.cons.inj heq
        rw [hseed]
      | cons t before =>
        obtain ⟨rfl, rfl⟩ := List.cons.inj heq
        rw [hbefore s List.mem_cons_self]
        exact ih.mpr ⟨before, seed, after, rfl, fun u hu => hbefore u (List.mem_cons_of_mem s hu),
          hseed⟩

theorem fetchDAR_eq_ok {peer : PeerID} {domain : String} {absent : LookupError}
    {dar : DomainAuthorityRecord} :
    n.fetchDAR rt now peer domain mrec absent = .ok dar ↔
      (∃ data, n.net.clientGetDAR now peer domain = some (some data) ∧
        DomainAuthorityRecord.fromProtoBytes rt data = some dar) ∧ Node.verifyDAR rt dar mrec =
        true := by
  simp only [Node.fetchDAR, need_bind, unit_bind, require_eq_ok, pure_eq_ok]
  constructor
  · rintro ⟨answer, hanswer, data, rfl, dar', hparse, hverified, rfl⟩
    exact ⟨⟨data, hanswer, hparse⟩, hverified⟩
  · rintro ⟨⟨data, hanswer, hparse⟩, hverified⟩
    exact ⟨some data, hanswer, data, rfl, dar, hparse, hverified, rfl⟩

theorem anchoredSeed_iff {seed : String} {peer : PeerID} {dar : DomainAuthorityRecord} :
    AnchoredSeed rt n now a mrec seed peer dar ↔
      n.dial now seed = .ok peer ∧ n.fetchDAR rt now peer (domainOf a) mrec .transient =
      .ok dar := by
  rw [fetchDAR_eq_ok]
  exact ⟨fun h => ⟨h.dialled, h.served, h.anchored⟩, fun h => ⟨h.1, h.2.1, h.2.2⟩⟩

theorem resolveVia_eq_ok {seed : String} : n.resolveVia rt now seed a (domainOf a) mrec = .ok rec ↔
    ∃ peer dar, ServesRecord rt n now a mrec seed peer dar rec := by
  simp only [Node.resolveVia, bind_eq_ok, need_eq_ok]
  constructor
  · rintro ⟨peer, hdial, dar, hdar, answer, hanswer, data, rfl, rec', hparse, h⟩
    split at h
    · next t ht =>
      rw [pure_eq_ok] at h
      subst h
      exact ⟨peer, dar, anchoredSeed_iff.mpr ⟨hdial, hdar⟩, ⟨data, hanswer, hparse⟩, t, ht⟩
    · cases h
  · rintro ⟨peer, dar, hanchor, ⟨data, hanswer, hparse⟩, t, ht⟩
    obtain ⟨hdial, hdar⟩ := anchoredSeed_iff.mp hanchor
    refine ⟨peer, hdial, dar, hdar, some data, hanswer, data, rfl, rec, hparse, ?_⟩
    rw [ht]
    rfl

theorem resolveVia_notFound {seed : String} : n.resolveVia rt now seed a
    (domainOf a) mrec = .error .notFound ↔
    DeniesRecord rt n now a mrec seed := by
  have hdial : n.dial now seed ≠ .error .notFound := by
    simp [Node.dial, bind_eq_error, need_eq_error, require_eq_error, pure, Except.pure]
  have hdar : ∀ peer, n.fetchDAR rt now peer (domainOf a) mrec .transient ≠ .error .notFound := by
    intro peer
    simp [Node.fetchDAR, bind_eq_error, need_eq_error, require_eq_error, pure, Except.pure]
  simp only [Node.resolveVia, bind_eq_error, need_eq_error, hdial, hdar, false_or, reduceCtorEq,
    and_false, and_true]
  constructor
  · rintro ⟨peer, hpeer, dar, hfetched, answer, hanswer, hdenied⟩
    rcases hdenied with rfl | ⟨data, -, rec, hparse, h⟩
    · exact ⟨peer, dar, anchoredSeed_iff.mpr ⟨hpeer, hfetched⟩, need_eq_ok.mp hanswer⟩
    · split at h
      · cases h
      · cases h
  · rintro ⟨peer, dar, hanchor, hdenied⟩
    obtain ⟨hpeer, hfetched⟩ := anchoredSeed_iff.mp hanchor
    exact ⟨peer, hpeer, dar, hfetched, none, need_eq_ok.mpr hdenied, .inl rfl⟩

theorem overSeeds_resolveVia {seeds : List String} :
    Node.overSeeds (fun seed => n.resolveVia rt now seed a (domainOf a) mrec) seeds = .ok rec ↔
      DecidedBy rt n now a mrec seeds rec := by
  have hskipped : ∀ seed, n.resolveVia rt now seed a (domainOf a) mrec = .error .transient ↔
      ¬ DeniesRecord rt n now a mrec seed ∧ ∀ peer dar rec, ¬ ServesRecord rt n now a mrec seed peer
        dar rec := by
    intro seed
    rw [transient_iff, Ne, resolveVia_notFound]
    refine and_congr Iff.rfl ?_
    constructor
    · exact fun h peer dar rec hserves => h rec (resolveVia_eq_ok.mpr ⟨peer, dar, hserves⟩)
    · intro h rec hok
      obtain ⟨peer, dar, hserves⟩ := resolveVia_eq_ok.mp hok
      exact h peer dar rec hserves
  rw [overSeeds_eq_ok_iff]
  constructor
  · rintro ⟨before, seed, after, hseeds, hbefore, hseed⟩
    obtain ⟨peer, dar, hserves⟩ := resolveVia_eq_ok.mp hseed
    exact ⟨before, seed, after, peer, dar, hseeds, fun s hs => (hskipped s).mp (hbefore s hs),
      hserves⟩
  · rintro ⟨before, seed, after, peer, dar, hseeds, hbefore, hserves⟩
    exact ⟨before, seed, after, hseeds, fun s hs => (hskipped s).mpr (hbefore s hs),
      resolveVia_eq_ok.mpr ⟨peer, dar, hserves⟩⟩

theorem resolve_eq_ok (heph : isEphemeralAddress a = false) : n.resolve rt now a = .ok rec ↔
    domainOf a ≠ "" ∧
    ∃ mrec seeds, n.dnsDiscover rt now (domainOf a) = .ok (mrec, seeds) ∧
      DecidedBy rt n now a mrec seeds rec := by
  unfold Node.resolve
  by_cases hdomain : domainOf a = ""
  · simp [hdomain]
  · simp only [hdomain, heph, Bool.false_eq_true, if_false, bind_eq_ok, Prod.exists,
      overSeeds_resolveVia, Ne, not_false_eq_true, true_and]

theorem resolve_only_seed {seed : String} {peer : PeerID} {dar : DomainAuthorityRecord}
    (heph : isEphemeralAddress a = false) (hdomain : domainOf a ≠ "")
    (hdns : n.dnsDiscover rt now (domainOf a) = .ok (mrec, [seed]))
    (hserves : ServesRecord rt n now a mrec seed peer dar rec) : n.resolve rt now a = .ok rec := by
  apply (resolve_eq_ok heph).mpr
  exact ⟨hdomain, mrec, [seed], hdns, [], seed, [], peer, dar, rfl, by simp, hserves⟩

theorem Node.dnsDiscover_only_seed {domain seed : String}
    (hrecord : n.resolveDomain rt now domain = .ok mrec) (hfingerprint : mrec.fingerprint ≠ "")
    (hseeds : n.bootstrapSeeds rt now mrec = .ok [seed]) :
    n.dnsDiscover rt now domain = .ok (mrec, [seed]) := by
  unfold Node.dnsDiscover
  simp only [hrecord, hseeds, bind_eq_ok, refuse_eq_ok, pure_eq_ok]
  exact ⟨(), hfingerprint, [seed], rfl, (), by simp, rfl⟩

end Resolution

end Dmcn
