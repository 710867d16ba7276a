import OpenDmcn.Identity.Verify
import OpenDmcn.Lib.Run

/-! The verification service (`registry.go`). It stores nothing but a short cache of authority
records: every record comes from an injected source, whose answers vary with time. One operation
reads the clock once. -/

namespace Dmcn

open Go Guard

/-- What a source says when it has no record to give: a definite no, or that it cannot know. -/
inductive LookupError where
  | notFound | transient
  deriving DecidableEq

abbrev Answer (α : Type) := Except LookupError (Option α)

structure RecordSource where
  identity : Option (Time → String → Answer IdentityRecord)
  dar : Option (Time → String → Answer DomainAuthorityRecord)
  removal : Option (Time → String → Answer AddressRemovalRecord)
  blocklist : Option (Time → String → Answer CredentialBlockList)

def darCacheTTL : Duration := 30 * Duration.second

structure DarCacheEntry where
  dar : Option DomainAuthorityRecord
  at_ : Time

structure Registry where
  dnsVerify : Time → String → String → Bool
  darCache : String → Option DarCacheEntry
  source : Option RecordSource

inductive AnchorError where
  | noDomainAuthority | darSignature | dnsAnchor | credential (e : CredentialError)
  deriving DecidableEq

inductive RegistryError where
  | selfSignature | expired | routingMismatch | routingHints | routing (e : AnchorError)
  | addressMismatch | address (e : AnchorError) | bindingRemoved
  deriving DecidableEq

inductive PolicyError where
  | pendingCountersign | hintsNotAttested | routingInvalid (e : RegistryError)
  deriving DecidableEq

namespace Registry

def new (dnsVerify : Time → String → String → Bool) (source : Option RecordSource) : Registry :=
  ⟨dnsVerify, fun _ => none, source⟩

def lookup (r : Registry) (now : Time) (address : String) : Answer IdentityRecord :=
  match r.source.bind RecordSource.identity with
  | none => .error .notFound
  | some identity =>
    match identity now address with
    | .error e => .error e
    | .ok none => .ok none
    | .ok (some rec) => if rec.expired now then .error .notFound else .ok (some rec)

def lookupDomainAuthority (r : Registry) (now : Time) (domain : String) :
    Answer DomainAuthorityRecord :=
  match r.source.bind RecordSource.dar with
  | none => .error .notFound
  | some dar => dar now domain

def lookupAddressRemoval (r : Registry) (now : Time) (address : String) :
    Except LookupError AddressRemovalRecord :=
  match r.source.bind RecordSource.removal with
  | none => .error .notFound
  | some removal =>
    match removal now address with
    | .error e => .error e
    | .ok rm => need rm .notFound

def lookupCredentialBlockList (r : Registry) (now : Time) (domain : String) :
    Option CredentialBlockList :=
  match r.source.bind RecordSource.blocklist with
  | none => none
  | some blocklist =>
    match blocklist now domain with
    | .ok bl => bl
    | .error _ => none

def freshEntry (r : Registry) (now : Time) (domain : String) : Option DarCacheEntry :=
  (r.darCache domain).filter fun e => now.sub e.at_ < darCacheTTL

def cachedLookupDAR (r : Registry) (now : Time) (domain : String) :
    Option DomainAuthorityRecord × Registry :=
  match r.freshEntry now domain with
  | some e => (e.dar, r)
  | none =>
    let dar := match r.lookupDomainAuthority now domain with
      | .ok dar => dar
      -- an outage reads as a domain without an authority record, and is remembered as one
      | .error _ => none
    (dar, { r with darCache := Function.update r.darCache domain (some ⟨dar, now⟩) })

variable (rt : Runtime)

def checkAnchored (r : Registry) (now : Time) (cred : Credential)
    (dar : Option DomainAuthorityRecord) : Except AnchorError Unit := do
  let dar ← need dar .noDomainAuthority
  require (dar.verify rt) .darSignature
  require (r.dnsVerify now cred.domain (dar.fingerprint rt)) .dnsAnchor
  wrap .credential
    (Dmcn.verifyCredential rt cred (some dar) (r.lookupCredentialBlockList now cred.domain) now)

def verifyCredential (r : Registry) (now : Time) (cred : Credential) :
    Except AnchorError Unit × Registry :=
  let (dar, r) := r.cachedLookupDAR now cred.domain
  (r.checkAnchored rt now cred dar, r)

def checkRouting (r : Registry) (now : Time) (rec : IdentityRecord) :
    Except RegistryError Unit × Registry :=
  match rec.routingCredential with
  | none => (.ok (), r)
  | some rc =>
    if !rc.matchesRecord (domainOf rec.address) rec roleRouting then (.error .routingMismatch, r)
    else if rec.relayHints ≠ rc.relayHints then (.error .routingHints, r)
    else
      let (verdict, r) := r.verifyCredential rt now rc
      (wrap .routing verdict, r)

def checkRemoval (r : Registry) (now : Time) (rec : IdentityRecord) :
    Except RegistryError Unit × Registry :=
  match r.lookupAddressRemoval now rec.address with
  | .error _ => (.ok (), r)
  | .ok rm =>
    let (dar, r) := r.cachedLookupDAR now (domainOf rec.address)
    let suppresses := dar.elim false (removalIsRootSigned rt · rm) || removalIsOwnerSigned rt rec rm
    (refuse (suppresses && (rm.removed rec.ed25519Public).isSome) .bindingRemoved, r)

def checkAddress (r : Registry) (now : Time) (rec : IdentityRecord) (cred : Credential) :
    Except RegistryError Unit × Registry :=
  if !cred.matchesRecord (domainOf rec.address) rec roleAddress then (.error .addressMismatch, r)
  else
    match r.verifyCredential rt now cred with
    | (.error e, r) => (.error (.address e), r)
    | (.ok (), r) => r.checkRemoval rt now rec

def verifyManagedIdentity (r : Registry) (now : Time) (rec : IdentityRecord) :
    Except RegistryError VerificationTier × Registry :=
  if !rec.verify rt then (.error .selfSignature, r)
  else if rec.expired now then (.error .expired, r)
  else
    match r.checkRouting rt now rec with
    | (.error e, r) => (.error e, r)
    | (.ok (), r) =>
      match rec.addressCredential with
      | none => (.ok rec.verificationTier, r)
      | some cred =>
        match r.checkAddress rt now rec cred with
        | (.error e, r) => (.error e, r)
        | (.ok (), r) => (.ok tierDomainDNS, r)

def addressUsable (r : Registry) (now : Time) (rec : IdentityRecord) :
    Except PolicyError Unit × Registry :=
  match r.cachedLookupDAR now (domainOf rec.address) with
  | (none, r) => (.ok (), r)
  | (some dar, r) =>
    if !dar.requiresCountersign && !dar.reservesLocalPart rt (localPartOf rec.address)
      then (.ok (), r)
    else if !rec.hasAddressCredential then (.error .pendingCountersign, r)
    else
      let (tier, r) := r.verifyManagedIdentity rt now rec
      (match tier with
        | .ok tier => require (tier = tierDomainDNS) .pendingCountersign
        | .error _ => .error .pendingCountersign, r)

def verifyRouting (r : Registry) (now : Time) (rec : IdentityRecord) :
    Except PolicyError Unit × Registry :=
  if rec.relayHints.isEmpty then (.ok (), r)
  else
    match r.cachedLookupDAR now (domainOf rec.address) with
    | (none, r) => (.ok (), r)
    | (some _, r) =>
      if !rec.hasRoutingCredential then (.error .hintsNotAttested, r)
      else
        let (tier, r) := r.verifyManagedIdentity rt now rec
        (match tier with
          | .ok _ => .ok ()
          | .error e => .error (.routingInvalid e), r)

def domainPolicy (r : Registry) (now : Time) (domain : String)
    (bit : DomainAuthorityRecord → Bool) : Bool × Registry :=
  let (dar, r) := r.cachedLookupDAR now domain
  (dar.elim false bit, r)

def requiresOnion (r : Registry) (now : Time) (rec : IdentityRecord) : Bool × Registry :=
  if rec.requireOnion then (true, r)
  else r.domainPolicy now (domainOf rec.address) DomainAuthorityRecord.requiresOnion

def replicatesMailbox (r : Registry) (now : Time) (address : String) : Bool × Registry :=
  r.domainPolicy now (domainOf address) DomainAuthorityRecord.replicatesMailbox

def addressReserved (r : Registry) (now : Time) (address : String) : Bool × Registry :=
  r.domainPolicy now (domainOf address) (·.reservesLocalPart rt (localPartOf address))

inductive Query where
  | credential (cred : Credential) | managedIdentity (rec : IdentityRecord)
  | usable (rec : IdentityRecord) | routing (rec : IdentityRecord) | onion (rec : IdentityRecord)
  | replicates (address : String) | reserved (address : String)

def after (r : Registry) (q : Time × Query) : Registry :=
  match q.2 with
  | .credential cred => (r.verifyCredential rt q.1 cred).2
  | .managedIdentity rec => (r.verifyManagedIdentity rt q.1 rec).2
  | .usable rec => (r.addressUsable rt q.1 rec).2
  | .routing rec => (r.verifyRouting rt q.1 rec).2
  | .onion rec => (r.requiresOnion q.1 rec).2
  | .replicates address => (r.replicatesMailbox q.1 address).2
  | .reserved address => (r.addressReserved rt q.1 address).2

end Registry

end Dmcn
