import OpenDmcn.Relay.RecordStore
import OpenDmcn.Lib.Run

/-! Record admission (`acceptrecord.go`, `putrecord.go`, `ratelimit.go`): the one way a pushed
record enters the store of a serving node. -/

namespace Dmcn

open Go Guard

structure RateLimiter where
  maxPerHour : ℕ
  window : Duration
  timestamps : String → List Time

namespace RateLimiter

def newRotationLimiter : RateLimiter := ⟨4, 24 * Duration.hour, fun _ => []⟩

def allow (rl : RateLimiter) (now : Time) (sender : String) : RateLimiter × Bool :=
  let pruned := (rl.timestamps sender).filter fun t => t.after (now.add (-rl.window))
  if pruned.length ≥ rl.maxPerHour then
    ({ rl with timestamps := Function.update rl.timestamps sender pruned }, false)
  else ({ rl with timestamps := Function.update rl.timestamps sender (pruned ++ [now]) }, true)

end RateLimiter

inductive RecordKind where
  | identity | dar | removal | history | blocklist | roster | unknown
  deriving DecidableEq

inductive Refusal where
  | noRecords | unknownKind | parse | selfSignature | expired
  | reservedNeedsCredential | reservedMismatch | reservedCredential (e : CredentialError)
  | rebindNeedsRemoval (e : RebindError) | rebindChainRejected (e : RebindError)
  | tooManyRotations | staleRevision (pushed held : UInt64) | staleOperatorCredential
  | notAcknowledged | conflictingDAR (revision : UInt64) | darNotAnchored
  | removalUnnamed | removalDomain | noAuthority (domain : String) | removalSigner
  | ownerDisplacesRoot | dropsBindings (missing : ℕ)
  | historyUnnamed | historyNoIdentity | historyInvalid (e : RotationError) | historyNotExtended
  | historyDisagrees | blocklistSigner
  deriving DecidableEq

structure Relay where
  records : RecordStore
  rotationLimiter : RateLimiter

structure Push where
  now : Time
  kind : RecordKind
  data : Bytes

/-- `darAnchor`: whether `_dmcn.<domain>` publishes the fingerprint, at a given time. A relay may
be run without one. -/
abbrev DarAnchor := Option (Time → String → String → Bool)

def newest (t : Time) (c : Credential) : Time := if c.issuedAt.after t then c.issuedAt else t

def operatorFieldIssuedAt (rec : IdentityRecord) : Time :=
  (rec.routingCredential.toList ++ rec.operatorCredentials).foldl newest default

def checkReservedLocalPart (rt : Runtime) (rs : RecordStore) (rec : IdentityRecord)
    (dar : Option DomainAuthorityRecord) (now : Time) : Except Refusal Unit :=
  match dar with
  | none => .ok ()
  | some dar =>
    if !dar.reservesLocalPart rt (localPartOf rec.address) then .ok ()
    else do
      let cred ← need rec.addressCredential .reservedNeedsCredential
      require (cred.address = rec.address ∧ cred.hasRole roleAddress ∧
        cred.subject = rec.ed25519Public) .reservedMismatch
      wrap .reservedCredential (verifyCredential rt cred (some dar) (rs.storedBlocklist rt dar) now)

/-- `checkKeyContinuity`: the rebind gate. Only the owner's arm spends the rotation budget; with
no authority record a key change is let through. -/
def checkKeyContinuity (rt : Runtime) (r : Relay) (rec : IdentityRecord)
    (dar : Option DomainAuthorityRecord) (now : Time) : RateLimiter × Except Refusal Unit :=
  match r.records.getIdentity rt rec.address with
  -- genesis: there is nothing to displace
  | none => (r.rotationLimiter, .ok ())
  | some prev =>
    let rm := dar.bind fun dar => r.records.storedRemoval rt dar rec.address
    match authorizeRebind rt (some prev) rec rm dar now with
    | .ok .ownerRotation =>
      let (limiter, allowed) :=
        r.rotationLimiter.allow now (Strings.toLower rt.unicode rec.address)
      (limiter, require allowed .tooManyRotations)
    | .ok _ => (r.rotationLimiter, .ok ())
    -- no authority record: the source warns and lets the change through
    | .error .unverifiable => (r.rotationLimiter, .ok ())
    | .error e =>
      (r.rotationLimiter,
        .error (if rec.rotationChain.isEmpty then .rebindNeedsRemoval e
          else .rebindChainRejected e))

def checkDomainGates (rt : Runtime) (r : Relay) (rec : IdentityRecord) (now : Time) :
    RateLimiter × Except Refusal Unit :=
  -- pairing addresses are exempt from the gates
  if isEphemeralAddress rec.address then (r.rotationLimiter, .ok ())
  else
    let dar := r.records.getDAR rt (domainOf rec.address)
    match checkReservedLocalPart rt r.records rec dar now with
    | .error e => (r.rotationLimiter, .error e)
    | .ok () => checkKeyContinuity rt r rec dar now

def checkRollback (rt : Runtime) (rs : RecordStore) (rec : IdentityRecord) : Except Refusal Unit :=
  match rs.getIdentity rt rec.address with
  | none => .ok ()
  | some existing => do
    refuse (rec.revision < existing.revision) (.staleRevision rec.revision existing.revision)
    refuse (rec.revision = existing.revision ∧
      (operatorFieldIssuedAt rec).before (operatorFieldIssuedAt existing)) .staleOperatorCredential

def openIdentity (rt : Runtime) (now : Time) (data : Bytes) : Except Refusal IdentityRecord := do
  let rec ← need (IdentityRecord.fromProtoBytes rt data) .parse
  require (rec.verify rt) .selfSignature
  refuse (rec.expired now) .expired
  return rec

def acceptIdentity (rt : Runtime) (r : Relay) (now : Time) (data : Bytes) :
    RateLimiter × Except Refusal RecordStore :=
  match openIdentity rt now data with
  | .error e => (r.rotationLimiter, .error e)
  | .ok rec =>
    let (limiter, gate) := checkDomainGates rt r rec now
    (limiter, do
      gate
      checkRollback rt r.records rec
      return r.records.putIdentity rt rec)

def darAcknowledges (dar : DomainAuthorityRecord) (key : Bytes) : Bool :=
  dar.authorityEd25519 == key || dar.supersededKeys.any (fun k => k.ed25519Public == key)

def checkDARSuccession (rt : Runtime) (anchor : DarAnchor) (rs : RecordStore) (now : Time)
    (data : Bytes) (dar : DomainAuthorityRecord) : Except Refusal Unit :=
  match rs.getDAR rt dar.domain with
  | some existing => do
    require (darAcknowledges dar existing.authorityEd25519) .notAcknowledged
    refuse (dar.revision < existing.revision) (.staleRevision dar.revision existing.revision)
    refuse (dar.revision = existing.revision ∧ rs.getDARBytes dar.domain ≠ some data)
      (.conflictingDAR dar.revision)
  | none =>
    match anchor with
    | some anchor => require (anchor now dar.domain (dar.fingerprint rt)) .darNotAnchored
    | none => .ok ()

def acceptDAR (rt : Runtime) (anchor : DarAnchor) (rs : RecordStore) (now : Time) (data : Bytes) :
    Except Refusal RecordStore := do
  let dar ← need (DomainAuthorityRecord.fromProtoBytes rt data) .parse
  require (dar.verify rt) .selfSignature
  checkDARSuccession rt anchor rs now data dar
  return rs.putDAR rt dar

def removalDrops (next prior : AddressRemovalRecord) : ℕ :=
  (prior.removedBindings.filter fun b => (next.removed b.ed25519Public).isNone).length

def ownerSignedBy (rt : Runtime) (rs : RecordStore) (rm : AddressRemovalRecord) : Bool :=
  match rs.getIdentity rt rm.address with
  | none => false
  | some rec => removalIsOwnerSigned rt rec rm

def checkRemovalSuccession (rt : Runtime) (rs : RecordStore) (dar : DomainAuthorityRecord)
    (rm : AddressRemovalRecord) : Except Refusal Unit :=
  match rs.storedRemovalAny rt rm.address with
  | none => .ok ()
  | some existing => do
    refuse (removalIsRootSigned rt dar rm = false ∧ removalIsRootSigned rt dar existing)
      .ownerDisplacesRoot
    refuse (rm.revision < existing.revision) (.staleRevision rm.revision existing.revision)
    require (removalDrops rm existing = 0) (.dropsBindings (removalDrops rm existing))

def acceptRemoval (rt : Runtime) (rs : RecordStore) (data : Bytes) : Except Refusal RecordStore :=
  do
  let rm ← need (AddressRemovalRecord.fromProtoBytes rt data) .parse
  refuse (rm.address = "" ∨ rm.domain = "") .removalUnnamed
  require (Strings.equalFold rt.unicode rm.domain (domainOf rm.address)) .removalDomain
  -- looked up under the record's own spelling of the domain
  let dar ← need (rs.getDAR rt rm.domain) (.noAuthority rm.domain)
  require (removalIsRootSigned rt dar rm ∨ ownerSignedBy rt rs rm) .removalSigner
  checkRemovalSuccession rt rs dar rm
  return rs.putRemoval rt rm

def checkBlocklistSuccession (rt : Runtime) (rs : RecordStore) (dar : DomainAuthorityRecord)
    (bl : CredentialBlockList) : Except Refusal Unit :=
  -- a list held counts only if the authority record vouches for it
  let existing := (rs.getBlocklistBytes bl.domain).bind fun b =>
    if b.isEmpty then none
    else (CredentialBlockList.fromProtoBytes rt b).filter (blocklistIsRootSigned rt dar)
  match existing with
  | some existing =>
    refuse (bl.revision < existing.revision) (.staleRevision bl.revision existing.revision)
  | none => .ok ()

def acceptBlocklist (rt : Runtime) (rs : RecordStore) (data : Bytes) : Except Refusal RecordStore :=
  do
  let bl ← need (CredentialBlockList.fromProtoBytes rt data) .parse
  let dar ← need (rs.getDAR rt bl.domain) (.noAuthority bl.domain)
  require (blocklistIsRootSigned rt dar bl) .blocklistSigner
  checkBlocklistSuccession rt rs dar bl
  return rs.putBlocklist rt bl

def acceptRoster (rt : Runtime) (rs : RecordStore) (data : Bytes) : Except Refusal RecordStore := do
  let roster ← need (FleetRoster.fromProtoBytes rt data) .parse
  return rs.putRoster rt roster

def chainsEqual (a b : List RotationEntry) : Bool :=
  a.map RotationEntry.signature == b.map RotationEntry.signature

def priorHistory (rt : Runtime) (rs : RecordStore) (address : String) :
    Option AddressHistoryRecord :=
  (rs.getHistory rt address).filter fun h => !h.chain.isEmpty

def acceptHistory (rt : Runtime) (rs : RecordStore) (data : Bytes) : Except Refusal RecordStore :=
  do
  let pb ← need (rt.addressHistoryRecord.unmarshal data) .parse
  let rec ← need (AddressHistoryRecord.fromProto pb) .parse
  refuse (rec.address = "" ∨ rec.domain = "") .historyUnnamed
  require (rs.getDAR rt rec.domain).isSome (.noAuthority rec.domain)
  let live ← need (rs.getIdentity rt rec.address) .historyNoIdentity
  wrap .historyInvalid (rec.verify rt)
  let prior := priorHistory rt rs rec.address
  -- an unchanged history is accepted without a write
  if (prior.elim false fun p => chainsEqual p.chain rec.chain) then return rs
  else
    require (prior.elim true fun p => rec.extends_ (some p)) .historyNotExtended
    require (rec.terminal.elim true fun last => last.nextEd25519Public == live.ed25519Public)
      .historyDisagrees
    return rs.putHistory rt rec

def Relay.commit (r : Relay) (result : Except Refusal RecordStore) : Relay × Except Refusal Unit :=
  match result with
  | .ok rs => ({ r with records := rs }, .ok ())
  | .error e => (r, .error e)

def acceptRecord (rt : Runtime) (anchor : DarAnchor) (r : Relay) (p : Push) :
    Relay × Except Refusal Unit :=
  match p.kind with
  | .identity =>
    let (limiter, result) := acceptIdentity rt r p.now p.data
    Relay.commit { r with rotationLimiter := limiter } result
  | .dar => r.commit (acceptDAR rt anchor r.records p.now p.data)
  | .removal => r.commit (acceptRemoval rt r.records p.data)
  | .history => r.commit (acceptHistory rt r.records p.data)
  | .blocklist => r.commit (acceptBlocklist rt r.records p.data)
  | .roster => r.commit (acceptRoster rt r.records p.data)
  | .unknown => (r, .error .unknownKind)

def seedOwnRecords (rt : Runtime) (bundles : List DomainAuthorityRecord) : Relay where
  records := bundles.foldl (RecordStore.putDAR rt) .empty
  rotationLimiter := .newRotationLimiter

def Relay.push (rt : Runtime) (anchor : DarAnchor) (r : Relay) (p : Push) : Relay :=
  (acceptRecord rt anchor r p).1

/-- A state some sequence of pushes leads to, from a store seeded with parsed authority records. -/
def Relay.Reachable (rt : Runtime) (anchor : DarAnchor) (r : Relay) : Prop :=
  ∃ seeds : List Pb.DomainAuthorityRecord, Machine.Reachable (Relay.push rt anchor)
    (seedOwnRecords rt (seeds.map DomainAuthorityRecord.fromProto)) r

end Dmcn
