import OpenDmcn.Identity.Credential

/-! Domain authority records, removal records and fleet rosters (`dar.go`, `fleetroster.go`, and
the root-signature tests of `verify.go`). -/

namespace Dmcn

open Go

def policyRequireCountersign : UInt32 := (1 : UInt32) <<< 0
def policyRequireOnion : UInt32 := (1 : UInt32) <<< 2
def policyReplicateMailbox : UInt32 := (1 : UInt32) <<< 3
def policyAllowKeyRotation : UInt32 := (1 : UInt32) <<< 5

structure AuthorityKey where
  ed25519Public : Bytes
  x25519Public : Fixed 32
  effectiveFrom : Time
  rotationReason : UInt32
  deriving DecidableEq

structure DomainAuthorityRecord where
  version : UInt32
  domain : String
  authorityEd25519 : Bytes
  authorityX25519 : Fixed 32
  authorityEffectiveFrom : Time
  supersededKeys : List AuthorityKey
  policyFlags : UInt32
  createdAt : Time
  revision : UInt64
  selfSignature : Fixed 64
  authorityCredentials : List Credential
  reservedLocalParts : List String
  fleetDomain : String
  rotationMinDeviceAgeDays : UInt32
  deriving DecidableEq

def defaultRotationMinDeviceAge : Duration := 30 * 24 * Duration.hour
def rotationMinDeviceAgeNone : UInt32 := 4294967295

namespace AuthorityKey

def toProto (k : AuthorityKey) : Pb.AuthorityKey where
  ed25519PublicKey := k.ed25519Public
  x25519PublicKey := k.x25519Public.val
  effectiveFrom := k.effectiveFrom.unix
  rotationReason := k.rotationReason

def fromProto (pb : Pb.AuthorityKey) : AuthorityKey where
  ed25519Public := pb.ed25519PublicKey
  x25519Public := Fixed.copy 32 pb.x25519PublicKey
  effectiveFrom := Time.ofUnix pb.effectiveFrom
  rotationReason := pb.rotationReason

@[simp] theorem fromProto_toProto_fromProto (pb : Pb.AuthorityKey) :
    fromProto (fromProto pb).toProto = fromProto pb := by
  simp [fromProto, toProto]

end AuthorityKey

namespace DomainAuthorityRecord

def resolveAuthority (d : DomainAuthorityRecord) (pub : Bytes) : Option Credential :=
  d.authorityCredentials.find? (fun c => c.subject == pub)

def fingerprint (rt : Runtime) (d : DomainAuthorityRecord) : String :=
  fingerprintOf rt d.authorityEd25519 d.authorityX25519

def hasPolicy (d : DomainAuthorityRecord) (bit : UInt32) : Bool := d.policyFlags &&& bit != 0

def requiresCountersign (d : DomainAuthorityRecord) : Bool := d.hasPolicy policyRequireCountersign
def requiresOnion (d : DomainAuthorityRecord) : Bool := d.hasPolicy policyRequireOnion
def replicatesMailbox (d : DomainAuthorityRecord) : Bool := d.hasPolicy policyReplicateMailbox
def allowKeyRotation (d : DomainAuthorityRecord) : Bool := d.hasPolicy policyAllowKeyRotation

def rotationMinDeviceAge (d : DomainAuthorityRecord) : Duration :=
  if d.rotationMinDeviceAgeDays = 0 then defaultRotationMinDeviceAge
  else if d.rotationMinDeviceAgeDays = rotationMinDeviceAgeNone then 0
  else Int64.ofNat d.rotationMinDeviceAgeDays.toNat * 24 * Duration.hour

def defersToFleet (rt : Runtime) (d : DomainAuthorityRecord) : String × Bool :=
  let f := Strings.toLower rt.unicode (Strings.trimSpace rt.unicode d.fleetDomain)
  (f, f != "")

def reservesLocalPart (rt : Runtime) (d : DomainAuthorityRecord) (localPart : String) : Bool :=
  -- both sides are trimmed and lowered before they are compared
  let lp := Strings.toLower rt.unicode (Strings.trimSpace rt.unicode localPart)
  lp != "" && d.reservedLocalParts.any
    (fun r => Strings.toLower rt.unicode (Strings.trimSpace rt.unicode r) == lp)

theorem reservesLocalPart_nil {rt : Runtime} {d : DomainAuthorityRecord} {localPart : String}
    (h : d.reservedLocalParts = []) : d.reservesLocalPart rt localPart = false := by
  simp [reservesLocalPart, h]

def toProto (d : DomainAuthorityRecord) : Pb.DomainAuthorityRecord where
  version := d.version
  domain := d.domain
  authorityEd25519PublicKey := d.authorityEd25519
  authorityX25519PublicKey := d.authorityX25519.val
  authorityEffectiveFrom := d.authorityEffectiveFrom.unix
  supersededKeys := d.supersededKeys.map AuthorityKey.toProto
  policyFlags := d.policyFlags
  createdAt := d.createdAt.unix
  revision := d.revision
  selfSignature := d.selfSignature.val
  authorityCredentials := d.authorityCredentials.map Credential.toProto
  reservedLocalParts := d.reservedLocalParts
  fleetDomain := d.fleetDomain
  rotationMinDeviceAgeDays := d.rotationMinDeviceAgeDays

def fromProto (pb : Pb.DomainAuthorityRecord) : DomainAuthorityRecord where
  version := pb.version
  domain := pb.domain
  authorityEd25519 := pb.authorityEd25519PublicKey
  authorityX25519 := Fixed.copy 32 pb.authorityX25519PublicKey
  authorityEffectiveFrom := Time.ofUnix pb.authorityEffectiveFrom
  supersededKeys := pb.supersededKeys.map AuthorityKey.fromProto
  policyFlags := pb.policyFlags
  createdAt := Time.ofUnix pb.createdAt
  revision := pb.revision
  selfSignature := Fixed.copy 64 pb.selfSignature
  authorityCredentials := pb.authorityCredentials.map Credential.fromProto
  reservedLocalParts := pb.reservedLocalParts
  fleetDomain := pb.fleetDomain
  rotationMinDeviceAgeDays := pb.rotationMinDeviceAgeDays

@[simp] theorem fromProto_toProto_fromProto (pb : Pb.DomainAuthorityRecord) :
    fromProto (fromProto pb).toProto = fromProto pb := by
  simp [fromProto, toProto]

def fromProtoBytes (rt : Runtime) (data : Bytes) : Option DomainAuthorityRecord :=
  (rt.domainAuthorityRecord.unmarshal data).map fromProto

theorem fromProtoBytes_marshal (rt : Runtime) (pb : Pb.DomainAuthorityRecord) :
    fromProtoBytes rt (rt.domainAuthorityRecord.marshal pb) = some (fromProto pb) := by
  simp [fromProtoBytes]

def signableBytes (rt : Runtime) (d : DomainAuthorityRecord) : Bytes :=
  rt.domainAuthorityRecord.marshalDeterministic { d.toProto with selfSignature := [] }

def verify (rt : Runtime) (d : DomainAuthorityRecord) : Bool :=
  verifyCtx rt d.authorityEd25519 .darSelf (d.signableBytes rt) d.selfSignature.val

def consider (t : Time) (best : Option (Bytes × Time)) (k : Bytes × Time) : Option (Bytes × Time) :=
  if k.2.after t then best
  else
    match best with
    | none => some k
    | some b => if k.2.after b.2 then some k else some b

def timeline (d : DomainAuthorityRecord) : List (Bytes × Time) :=
  d.supersededKeys.map (fun k => (k.ed25519Public, k.effectiveFrom)) ++
    [(d.authorityEd25519, d.authorityEffectiveFrom)]

def rootKeyAt (d : DomainAuthorityRecord) (t : Time) : Option Bytes :=
  (d.timeline.foldl (consider t) none).map Prod.fst

def rootKeys (d : DomainAuthorityRecord) : List Bytes :=
  d.authorityEd25519 :: d.supersededKeys.map AuthorityKey.ed25519Public

theorem foldl_consider_mem {t : Time} {ks : List (Bytes × Time)} {best : Option (Bytes × Time)}
    {k : Bytes × Time} (h : ks.foldl (consider t) best = some k) : best = some k ∨ k ∈ ks := by
  induction ks generalizing best with
  | nil => exact .inl h
  | cons x xs ih =>
    rcases ih h with hx | hmem
    · unfold consider at hx
      split at hx
      · exact .inl hx
      · split at hx
        · exact .inr (by simp [Option.some.inj hx])
        · split at hx
          · exact .inr (by simp [Option.some.inj hx])
          · exact .inl hx
    · exact .inr (List.mem_cons_of_mem _ hmem)

theorem rootKeyAt_mem {d : DomainAuthorityRecord} {t : Time} {pub : Bytes}
    (h : d.rootKeyAt t = some pub) : pub ∈ d.rootKeys := by
  unfold rootKeyAt at h
  obtain ⟨k, hk, rfl⟩ := Option.map_eq_some_iff.mp h
  rcases foldl_consider_mem hk with hnone | hmem
  · cases hnone
  · simp only [timeline, List.mem_append, List.mem_map, List.mem_singleton] at hmem
    rcases hmem with ⟨a, ha, rfl⟩ | rfl
    · exact List.mem_cons_of_mem _ (List.mem_map.mpr ⟨a, ha, rfl⟩)
    · exact List.mem_cons_self ..

end DomainAuthorityRecord

structure RemovedBinding where
  ed25519Public : Bytes
  removedAt : Time
  deriving DecidableEq

structure AddressRemovalRecord where
  version : UInt32
  domain : String
  address : String
  removedBindings : List RemovedBinding
  revision : UInt64
  createdAt : Time
  selfSignature : Fixed 64
  deriving DecidableEq

namespace RemovedBinding

def toProto (b : RemovedBinding) : Pb.RemovedBinding where
  ed25519PublicKey := b.ed25519Public
  removedAt := b.removedAt.unix

def fromProto (pb : Pb.RemovedBinding) : RemovedBinding where
  ed25519Public := pb.ed25519PublicKey
  removedAt := Time.ofUnix pb.removedAt

@[simp] theorem fromProto_toProto_fromProto (pb : Pb.RemovedBinding) :
    fromProto (fromProto pb).toProto = fromProto pb := by
  simp [fromProto, toProto]

end RemovedBinding

namespace AddressRemovalRecord

def new (domain address : String) (at_ : Time) : Option AddressRemovalRecord :=
  if !validateDomain domain then none
  else if !validateAddress address then none
  else some {
    version := 1
    domain := domain
    address := address
    removedBindings := []
    revision := 1
    createdAt := at_
    selfSignature := Fixed.zero 64 }

def toProto (a : AddressRemovalRecord) : Pb.AddressRemovalRecord where
  version := a.version
  domain := a.domain
  address := a.address
  removedBindings := a.removedBindings.map RemovedBinding.toProto
  revision := a.revision
  createdAt := a.createdAt.unix
  selfSignature := a.selfSignature.val

def fromProto (pb : Pb.AddressRemovalRecord) : AddressRemovalRecord where
  version := pb.version
  domain := pb.domain
  address := pb.address
  removedBindings := pb.removedBindings.map RemovedBinding.fromProto
  revision := pb.revision
  createdAt := Time.ofUnix pb.createdAt
  selfSignature := Fixed.copy 64 pb.selfSignature

@[simp] theorem fromProto_toProto_fromProto (pb : Pb.AddressRemovalRecord) :
    fromProto (fromProto pb).toProto = fromProto pb := by
  simp [fromProto, toProto]

def fromProtoBytes (rt : Runtime) (data : Bytes) : Option AddressRemovalRecord :=
  (rt.addressRemovalRecord.unmarshal data).map fromProto

theorem fromProtoBytes_marshal (rt : Runtime) (pb : Pb.AddressRemovalRecord) :
    fromProtoBytes rt (rt.addressRemovalRecord.marshal pb) = some (fromProto pb) := by
  simp [fromProtoBytes]

def signableBytes (rt : Runtime) (a : AddressRemovalRecord) : Bytes :=
  rt.addressRemovalRecord.marshalDeterministic { a.toProto with selfSignature := [] }

def sign (rt : Runtime) (priv : Bytes) (a : AddressRemovalRecord) : AddressRemovalRecord :=
  { a with selfSignature := Fixed.copy 64 (signCtx rt priv .addressRemoval (a.signableBytes rt)) }

def verify (rt : Runtime) (a : AddressRemovalRecord) (rootPub : Bytes) : Bool :=
  verifyCtx rt rootPub .addressRemoval (a.signableBytes rt) a.selfSignature.val

def SignsFor (rt : Runtime) (priv pub : Bytes) : Prop :=
  ∀ message, Crypto.verify rt pub message (rt.ed25519Sign priv message) = true

theorem verify_sign {rt : Runtime} {priv pub : Bytes} (h : SignsFor rt priv pub)
    (a : AddressRemovalRecord) : (a.sign rt priv).verify rt pub = true := by
  have hsig := h (Ctx.addressRemoval.tag ++ a.signableBytes rt)
  have hlen : (signCtx rt priv .addressRemoval (a.signableBytes rt)).length = 64 := by
    simp only [Crypto.verify, Crypto.ed25519SignatureSize, Bool.and_eq_true, beq_iff_eq] at hsig
    exact hsig.1.2
  change Crypto.verify rt pub (Ctx.addressRemoval.tag ++ a.signableBytes rt)
    (Fixed.copy 64 (signCtx rt priv .addressRemoval (a.signableBytes rt))).val = true
  rw [Fixed.val_copy_of_length hlen]
  exact hsig

@[simp] theorem toProto_fromProto_toProto (a : AddressRemovalRecord) :
    (fromProto a.toProto).toProto = a.toProto := by
  simp [fromProto, toProto, RemovedBinding.toProto, RemovedBinding.fromProto, Function.comp_def]

theorem verify_fromProto_toProto {rt : Runtime} (a : AddressRemovalRecord) (pub : Bytes) :
    (fromProto a.toProto).verify rt pub = a.verify rt pub := by
  unfold verify signableBytes
  rw [toProto_fromProto_toProto]
  simp [fromProto, toProto]

def removed (a : AddressRemovalRecord) (ed : Bytes) : Option Time :=
  (a.removedBindings.find? (fun b => b.ed25519Public == ed)).map RemovedBinding.removedAt

def keys (a : AddressRemovalRecord) : List Bytes :=
  a.removedBindings.map RemovedBinding.ed25519Public

theorem keys_fromProto_toProto (a : AddressRemovalRecord) :
    (fromProto a.toProto).keys = a.keys := by
  simp [keys, fromProto, toProto, RemovedBinding.toProto, RemovedBinding.fromProto,
    Function.comp_def]

theorem removed_isSome {a : AddressRemovalRecord} {ed : Bytes} :
    (a.removed ed).isSome = true ↔ ed ∈ a.keys := by
  simp [removed, keys, List.find?_isSome]

end AddressRemovalRecord

structure FleetNode where
  peerID : String
  multiaddrs : List String
  roles : List String
  deriving DecidableEq

structure FleetRoster where
  version : UInt32
  fleetDomain : String
  nodes : List FleetNode
  revision : UInt64
  createdAt : Time
  selfSignature : Fixed 64
  deriving DecidableEq

namespace FleetRoster

def toProto (r : FleetRoster) : Pb.FleetRoster where
  version := r.version
  fleetDomain := r.fleetDomain
  nodes := r.nodes.map fun n => ⟨n.peerID, n.multiaddrs, n.roles⟩
  revision := r.revision
  createdAt := r.createdAt.unix
  selfSignature := r.selfSignature.val

def fromProto (pb : Pb.FleetRoster) : FleetRoster where
  version := pb.version
  fleetDomain := pb.fleetDomain
  nodes := pb.nodes.map fun n => ⟨n.peerId, n.multiaddrs, n.roles⟩
  revision := pb.revision
  createdAt := Time.ofUnix pb.createdAt
  selfSignature := Fixed.copy 64 pb.selfSignature

def fromProtoBytes (rt : Runtime) (data : Bytes) : Option FleetRoster :=
  (rt.fleetRoster.unmarshal data).map fromProto

end FleetRoster

def removalIsRootSigned (rt : Runtime) (dar : DomainAuthorityRecord) (rm : AddressRemovalRecord) :
    Bool :=
  (match dar.rootKeyAt rm.createdAt with
    | some pub => rm.verify rt pub
    | none => false) || dar.rootKeys.any (rm.verify rt)

def blocklistIsRootSigned (rt : Runtime) (dar : DomainAuthorityRecord) (bl : CredentialBlockList) :
    Bool :=
  dar.rootKeys.any (bl.verify rt)

theorem removalIsRootSigned_iff {rt : Runtime} {dar : DomainAuthorityRecord}
    {rm : AddressRemovalRecord} :
    removalIsRootSigned rt dar rm = true ↔ ∃ pub ∈ dar.rootKeys, rm.verify rt pub = true := by
  unfold removalIsRootSigned
  rw [Bool.or_eq_true, List.any_eq_true]
  constructor
  · rintro (h | h)
    · split at h
      · next pub hpub => exact ⟨pub, DomainAuthorityRecord.rootKeyAt_mem hpub, h⟩
      · cases h
    · exact h
  · exact .inr

end Dmcn
