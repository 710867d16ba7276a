import OpenDmcn.Identity.Rotation

/-! Identity records (`identity.go`). The owner signs the core of a record; the relay hints and
the credentials are the operator's and stand outside the self-signature. -/

namespace Dmcn

open Go Guard

abbrev VerificationTier := Int32

def tierUnverified : VerificationTier := 0
def tierDomainDNS : VerificationTier := 2

structure IdentityRecord where
  version : UInt32
  address : String
  ed25519Public : Bytes
  x25519Public : Fixed 32
  createdAt : Time
  expiresAt : Time
  relayHints : List String
  verificationTier : VerificationTier
  requireOnion : Bool
  revision : UInt64
  selfSignature : Fixed 64
  addressCredential : Option Credential
  routingCredential : Option Credential
  operatorCredentials : List Credential
  rotationChain : List RotationEntry
  recoveryEd25519Public : Bytes
  forwardTo : String
  deriving DecidableEq

namespace IdentityRecord

def hasAddressCredential (r : IdentityRecord) : Bool := r.addressCredential.isSome
def hasRoutingCredential (r : IdentityRecord) : Bool := r.routingCredential.isSome

def toProto (r : IdentityRecord) : Pb.IdentityRecord where
  version := r.version
  address := r.address
  ed25519PublicKey := r.ed25519Public
  x25519PublicKey := r.x25519Public.val
  createdAt := r.createdAt.unix
  expiresAt := unixOrZero r.expiresAt
  relayHints := r.relayHints
  verificationTier := r.verificationTier
  selfSignature := r.selfSignature.val
  requireOnion := r.requireOnion
  addressCredential := r.addressCredential.map Credential.toProto
  routingCredential := r.routingCredential.map Credential.toProto
  revision := r.revision
  operatorCredentials := r.operatorCredentials.map Credential.toProto
  rotationChain := r.rotationChain.map RotationEntry.toProto
  recoveryEd25519PublicKey := r.recoveryEd25519Public
  forwardTo := r.forwardTo

def mirrorHints (hints : List String) (routing : Option Credential) : List String :=
  match routing with
  | some c => c.relayHints
  | none => hints

def ofMessage (pb : Pb.IdentityRecord) (chain : List RotationEntry) : IdentityRecord where
  version := pb.version
  address := pb.address
  ed25519Public := pb.ed25519PublicKey
  x25519Public := Fixed.copy 32 pb.x25519PublicKey
  createdAt := Time.ofUnix pb.createdAt
  expiresAt := timeOrZero pb.expiresAt
  relayHints := mirrorHints pb.relayHints (pb.routingCredential.map Credential.fromProto)
  verificationTier := pb.verificationTier
  requireOnion := pb.requireOnion
  revision := pb.revision
  selfSignature := Fixed.copy 64 pb.selfSignature
  addressCredential := pb.addressCredential.map Credential.fromProto
  routingCredential := pb.routingCredential.map Credential.fromProto
  operatorCredentials := pb.operatorCredentials.map Credential.fromProto
  rotationChain := chain
  recoveryEd25519Public := pb.recoveryEd25519PublicKey
  forwardTo := pb.forwardTo

def fromProto (rt : Runtime) (pb : Pb.IdentityRecord) : Option IdentityRecord := do
  guard (pb.recoveryEd25519PublicKey.length = 0 ∨
    pb.recoveryEd25519PublicKey.length = Crypto.ed25519PublicKeySize)
  guard (validateForwardTo rt pb.address pb.forwardTo)
  let chain ← rotationChainFromProto pb.rotationChain
  return ofMessage pb chain

def fromProtoBytes (rt : Runtime) (data : Bytes) : Option IdentityRecord :=
  (rt.identityRecord.unmarshal data).bind (fromProto rt)

theorem mirrorHints_idem (hints : List String) (routing : Option Credential) :
    mirrorHints (mirrorHints hints routing) routing = mirrorHints hints routing := by
  cases routing <;> rfl

theorem fromProto_eq_some {rt : Runtime} {pb : Pb.IdentityRecord} {r : IdentityRecord} :
    fromProto rt pb = some r ↔
      (pb.recoveryEd25519PublicKey.length = 0 ∨ pb.recoveryEd25519PublicKey.length = 32) ∧
      validateForwardTo rt pb.address pb.forwardTo = true ∧
      ∃ chain, rotationChainFromProto pb.rotationChain = some chain ∧ ofMessage pb chain = r := by
  simp only [fromProto, Option.bind_eq_bind, Option.bind_eq_some_iff, Option.guard_eq_some',
    exists_const, Option.pure_def, Option.some.injEq]
  rfl

theorem fromProto_toProto {rt : Runtime} {pb : Pb.IdentityRecord} {r : IdentityRecord}
    (h : fromProto rt pb = some r) : fromProto rt r.toProto = some r := by
  obtain ⟨hrecovery, hforward, chain, hchain, rfl⟩ := fromProto_eq_some.mp h
  have hback := rotationChainFromProto_toProto hchain
  refine fromProto_eq_some.mpr ⟨hrecovery, hforward, chain, hback, ?_⟩
  simp [ofMessage, toProto, unixOrZero_timeOrZero, mirrorHints_idem]

theorem fromProtoBytes_marshal {rt : Runtime} {data : Bytes} {r : IdentityRecord}
    (h : fromProtoBytes rt data = some r) :
    fromProtoBytes rt (rt.identityRecord.marshal r.toProto) = some r := by
  obtain ⟨pb, -, hpb⟩ := Option.bind_eq_some_iff.mp h
  simp [fromProtoBytes, fromProto_toProto hpb]

def core (r : IdentityRecord) : Pb.IdentityRecord :=
  { r.toProto with
    relayHints := [], selfSignature := [], addressCredential := none, routingCredential := none
    operatorCredentials := [] }

def signableBytes (rt : Runtime) (r : IdentityRecord) : Bytes :=
  rt.identityRecord.marshalDeterministic r.core

def verify (rt : Runtime) (r : IdentityRecord) : Bool :=
  verifyCtx rt r.ed25519Public .identitySelf (r.signableBytes rt) r.selfSignature.val

def expired (r : IdentityRecord) (now : Time) : Bool :=
  !r.expiresAt.isZero && !now.before r.expiresAt

def fingerprint (rt : Runtime) (r : IdentityRecord) : String :=
  fingerprintOf rt r.ed25519Public r.x25519Public

theorem verify_congr {rt : Runtime} {r s : IdentityRecord} (hcore : r.core = s.core)
    (hsig : r.selfSignature = s.selfSignature) : r.verify rt = s.verify rt := by
  have hkey : r.ed25519Public = s.ed25519Public := congrArg Pb.IdentityRecord.ed25519PublicKey hcore
  unfold verify signableBytes
  rw [hcore, hsig, hkey]

end IdentityRecord

def verifyRotationChain (rt : Runtime) (rec : IdentityRecord) : Except RotationError Unit :=
  match rec.rotationChain.getLast? with
  | none => .ok ()
  | some last => do
    refuse (rec.rotationChain.length > maxRotationChain) .tooLong
    verifyChainLinks rt rec.rotationChain rec.address
    require (last.nextEd25519Public = rec.ed25519Public ∧ last.nextX25519Public = rec.x25519Public)
      .handsOverElsewhere
    require (last.nextRevision = rec.revision) .mintsOtherRevision

theorem verifyChainLinks_of_verifyRotationChain {rt : Runtime} {rec : IdentityRecord}
    (h : verifyRotationChain rt rec = .ok ()) :
    verifyChainLinks rt rec.rotationChain rec.address = .ok () := by
  unfold verifyRotationChain at h
  cases hlast : rec.rotationChain.getLast? with
  | none =>
    rw [List.getLast?_eq_none_iff.mp hlast]
    rfl
  | some last =>
    simp only [hlast, unit_bind] at h
    exact h.2.1

theorem verifyRotationChain_last {rt : Runtime} {rec : IdentityRecord} {last : RotationEntry}
    (h : verifyRotationChain rt rec = .ok ()) (hlast : rec.rotationChain.getLast? = some last) :
    last.verify rt = .ok () ∧ Strings.equalFold rt.unicode last.address rec.address = true ∧
    last.nextEd25519Public = rec.ed25519Public ∧ last.nextX25519Public = rec.x25519Public ∧
    last.nextRevision = rec.revision := by
  simp only [verifyRotationChain, hlast, unit_bind, require_eq_ok] at h
  obtain ⟨-, hlinks, ⟨hed, hx⟩, hrev⟩ := h
  have hentry := verifyChainLinks_entry hlinks last (List.mem_of_getLast? hlast)
  exact ⟨hentry.1, hentry.2, hed, hx, hrev⟩

end Dmcn
