import OpenDmcn.Identity.Chain

/-! Rotation entries and the history of an address (`rotation.go`). An entry carries three nested
signatures: the device's over the transition, the outgoing key's over that, and the incoming
key's over both. -/

namespace Dmcn

open Go Guard

def maxRotationChain : ℕ := 8

def sha256Size : ℕ := 32

inductive RotationError where
  | versionUnset | badAddress | keySize | sameKey | sameMailboxKey | rotatedAtUnset
  | nextRevisionUnset | prevHashSize | noConsent | deviceDidNotAttest | deviceSignatureAlone
  | notAccepted | otherAddress (address : String) | retiresOtherKey | notChained | notLater
  | revisionNotAdvanced | tooLong | handsOverElsewhere | mintsOtherRevision | otherDomain
  | truncated
  deriving DecidableEq

structure RotationEntry where
  version : UInt32
  address : String
  retiredEd25519Public : Bytes
  retiredX25519Public : Fixed 32
  nextEd25519Public : Bytes
  nextX25519Public : Fixed 32
  rotatedAt : Time
  nextRevision : UInt64
  prevSignatureHash : Bytes
  authorizingEd25519Public : Bytes
  deviceCredential : Option Credential
  deviceSignature : Bytes
  signature : Bytes
  nextSignature : Bytes
  deriving DecidableEq

namespace RotationEntry

def toProto (e : RotationEntry) : Pb.RotationEntry where
  version := e.version
  address := e.address
  retiredEd25519PublicKey := e.retiredEd25519Public
  retiredX25519PublicKey := e.retiredX25519Public.val
  nextEd25519PublicKey := e.nextEd25519Public
  nextX25519PublicKey := e.nextX25519Public.val
  rotatedAt := e.rotatedAt.unix
  nextRevision := e.nextRevision
  prevSignatureHash := e.prevSignatureHash
  authorizingEd25519PublicKey := e.authorizingEd25519Public
  deviceCredential := e.deviceCredential.map Credential.toProto
  deviceSignature := e.deviceSignature
  signature := e.signature
  nextSignature := e.nextSignature

def fromProto (pb : Pb.RotationEntry) : Option RotationEntry :=
  if pb.retiredX25519PublicKey.length ≠ 32 then none
  else if pb.nextX25519PublicKey.length ≠ 32 then none
  else some {
    version := pb.version
    address := pb.address
    retiredEd25519Public := pb.retiredEd25519PublicKey
    retiredX25519Public := Fixed.copy 32 pb.retiredX25519PublicKey
    nextEd25519Public := pb.nextEd25519PublicKey
    nextX25519Public := Fixed.copy 32 pb.nextX25519PublicKey
    rotatedAt := Time.ofUnix pb.rotatedAt
    nextRevision := pb.nextRevision
    prevSignatureHash := pb.prevSignatureHash
    authorizingEd25519Public := pb.authorizingEd25519PublicKey
    deviceCredential := pb.deviceCredential.map Credential.fromProto
    deviceSignature := pb.deviceSignature
    signature := pb.signature
    nextSignature := pb.nextSignature }

theorem fromProto_toProto {pb : Pb.RotationEntry} {e : RotationEntry} (h : fromProto pb = some e) :
    fromProto e.toProto = some e := by
  unfold fromProto at h
  split at h
  · cases h
  · split at h
    · cases h
    · cases h
      simp [fromProto, toProto]

def deviceBytes (rt : Runtime) (e : RotationEntry) : Bytes :=
  rt.rotationEntry.marshalDeterministic
    { e.toProto with deviceSignature := [], signature := [], nextSignature := [] }

def consentBytes (rt : Runtime) (e : RotationEntry) : Bytes :=
  rt.rotationEntry.marshalDeterministic { e.toProto with signature := [], nextSignature := [] }

def acceptBytes (rt : Runtime) (e : RotationEntry) : Bytes :=
  rt.rotationEntry.marshalDeterministic { e.toProto with nextSignature := [] }

def checkShape (e : RotationEntry) : Except RotationError Unit := do
  refuse (e.version = 0) .versionUnset
  require (validateAddress e.address) .badAddress
  require (e.retiredEd25519Public.length = Crypto.ed25519PublicKeySize ∧
    e.nextEd25519Public.length = Crypto.ed25519PublicKeySize ∧
    e.authorizingEd25519Public.length = Crypto.ed25519PublicKeySize) .keySize
  refuse (e.retiredEd25519Public = e.nextEd25519Public) .sameKey
  refuse (e.retiredX25519Public = e.nextX25519Public) .sameMailboxKey
  refuse e.rotatedAt.isZero .rotatedAtUnset
  refuse (e.nextRevision = 0) .nextRevisionUnset
  refuse (e.prevSignatureHash.length ≠ 0 ∧ e.prevSignatureHash.length ≠ sha256Size) .prevHashSize

def checkDevice (rt : Runtime) (e : RotationEntry) : Except RotationError Unit :=
  match e.deviceCredential with
  | some cred =>
    require (verifyCtx rt cred.subject .identityRotationDevice (e.deviceBytes rt) e.deviceSignature)
      .deviceDidNotAttest
  | none => require e.deviceSignature.isEmpty .deviceSignatureAlone

def verify (rt : Runtime) (e : RotationEntry) : Except RotationError Unit := do
  e.checkShape
  require (verifyCtx rt e.authorizingEd25519Public .identityRotation (e.consentBytes rt)
    e.signature)
    .noConsent
  e.checkDevice rt
  require (verifyCtx rt e.nextEd25519Public .identityRotationAccept (e.acceptBytes rt)
    e.nextSignature) .notAccepted

theorem verify_signatures {rt : Runtime} {e : RotationEntry} (h : e.verify rt = .ok ()) :
    verifyCtx rt e.authorizingEd25519Public .identityRotation (e.consentBytes rt) e.signature =
      true ∧
    verifyCtx rt e.nextEd25519Public .identityRotationAccept (e.acceptBytes rt) e.nextSignature =
      true ∧
    ∀ cred, e.deviceCredential = some cred →
      verifyCtx rt cred.subject .identityRotationDevice (e.deviceBytes rt) e.deviceSignature =
      true := by
  simp only [verify, unit_bind, require_eq_ok] at h
  obtain ⟨-, hconsent, hdevice, haccept⟩ := h
  refine ⟨hconsent, haccept, ?_⟩
  intro cred hcred
  rw [checkDevice, hcred, require_eq_ok] at hdevice
  exact hdevice

def continues (rt : Runtime) (e prev : RotationEntry) : Except RotationError Unit := do
  require (e.retiredEd25519Public = prev.nextEd25519Public ∧
    e.retiredX25519Public = prev.nextX25519Public) .retiresOtherKey
  require (e.prevSignatureHash = rt.sha256 prev.signature) .notChained
  require (e.rotatedAt.after prev.rotatedAt) .notLater
  refuse (e.nextRevision ≤ prev.nextRevision) .revisionNotAdvanced

end RotationEntry

def chainTruncated (chain : List RotationEntry) : Bool :=
  match chain with
  | [] => false
  | e :: _ => !e.prevSignatureHash.isEmpty

def verifyLink (rt : Runtime) (address : String) (prev : Option RotationEntry) (e : RotationEntry) :
    Except RotationError Unit := do
  e.verify rt
  require (Strings.equalFold rt.unicode e.address address) (.otherAddress e.address)
  match prev with
  | none => return
  | some prev => e.continues rt prev

def verifyLinksAfter (rt : Runtime) (address : String) :
    Option RotationEntry → List RotationEntry → Except RotationError Unit
  | _, [] => .ok ()
  | prev, e :: rest => do
    verifyLink rt address prev e
    verifyLinksAfter rt address (some e) rest

def verifyChainLinks (rt : Runtime) (chain : List RotationEntry) (address : String) :
    Except RotationError Unit :=
  verifyLinksAfter rt address none chain

theorem verifyLink_entry {rt : Runtime} {address : String} {prev : Option RotationEntry}
    {e : RotationEntry} (h : verifyLink rt address prev e = .ok ()) :
    e.verify rt = .ok () ∧ Strings.equalFold rt.unicode e.address address = true := by
  simp only [verifyLink, unit_bind, require_eq_ok] at h
  exact ⟨h.1, h.2.1⟩

theorem verifyLinksAfter_entry {rt : Runtime} {address : String} {prev : Option RotationEntry}
    {chain : List RotationEntry} (h : verifyLinksAfter rt address prev chain = .ok ()) :
    ∀ e ∈ chain, e.verify rt = .ok () ∧ Strings.equalFold rt.unicode e.address address = true := by
  induction chain generalizing prev with
  | nil => simp
  | cons x xs ih =>
    simp only [verifyLinksAfter, unit_bind] at h
    intro e he
    rcases List.mem_cons.mp he with rfl | he
    · exact verifyLink_entry h.1
    · exact ih h.2 e he

theorem verifyChainLinks_entry {rt : Runtime} {chain : List RotationEntry} {address : String}
    (h : verifyChainLinks rt chain address = .ok ()) :
    ∀ e ∈ chain, e.verify rt = .ok () ∧ Strings.equalFold rt.unicode e.address address = true :=
  verifyLinksAfter_entry h

def rotationChainFromProto (pbs : List Pb.RotationEntry) : Option (List RotationEntry) :=
  pbs.mapM RotationEntry.fromProto

theorem rotationChainFromProto_toProto {pbs : List Pb.RotationEntry} {chain : List RotationEntry}
    (h : rotationChainFromProto pbs = some chain) :
    rotationChainFromProto (chain.map RotationEntry.toProto) = some chain := by
  unfold rotationChainFromProto at h ⊢
  induction pbs generalizing chain with
  | nil =>
    simp only [List.mapM_nil, Option.pure_def, Option.some.injEq] at h
    subst h
    rfl
  | cons pb pbs ih =>
    rw [List.mapM_cons] at h
    obtain ⟨e, he, h⟩ := Option.bind_eq_some_iff.mp h
    obtain ⟨es, hes, h⟩ := Option.bind_eq_some_iff.mp h
    cases h
    rw [List.map_cons, List.mapM_cons, RotationEntry.fromProto_toProto he, ih hes]
    rfl

structure AddressHistoryRecord where
  version : UInt32
  domain : String
  address : String
  chain : List RotationEntry
  deriving DecidableEq

namespace AddressHistoryRecord

def toProto (h : AddressHistoryRecord) : Pb.AddressHistoryRecord where
  version := h.version
  domain := h.domain
  address := h.address
  chain := h.chain.map RotationEntry.toProto

def fromProto (pb : Pb.AddressHistoryRecord) : Option AddressHistoryRecord :=
  (rotationChainFromProto pb.chain).map fun chain => ⟨pb.version, pb.domain, pb.address, chain⟩

theorem fromProto_toProto {pb : Pb.AddressHistoryRecord} {r : AddressHistoryRecord}
    (h : fromProto pb = some r) : fromProto r.toProto = some r := by
  obtain ⟨chain, hchain, rfl⟩ := Option.map_eq_some_iff.mp h
  simp [fromProto, toProto, rotationChainFromProto_toProto hchain]

def verify (rt : Runtime) (h : AddressHistoryRecord) : Except RotationError Unit := do
  require (validateAddress h.address) .badAddress
  require (Strings.equalFold rt.unicode h.domain (domainOf h.address)) .otherDomain
  refuse (chainTruncated h.chain) .truncated
  verifyChainLinks rt h.chain h.address

def sameSignatures : List RotationEntry → List RotationEntry → Bool
  | [], _ => true
  | _ :: _, [] => false
  | a :: as, b :: bs => a.signature == b.signature && sameSignatures as bs

def extends_ (h : AddressHistoryRecord) (prior : Option AddressHistoryRecord) : Bool :=
  match prior with
  | none => !h.chain.isEmpty
  | some prior =>
    if prior.chain.isEmpty then !h.chain.isEmpty
    else if h.chain.length ≤ prior.chain.length then false
    else sameSignatures prior.chain h.chain

def terminal (h : AddressHistoryRecord) : Option RotationEntry := h.chain.getLast?

end AddressHistoryRecord

end Dmcn
