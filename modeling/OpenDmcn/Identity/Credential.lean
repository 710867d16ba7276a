import OpenDmcn.Identity.Address

/-! Credentials and blocklists (`credential.go`, `credentialblock.go`): the records, their wire
forms and their signatures. Chain verification needs the domain's authority record and stands in
`Identity.Chain`. -/

namespace Dmcn

open Go

def roleAuthority : String := "authority"
def roleSubAuthority : String := "sub-authority"
def roleNode : String := "node"
def roleBridge : String := "bridge"
def roleClient : String := "client"
def roleAddress : String := "address"
def roleRouting : String := "routing"
def roleDevice : String := "device"
def grantDelegate : String := "grant"

def rootGrants : List String :=
  [roleNode, roleBridge, roleClient, roleAddress, roleRouting, roleDevice, grantDelegate]

def credSkew : Duration := 2 * Duration.minute

structure Credential where
  version : UInt32
  subject : Bytes
  domain : String
  address : String
  roles : List String
  grants : List String
  attributes : List (String × String)
  issuedAt : Time
  notAfter : Time
  effectiveFrom : Time
  scope : String
  issuerPub : Bytes
  signature : Bytes
  relayHints : List String
  deriving DecidableEq, Inhabited

namespace Credential

def hasRole (c : Credential) (r : String) : Bool := Strings.contains c.roles r

def toProto (c : Credential) : Pb.Credential where
  version := c.version
  subject := c.subject
  domain := c.domain
  address := c.address
  roles := c.roles
  grants := c.grants
  attributes := c.attributes
  issuedAt := c.issuedAt.unix
  notAfter := unixOrZero c.notAfter
  scope := c.scope
  issuerPub := c.issuerPub
  signature := c.signature
  relayHints := c.relayHints
  effectiveFrom := unixOrZero c.effectiveFrom

def fromProto (pb : Pb.Credential) : Credential where
  version := pb.version
  subject := pb.subject
  domain := pb.domain
  address := pb.address
  roles := pb.roles
  grants := pb.grants
  attributes := pb.attributes
  issuedAt := Time.ofUnix pb.issuedAt
  notAfter := timeOrZero pb.notAfter
  effectiveFrom := timeOrZero pb.effectiveFrom
  scope := pb.scope
  issuerPub := pb.issuerPub
  signature := pb.signature
  relayHints := pb.relayHints

@[simp] theorem fromProto_toProto_fromProto (pb : Pb.Credential) :
    fromProto (fromProto pb).toProto = fromProto pb := by
  simp [fromProto, toProto, unixOrZero_timeOrZero]

@[simp] theorem fromProto_comp_toProto_comp : fromProto ∘ toProto ∘ fromProto = fromProto := by
  funext pb
  exact fromProto_toProto_fromProto pb

def signableBytes (rt : Runtime) (c : Credential) : Bytes :=
  rt.credential.marshalDeterministic { c.toProto with signature := [] }

def verifySignature (rt : Runtime) (c : Credential) : Bool :=
  c.issuerPub.length == Crypto.ed25519PublicKeySize &&
    verifyCtx rt c.issuerPub .credential (c.signableBytes rt) c.signature

end Credential

structure CredentialBlock where
  pubkey : Bytes
  effectiveFrom : Time
  compromised : Bool
  compromisedSince : Time
  createdAt : Time
  deriving DecidableEq

structure CredentialBlockList where
  domain : String
  blocks : List CredentialBlock
  revision : UInt64
  signature : Fixed 64
  deriving DecidableEq

namespace CredentialBlock

def toProto (b : CredentialBlock) : Pb.CredentialBlock where
  pubkey := b.pubkey
  effectiveFrom := b.effectiveFrom.unix
  compromised := b.compromised
  compromisedSince := unixOrZero b.compromisedSince
  createdAt := b.createdAt.unix

def fromProto (pb : Pb.CredentialBlock) : CredentialBlock where
  pubkey := pb.pubkey
  effectiveFrom := Time.ofUnix pb.effectiveFrom
  compromised := pb.compromised
  compromisedSince := timeOrZero pb.compromisedSince
  createdAt := Time.ofUnix pb.createdAt

@[simp] theorem fromProto_toProto_fromProto (pb : Pb.CredentialBlock) :
    fromProto (fromProto pb).toProto = fromProto pb := by
  simp [fromProto, toProto, unixOrZero_timeOrZero]

def blocks (b : CredentialBlock) (issuedAt : Time) : Bool :=
  if b.compromised then
    if b.compromisedSince.isZero then true else !issuedAt.before b.compromisedSince
  else !issuedAt.before b.effectiveFrom

end CredentialBlock

namespace CredentialBlockList

def blockedIn (blocks : List CredentialBlock) (pub : Bytes) (issuedAt : Time) : Bool :=
  match blocks with
  | [] => false
  | b :: rest => if b.pubkey == pub then b.blocks issuedAt else blockedIn rest pub issuedAt

def toProto (l : CredentialBlockList) : Pb.CredentialBlockList where
  domain := l.domain
  blocks := l.blocks.map CredentialBlock.toProto
  revision := l.revision
  signature := l.signature.val

def fromProto (pb : Pb.CredentialBlockList) : CredentialBlockList where
  domain := pb.domain
  blocks := pb.blocks.map CredentialBlock.fromProto
  revision := pb.revision
  signature := Fixed.copy 64 pb.signature

@[simp] theorem fromProto_toProto_fromProto (pb : Pb.CredentialBlockList) :
    fromProto (fromProto pb).toProto = fromProto pb := by
  simp [fromProto, toProto]

def fromProtoBytes (rt : Runtime) (data : Bytes) : Option CredentialBlockList :=
  (rt.credentialBlockList.unmarshal data).map fromProto

def signableBytes (rt : Runtime) (l : CredentialBlockList) : Bytes :=
  rt.credentialBlockList.marshalDeterministic { l.toProto with signature := [] }

def verify (rt : Runtime) (l : CredentialBlockList) (rootPub : Bytes) : Bool :=
  verifyCtx rt rootPub .keyCompromise (l.signableBytes rt) l.signature.val

end CredentialBlockList

def blocked (l : Option CredentialBlockList) (pub : Bytes) (issuedAt : Time) : Bool :=
  match l with
  | none => false
  | some l => if pub.isEmpty then false else CredentialBlockList.blockedIn l.blocks pub issuedAt

end Dmcn
