import OpenDmcn.Lib.Bytes

/-! The messages of `proto/identity.proto` that the identity, relay and node packages read and
write. Field 9 of `IdentityRecord` (attestations) is read by nothing and left out. -/

namespace Dmcn.Pb

open Go

structure Credential where
  version : UInt32
  subject : Bytes
  domain : String
  address : String
  roles : List String
  grants : List String
  attributes : List (String × String)
  issuedAt : Int64
  notAfter : Int64
  scope : String
  issuerPub : Bytes
  signature : Bytes
  relayHints : List String
  effectiveFrom : Int64
  deriving DecidableEq, Inhabited

structure RotationEntry where
  version : UInt32
  address : String
  retiredEd25519PublicKey : Bytes
  retiredX25519PublicKey : Bytes
  nextEd25519PublicKey : Bytes
  nextX25519PublicKey : Bytes
  rotatedAt : Int64
  nextRevision : UInt64
  prevSignatureHash : Bytes
  authorizingEd25519PublicKey : Bytes
  deviceCredential : Option Credential
  deviceSignature : Bytes
  signature : Bytes
  nextSignature : Bytes
  deriving DecidableEq, Inhabited

structure IdentityRecord where
  version : UInt32
  address : String
  ed25519PublicKey : Bytes
  x25519PublicKey : Bytes
  createdAt : Int64
  expiresAt : Int64
  relayHints : List String
  verificationTier : Int32
  selfSignature : Bytes
  requireOnion : Bool
  addressCredential : Option Credential
  routingCredential : Option Credential
  revision : UInt64
  operatorCredentials : List Credential
  rotationChain : List RotationEntry
  recoveryEd25519PublicKey : Bytes
  forwardTo : String
  deriving DecidableEq, Inhabited

structure AuthorityKey where
  ed25519PublicKey : Bytes
  x25519PublicKey : Bytes
  effectiveFrom : Int64
  rotationReason : UInt32
  deriving DecidableEq, Inhabited

structure DomainAuthorityRecord where
  version : UInt32
  domain : String
  authorityEd25519PublicKey : Bytes
  authorityX25519PublicKey : Bytes
  authorityEffectiveFrom : Int64
  supersededKeys : List AuthorityKey
  policyFlags : UInt32
  createdAt : Int64
  revision : UInt64
  selfSignature : Bytes
  authorityCredentials : List Credential
  reservedLocalParts : List String
  fleetDomain : String
  rotationMinDeviceAgeDays : UInt32
  deriving DecidableEq, Inhabited

structure RemovedBinding where
  ed25519PublicKey : Bytes
  removedAt : Int64
  deriving DecidableEq, Inhabited

structure AddressRemovalRecord where
  version : UInt32
  domain : String
  address : String
  removedBindings : List RemovedBinding
  revision : UInt64
  createdAt : Int64
  selfSignature : Bytes
  deriving DecidableEq, Inhabited

structure AddressHistoryRecord where
  version : UInt32
  domain : String
  address : String
  chain : List RotationEntry
  deriving DecidableEq, Inhabited

structure CredentialBlock where
  pubkey : Bytes
  effectiveFrom : Int64
  compromised : Bool
  compromisedSince : Int64
  createdAt : Int64
  deriving DecidableEq, Inhabited

structure CredentialBlockList where
  domain : String
  blocks : List CredentialBlock
  revision : UInt64
  signature : Bytes
  deriving DecidableEq, Inhabited

structure FleetNode where
  peerId : String
  multiaddrs : List String
  roles : List String
  deriving DecidableEq, Inhabited

structure FleetRoster where
  version : UInt32
  fleetDomain : String
  nodes : List FleetNode
  revision : UInt64
  createdAt : Int64
  selfSignature : Bytes
  deriving DecidableEq, Inhabited

deriving instance Countable for Credential
deriving instance Countable for RotationEntry
deriving instance Countable for IdentityRecord
deriving instance Countable for AuthorityKey
deriving instance Countable for DomainAuthorityRecord
deriving instance Countable for RemovedBinding
deriving instance Countable for AddressRemovalRecord
deriving instance Countable for AddressHistoryRecord
deriving instance Countable for CredentialBlock
deriving instance Countable for CredentialBlockList
deriving instance Countable for FleetNode
deriving instance Countable for FleetRoster

end Dmcn.Pb
