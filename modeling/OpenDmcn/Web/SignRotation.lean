import OpenDmcn.Identity.Rotate
import OpenDmcn.Web.RotationCeremony
import OpenDmcn.Web.VerifyRotation

/-! A rotation as the browser builds and signs it (`signRotation` of `lib/crypto/rotation.ts`), and
what the Go producer makes of the same record. -/

namespace Dmcn.Web.Rekeying

open Go Guard

structure RecordState where
  version : UInt32
  revision : ℤ
  createdAt : ℤ
  expiresAt : ℤ
  verificationTier : Int32
  requireOnion : Bool
  rotationChain : List Pb.RotationEntry
  recoveryEd25519PublicKey : Bytes
  forwardTo : String

structure RemovalState where
  revision : ℤ
  removedBindings : List (Bytes × ℤ)

structure SiblingInput where
  address : String
  record : RecordState
  priorHistory : List Pb.RotationEntry
  priorRemoval : Option RemovalState

inductive RotationSeverity where
  | routine
  | compromised
  deriving DecidableEq

structure Device where
  publicKey : Bytes
  sign : Bytes → Bytes

structure SigningInputs extends RotationInputs where
  device : Device
  currentRecord : RecordState
  severity : RotationSeverity
  priorRemoval : Option RemovalState
  deviceCredential : Bytes
  priorHistory : List Pb.RotationEntry
  siblings : List SiblingInput

def RecordState.of (pb : Pb.IdentityRecord) : RecordState where
  version := pb.version
  revision := Js.number pb.revision.toNat
  createdAt := Js.number pb.createdAt.toInt
  expiresAt := Js.number pb.expiresAt.toInt
  verificationTier := pb.verificationTier
  requireOnion := pb.requireOnion
  rotationChain := pb.rotationChain
  recoveryEd25519PublicKey := pb.recoveryEd25519PublicKey
  forwardTo := pb.forwardTo

def RemovalState.of (pb : Pb.AddressRemovalRecord) : RemovalState where
  revision := Js.number pb.revision.toNat
  removedBindings :=
    pb.removedBindings.map fun b => (b.ed25519PublicKey, Js.number b.removedAt.toInt)

def domainPart (address : String) : String :=
  match Strings.splitAtSign address with
  | some (_, d) => d
  | none => address

section Encoders

variable (rt : Runtime)

def encodeRotationDeviceBytes (e : Pb.RotationEntry) : Bytes :=
  rt.rotationEntry.marshalDeterministic
    { e with deviceSignature := [], signature := [], nextSignature := [] }

def encodeRotationConsentBytes (e : Pb.RotationEntry) : Bytes :=
  rt.rotationEntry.marshalDeterministic { e with signature := [], nextSignature := [] }

def encodeRotationAcceptBytes (e : Pb.RotationEntry) : Bytes :=
  rt.rotationEntry.marshalDeterministic { e with nextSignature := [] }

def encodeIdentitySignableBytes (rec : Pb.IdentityRecord) : Bytes :=
  rt.identityRecord.marshalDeterministic
    { rec with
      relayHints := [], selfSignature := [], addressCredential := none, routingCredential := none
      operatorCredentials := [] }

def encodeIdentityRecord (rec : Pb.IdentityRecord) : Bytes :=
  rt.identityRecord.marshalDeterministic rec

def encodeRemovalSignableBytes (rm : Pb.AddressRemovalRecord) : Bytes :=
  rt.addressRemovalRecord.marshalDeterministic { rm with selfSignature := [] }

def encodeRemovalRecord (rm : Pb.AddressRemovalRecord) : Bytes :=
  rt.addressRemovalRecord.marshalDeterministic rm

def encodeHistory (address : String) (chain : List Pb.RotationEntry) : Bytes :=
  rt.addressHistoryRecord.marshalDeterministic
    { version := 1, domain := domainPart address, address := address, chain := chain }

end Encoders

def IdentityKeyPair.seed (k : IdentityKeyPair) : Bytes := k.ed25519Private.take 32

section Signing

variable (rt : Runtime) (inputs : SigningInputs) (next : IdentityKeyPair) (rotatedAt : ℤ)

def unsignedEntry (credential : Pb.Credential) (addr : String) (state : RecordState) :
    Pb.RotationEntry where
  version := 1
  address := addr
  retiredEd25519PublicKey := inputs.current.ed25519Public
  retiredX25519PublicKey := inputs.current.x25519Public
  nextEd25519PublicKey := next.ed25519Public
  nextX25519PublicKey := next.x25519Public
  rotatedAt := Int64.ofInt rotatedAt
  nextRevision := UInt64.ofNat (Js.number (state.revision + 1)).toNat
  prevSignatureHash := state.rotationChain.getLast?.elim [] fun last => rt.sha256 last.signature
  authorizingEd25519PublicKey := inputs.current.ed25519Public
  deviceCredential := some credential
  deviceSignature := []
  signature := []
  nextSignature := []

def signEntry (entry : Pb.RotationEntry) : Pb.RotationEntry :=
  let attested := { entry with
    deviceSignature :=
      inputs.device.sign (Ctx.identityRotationDevice.tag ++ encodeRotationDeviceBytes rt entry) }
  let consented := { attested with
    signature := rt.ed25519Sign inputs.current.seed
      (Ctx.identityRotation.tag ++ encodeRotationConsentBytes rt attested) }
  { consented with
    nextSignature := rt.ed25519Sign next.seed
      (Ctx.identityRotationAccept.tag ++ encodeRotationAcceptBytes rt consented) }

def unsignedRecord (addr : String) (state : RecordState) (entry : Pb.RotationEntry) :
    Pb.IdentityRecord where
  version := state.version
  address := addr
  ed25519PublicKey := next.ed25519Public
  x25519PublicKey := next.x25519Public
  createdAt := Int64.ofInt state.createdAt
  expiresAt := Int64.ofInt state.expiresAt
  relayHints := []
  verificationTier := state.verificationTier
  selfSignature := []
  requireOnion := state.requireOnion
  addressCredential := none
  routingCredential := none
  revision := UInt64.ofNat (Js.number (state.revision + 1)).toNat
  operatorCredentials := []
  rotationChain := (state.rotationChain ++ [entry]).rtake VerifyRotation.maxRotationChain
  recoveryEd25519PublicKey := state.recoveryEd25519PublicKey
  forwardTo := state.forwardTo

def signRecord (rec : Pb.IdentityRecord) : Pb.IdentityRecord :=
  { rec with
    selfSignature :=
      rt.ed25519Sign next.seed (Ctx.identitySelf.tag ++ encodeIdentitySignableBytes rt rec) }

def rekey (credential : Pb.Credential) (addr : String) (state : RecordState) :
    Pb.RotationEntry × Bytes :=
  let entry :=
    signEntry rt inputs next (unsignedEntry rt inputs next rotatedAt credential addr state)
  (entry, encodeIdentityRecord rt (signRecord rt next (unsignedRecord next addr state entry)))

def unsignedRemoval (address : String) (prior : Option RemovalState) (retired : Bytes) :
    Pb.AddressRemovalRecord where
  version := 1
  domain := domainPart address
  address := address
  removedBindings :=
    ((prior.map RemovalState.removedBindings).getD [] ++ [(retired, rotatedAt)]).map fun b =>
    ⟨b.1, Int64.ofInt b.2⟩
  revision := UInt64.ofNat (Js.number ((prior.map RemovalState.revision).getD 0 + 1)).toNat
  createdAt := Int64.ofInt rotatedAt
  selfSignature := []

def signRemoval (rm : Pb.AddressRemovalRecord) : Pb.AddressRemovalRecord :=
  { rm with
    selfSignature :=
      rt.ed25519Sign next.seed (Ctx.addressRemoval.tag ++ encodeRemovalSignableBytes rt rm) }

def signCompromise (address : String) (prior : Option RemovalState) (retired : Bytes) :
    Option Bytes :=
  if ((prior.map RemovalState.removedBindings).getD []).any fun b => b.1 == retired then none
  else some (encodeRemovalRecord rt
    (signRemoval rt next (unsignedRemoval rotatedAt address prior retired)))

def SigningInputs.all : List SiblingInput :=
  ⟨inputs.address, inputs.currentRecord, inputs.priorHistory, inputs.priorRemoval⟩ ::
    inputs.siblings

def rekeyed (credential : Pb.Credential) (sib : SiblingInput) : RotatedSibling :=
  let done := rekey rt inputs next rotatedAt credential sib.address sib.record
  ⟨sib.address, done.2, encodeHistory rt sib.address (sib.priorHistory ++ [done.1])⟩

def declarations : List CompromiseDeclaration :=
  match inputs.severity with
  | .routine => []
  | .compromised => inputs.all.filterMap fun sib =>
    (signCompromise rt next rotatedAt sib.address sib.priorRemoval inputs.current.ed25519Public).map
      (CompromiseDeclaration.mk sib.address)

def signRotation : Option RotatedRecord := do
  guard (inputs.deviceCredential ≠ [])
  let credential ← rt.credential.unmarshal inputs.deviceCredential
  let own := rekeyed rt inputs next rotatedAt credential
    ⟨inputs.address, inputs.currentRecord, inputs.priorHistory, inputs.priorRemoval⟩
  return {
    next := next
    record := own.record
    history := own.history
    siblings := inputs.siblings.map (rekeyed rt inputs next rotatedAt credential)
    compromise := declarations rt inputs next rotatedAt
    rotatedAt := rotatedAt }

end Signing

theorem domainPart_eq {address : String} (h : validateAddress address = true) :
    domainPart address = domainOf address ∧ domainOf address ≠ "" := by
  unfold validateAddress at h
  unfold domainPart domainOf
  cases hsplit : Strings.splitAtSign address with
  | none =>
    rw [hsplit] at h
    cases h
  | some parts =>
    rw [hsplit] at h
    dsimp only at h
    rw [Bool.and_eq_true] at h
    exact ⟨rfl, bne_iff_ne.mp h.2⟩

end Dmcn.Web.Rekeying
