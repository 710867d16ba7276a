import OpenDmcn.Runtime
import OpenDmcn.Lib.Guard
import OpenDmcn.Lib.Number

/-! Rotation chains as the browser verifies them (`lib/crypto/verifyRotation.ts`), on what it has
decoded. Each message is encoded again for its signatures; the encodings come with it here. -/

namespace Dmcn.Web

open Go Guard

structure Browser where
  verify : Bytes → Bytes → Bytes → Bool
  sha256 : Bytes → Bytes
  toLowerCase : String → String

structure DecodedEntry where
  fields : Pb.RotationEntry
  deviceBytes : Bytes
  consentBytes : Bytes
  acceptBytes : Bytes
  deriving DecidableEq

structure DecodedRecord where
  address : String
  ed25519PublicKey : Bytes
  x25519PublicKey : Bytes
  revision : UInt64
  selfSignature : Bytes
  rotationChain : List DecodedEntry
  signableBytes : Bytes

structure DecodedHistory where
  address : String
  chain : List DecodedEntry

inductive ChainFault where
  | versionUnset | noAddress | keySize | sameKey | sameMailboxKey | rotatedAtUnset
  | nextRevisionUnset | prevHashSize
  | noConsent | deviceDidNotAttest | deviceSignatureAlone | notAccepted | otherAddress
  | retiresOtherKey | notChained
  | notLater | revisionNotAdvanced | tooLong | handsOverElsewhere | mintsOtherRevision
  | otherHistory | truncated
  deriving DecidableEq

namespace VerifyRotation

def maxRotationChain : ℕ := 8

def ed25519Size : ℕ := 32

section Browser

variable (b : Browser)

def verifyCtx (pub : Bytes) (ctx : Ctx) (body signature : Bytes) : Bool :=
  !pub.isEmpty && !signature.isEmpty && b.verify pub (ctx.tag ++ body) signature

def chainTruncated (chain : List DecodedEntry) : Bool :=
  match chain with
  | [] => false
  | e :: _ => !e.fields.prevSignatureHash.isEmpty

def checkShape (e : Pb.RotationEntry) : Except ChainFault Unit := do
  refuse (e.version = 0) .versionUnset
  refuse (e.address = "") .noAddress
  require (e.retiredEd25519PublicKey.length = ed25519Size ∧ e.nextEd25519PublicKey.length =
    ed25519Size ∧ e.authorizingEd25519PublicKey.length = ed25519Size) .keySize
  refuse (e.retiredEd25519PublicKey = e.nextEd25519PublicKey) .sameKey
  refuse (e.retiredX25519PublicKey = e.nextX25519PublicKey) .sameMailboxKey
  refuse (Js.number e.rotatedAt.toInt = 0) .rotatedAtUnset
  refuse (Js.number e.nextRevision.toNat = 0) .nextRevisionUnset
  refuse (e.prevSignatureHash.length ≠ 0 ∧ e.prevSignatureHash.length ≠ 32) .prevHashSize

def checkDevice (e : DecodedEntry) : Except ChainFault Unit :=
  match e.fields.deviceCredential with
  | some cred => require
    (verifyCtx b cred.subject .identityRotationDevice e.deviceBytes e.fields.deviceSignature)
      .deviceDidNotAttest
  | none => require e.fields.deviceSignature.isEmpty .deviceSignatureAlone

def verifyRotationEntry (e : DecodedEntry) : Except ChainFault Unit := do
  checkShape e.fields
  require (verifyCtx b e.fields.authorizingEd25519PublicKey .identityRotation e.consentBytes
    e.fields.signature) .noConsent
  checkDevice b e
  require (verifyCtx b e.fields.nextEd25519PublicKey .identityRotationAccept e.acceptBytes
    e.fields.nextSignature) .notAccepted

def continues (e prev : Pb.RotationEntry) : Except ChainFault Unit := do
  require (e.retiredEd25519PublicKey = prev.nextEd25519PublicKey ∧ e.retiredX25519PublicKey =
    prev.nextX25519PublicKey)
    .retiresOtherKey
  require (e.prevSignatureHash = b.sha256 prev.signature) .notChained
  refuse (Js.number e.rotatedAt.toInt ≤ Js.number prev.rotatedAt.toInt) .notLater
  refuse (Js.number e.nextRevision.toNat ≤ Js.number prev.nextRevision.toNat) .revisionNotAdvanced

def verifyLink (address : String) (prev : Option DecodedEntry) (e : DecodedEntry) :
    Except ChainFault Unit := do
  verifyRotationEntry b e
  require (b.toLowerCase e.fields.address = b.toLowerCase address) .otherAddress
  match prev with
  | none => return
  | some prev => continues b e.fields prev.fields

def verifyLinksAfter (address : String) : Option DecodedEntry → List DecodedEntry →
    Except ChainFault Unit
  | _, [] => .ok ()
  | prev, e :: rest => do
    verifyLink b address prev e
    verifyLinksAfter address (some e) rest

def verifyChainLinks (chain : List DecodedEntry) (address : String) : Except ChainFault Unit :=
  verifyLinksAfter b address none chain

def verifyRecordChain (rec : DecodedRecord) : Except ChainFault Unit :=
  match rec.rotationChain.getLast? with
  | none => .ok ()
  | some last => do
    refuse (rec.rotationChain.length > maxRotationChain) .tooLong
    verifyChainLinks b rec.rotationChain rec.address
    require (last.fields.nextEd25519PublicKey = rec.ed25519PublicKey ∧
      last.fields.nextX25519PublicKey = rec.x25519PublicKey) .handsOverElsewhere
    require (Js.number last.fields.nextRevision.toNat = Js.number rec.revision.toNat)
      .mintsOtherRevision

def verifyHistory (history : DecodedHistory) (address : String) : Except ChainFault Unit := do
  require (b.toLowerCase history.address = b.toLowerCase address) .otherHistory
  refuse (chainTruncated history.chain) .truncated
  verifyChainLinks b history.chain address

def verifySelfSignature (pub signableBytes signature : Bytes) : Bool :=
  pub.length == 32 && signature.length == 64 && b.verify pub (Ctx.identitySelf.tag ++ signableBytes)
    signature

end Browser

variable {b : Browser}

theorem verifyRotationEntry_consent {e : DecodedEntry} (h : verifyRotationEntry b e = .ok ()) :
    b.verify e.fields.authorizingEd25519PublicKey (Ctx.identityRotation.tag ++ e.consentBytes)
      e.fields.signature = true := by
  simp only [verifyRotationEntry, unit_bind, require_eq_ok] at h
  have hconsent := h.2.1
  unfold verifyCtx at hconsent
  rw [Bool.and_eq_true] at hconsent
  exact hconsent.2

theorem verifyLinksAfter_entry {address : String} {prev : Option DecodedEntry}
    {chain : List DecodedEntry} (h : verifyLinksAfter b address prev chain = .ok ()) : ∀ e ∈ chain,
    verifyRotationEntry b e = .ok () := by
  induction chain generalizing prev with
  | nil => exact fun e he => absurd he List.not_mem_nil
  | cons x xs ih =>
    simp only [verifyLinksAfter, unit_bind] at h
    intro e he
    rcases List.mem_cons.mp he with rfl | he
    · have hlink := h.1
      simp only [verifyLink, unit_bind] at hlink
      exact hlink.1
    · exact ih h.2 e he

theorem verifyChainLinks_entry {address : String} {chain : List DecodedEntry}
    (h : verifyChainLinks b chain address = .ok ()) :
    ∀ e ∈ chain, verifyRotationEntry b e = .ok () := verifyLinksAfter_entry h

theorem verifyRecordChain_entry {rec : DecodedRecord} (h : verifyRecordChain b rec = .ok ()) :
    ∀ e ∈ rec.rotationChain, verifyRotationEntry b e = .ok () := by
  intro e he
  unfold verifyRecordChain at h
  split at h
  · next hnone =>
    rw [List.getLast?_eq_none_iff.mp hnone] at he
    exact absurd he List.not_mem_nil
  · simp only [unit_bind] at h
    exact verifyChainLinks_entry h.2.1 e he

end VerifyRotation

end Dmcn.Web
