import OpenDmcn.Lib.Guard
import OpenDmcn.Message.Envelope
import OpenDmcn.Message.Plaintext
import OpenDmcn.Sealing

/-! Opening mail (`encrypt.go`, `split.go`, `sealedblob.go`, and `decryptForBridge` of the bridge).
Whoever knows the public key of a recipient chooses what the authenticated cipher gives them, so
that every step after it meets arbitrary bytes. A panic is an outcome of its own. -/

namespace Dmcn

open Go Guard

inductive OpenError where
  | notSplit | recipientNotFound | unwrap | decryptionFailed | invalidSignature | bodyHashMismatch
  | bodyAddressMismatch
  | empty
  deriving DecidableEq

inductive Fault where
  | error (e : OpenError)
  | panic
  deriving DecidableEq

section Wrap

def kdfV1 : UInt32 := 1

def kdfV2 : UInt32 := 2

def producerKDF : UInt32 := kdfV2

def normalizeKDF (v : UInt32) : UInt32 := if v = 0 then kdfV1 else v

def cekWrapInfoV1 : Bytes := utf8 "dmcn-cek-wrap-v1"

def cekWrapInfoV2 (ephPub rcptPub : Fixed 32) : Bytes :=
  utf8 "dmcn-cek-wrap-v2" ++ ephPub.val ++ rcptPub.val

def cekWrapInfo (kdf : UInt32) (ephPub rcptPub : Fixed 32) : Option Bytes :=
  if normalizeKDF kdf = kdfV1 then some cekWrapInfoV1
  else if normalizeKDF kdf = kdfV2 then some (cekWrapInfoV2 ephPub rcptPub)
  else none

def sealAAD (kdf : UInt32) (label : Bytes) : Bytes := if normalizeKDF kdf = kdfV1 then [] else label

def headerAAD (kdf : UInt32) : Bytes := sealAAD kdf (utf8 "dmcn-aad-hdr-v1" ++ [0])

def bodyAAD (kdf : UInt32) : Bytes := sealAAD kdf (utf8 "dmcn-aad-body-v1" ++ [0])

variable (p : Primitives)

def unwrapCEK (record : RecipientRecord) (recipientPriv recipientPub : Fixed 32) : Option Bytes :=
  do
  if record.ephemeralXPub = .zero 32 then none
  else
    let info ← cekWrapInfo record.kdf record.ephemeralXPub recipientPub
    let shared ← Crypto.x25519SharedSecret p recipientPriv record.ephemeralXPub
    let kwk ← Crypto.deriveKey p shared.val [] info Crypto.aes256KeySize
    Crypto.aesGCMDecrypt p kwk record.cekNonce.val record.wrappedCEK record.cekTag.val

end Wrap

def unpadPayload (padded : Bytes) : Except Fault Bytes := do
  refuse (padded.length < 4) (.error .decryptionFailed)
  let actualLen := readBigEndian32 padded
  refuse (actualLen + 4 > padded.length) (.error .decryptionFailed)
  let stop := (4 + actualLen) % 2 ^ 32
  refuse (stop < 4) .panic
  return (padded.take stop).drop 4

def signedMessageFromProto (pb : Pb.SignedMessage) : Except Fault SignedMessage := do
  let plaintext ← need pb.plaintext .panic
  return ⟨PlaintextMessage.fromProto plaintext, Fixed.copy 64 pb.senderSignature⟩

def messageHeaderFromProto (pb : Option Pb.MessageHeader) : Except Fault MessageHeader := do
  let header ← need pb .panic
  return MessageHeader.fromProto header

def computeBodyContentAddress (rt : Runtime) (nonce ciphertext tag : Bytes) : Bytes :=
  [0x01, 0x55, 0x12, 0x20] ++ rt.sha256 (nonce ++ ciphertext ++ tag)

section Open

variable (rt : Runtime) (p : Primitives) (codecs : MessageCodecs) (env : EncryptedEnvelope)
  (recipientPriv recipientPub : Fixed 32)

def EncryptedEnvelope.recordFor : Option RecipientRecord :=
  env.recipients.find? fun r => r.recipientXPub = recipientPub

def payloadPlaintext : Except OpenError Bytes := do
  let record ← need (env.recordFor recipientPub) .recipientNotFound
  let cek ← need (unwrapCEK p record recipientPriv recipientPub) .decryptionFailed
  need (Crypto.aesGCMDecrypt p cek env.payloadNonce.val env.encryptedPayload env.payloadTag.val)
    .decryptionFailed

def readPayload (padded : Bytes) : Except Fault SignedMessage := do
  let payload ← unpadPayload padded
  let pb ← need (codecs.signedMessage.unmarshal payload) (.error .decryptionFailed)
  let sm ← signedMessageFromProto pb
  require (sm.verify rt codecs = true) (.error .decryptionFailed)
  refuse (env.messageID ≠ .zero 16 ∧ env.messageID ≠ sm.plaintext.messageID)
    (.error .decryptionFailed)
  refuse (env.createdAt ≠ 0 ∧ env.createdAt ≠ sm.plaintext.sentAt.unix) (.error .decryptionFailed)
  return sm

def decrypt : Except Fault SignedMessage := do
  let padded ← wrap .error (payloadPlaintext p env recipientPriv recipientPub)
  readPayload rt codecs env padded

def unwrapFor : Except OpenError (Bytes × UInt32) := do
  let record ← need (env.recordFor recipientPub) .recipientNotFound
  let cek ← need (unwrapCEK p record recipientPriv recipientPub) .unwrap
  return (cek, normalizeKDF record.kdf)

def headerPlaintext : Except OpenError Bytes := do
  require (env.isSplit = true) .notSplit
  let (cek, kdf) ← unwrapFor p env recipientPriv recipientPub
  need (Crypto.aesGCMDecryptAAD p cek env.headerNonce.val env.encryptedHeader env.headerTag.val
    (headerAAD kdf))
    .decryptionFailed

def readHeader (padded : Bytes) : Except Fault SignedHeader := do
  let unpadded ← unpadPayload padded
  let pb ← need (codecs.signedHeader.unmarshal unpadded) (.error .decryptionFailed)
  let header ← messageHeaderFromProto pb.header
  let sh : SignedHeader := ⟨header, Fixed.copy 64 pb.senderSignature⟩
  require (sh.verify rt codecs = true) (.error .invalidSignature)
  return sh

def decryptHeader : Except Fault SignedHeader := do
  let padded ← wrap .error (headerPlaintext p env recipientPriv recipientPub)
  readHeader rt codecs padded

def bodyPlaintext : Except OpenError Bytes := do
  require (env.isSplit = true) .notSplit
  let (cek, kdf) ← unwrapFor p env recipientPriv recipientPub
  need (Crypto.aesGCMDecryptAAD p cek env.bodyNonce.val env.encryptedBody env.bodyTag.val
    (bodyAAD kdf)) .decryptionFailed

def readBody (header : MessageHeader) (padded : Bytes) : Except Fault MessageContent := do
  let unpadded ← unpadPayload padded
  let pb ← need (codecs.messageContent.unmarshal unpadded) (.error .decryptionFailed)
  let content := MessageContent.fromProto pb
  require (content.hash rt codecs = header.bodyHash) (.error .bodyHashMismatch)
  let address := computeBodyContentAddress rt env.bodyNonce.val env.encryptedBody env.bodyTag.val
  refuse (header.bodyContentAddress ≠ [] ∧ address ≠ header.bodyContentAddress)
    (.error .bodyAddressMismatch)
  return content

def decryptBody (header : MessageHeader) : Except Fault MessageContent := do
  let padded ← wrap .error (bodyPlaintext p env recipientPriv recipientPub)
  readBody rt codecs env header padded

end Open

section Sealed

structure SealedRecipient where
  recipientXPub : Bytes
  ephemeralXPub : Bytes
  wrappedCEK : Bytes
  cekNonce : Bytes
  cekTag : Bytes
  kdf : UInt32

structure SealedBlob where
  nonce : Bytes
  ciphertext : Bytes
  tag : Bytes
  recipients : List SealedRecipient

variable (p : Primitives) (b : SealedBlob) (priv pub : Fixed 32)

def tryOpen (sr : SealedRecipient) : Option Bytes := do
  let rr : RecipientRecord :=
    ⟨.zero 16, Fixed.copy 32 sr.recipientXPub, Fixed.copy 32 sr.ephemeralXPub, sr.wrappedCEK,
      Fixed.copy 12 sr.cekNonce, Fixed.copy 16 sr.cekTag, sr.kdf⟩
  let cek ← unwrapCEK p rr priv pub
  Crypto.aesGCMDecrypt p cek b.nonce b.ciphertext b.tag

def asArray (n : ℕ) (src : Bytes) : Except Fault (Fixed n) := do
  refuse (src.length < n) .panic
  return Fixed.copy n src

def SealedRecipient.isFor (sr : SealedRecipient) : Except Fault Bool := do
  if sr.recipientXPub.length ≠ 32 then return false
  else
    let key ← asArray 32 sr.recipientXPub
    return key = pub

def openOwn : List SealedRecipient → Except Fault (Option Bytes)
  | [] => .ok none
  | sr :: srs => do
    if ← sr.isFor pub then
      match tryOpen p b priv pub sr with
      | some pt => return some pt
      | none => openOwn srs
    else openOwn srs

def openSealed : Except Fault Bytes := do
  refuse (b.recipients = []) (.error .empty)
  match ← openOwn p b priv pub b.recipients with
  | some pt => return pt
  | none => need (b.recipients.findSome? (tryOpen p b priv pub)) (.error .decryptionFailed)

end Sealed

end Dmcn
