import OpenDmcn.Message.DisplayName
import OpenDmcn.Message.Open

/-! Sealing mail (`encrypt.go`, `split.go`): a content key wrapped for each recipient, and a message
under it, in one piece or split. The random bytes that are drawn are inputs; a seal that returns an
error or panics has no result. -/

namespace Dmcn

open Go

structure RecipientInfo where
  deviceID : Fixed 16
  x25519Pub : Fixed 32
  deriving DecidableEq

/-- What is drawn for one message: the content key and the nonces, and for each recipient an
ephemeral key and a nonce. -/
structure Draws where
  cek : Fixed 32
  payloadNonce : Fixed 12
  headerNonce : Fixed 12
  bodyNonce : Fixed 12
  ephemeral : ℕ → Fixed 32
  wrapNonce : ℕ → Fixed 12

section Wrap

variable (p : Primitives)

def wrapCEK (cek : Bytes) (recipient : RecipientInfo) (ephPriv : Fixed 32) (nonce : Fixed 12) :
    Option RecipientRecord := do
  if recipient.x25519Pub = .zero 32 then none
  else
    let ephPub ← Crypto.x25519PublicFromPrivate p ephPriv
    let shared ← Crypto.x25519SharedSecret p ephPriv recipient.x25519Pub
    let info ← cekWrapInfo producerKDF ephPub recipient.x25519Pub
    let kwk ← Crypto.deriveKey p shared.val [] info Crypto.aes256KeySize
    let (ciphertext, tag) ← Crypto.aesGCMEncrypt p kwk nonce cek
    return ⟨recipient.deviceID, recipient.x25519Pub, ephPub, ciphertext, nonce, Fixed.copy 16 tag,
      producerKDF⟩

def wrapFrom (draws : Draws) : ℕ → List RecipientInfo → Option (List RecipientRecord)
  | _, [] => some []
  | i, r :: rs => do
    let record ← wrapCEK p draws.cek.val r (draws.ephemeral i) (draws.wrapNonce i)
    let records ← wrapFrom draws (i + 1) rs
    return record :: records

end Wrap

section Padding

def sizeClasses : List UInt32 := [1024, 4 * 1024, 16 * 1024, 64 * 1024, 256 * 1024, 1024 * 1024]

def selectSizeClass (payloadSize : UInt32) : UInt32 :=
  let needed := payloadSize + 4
  match sizeClasses.find? (needed ≤ ·) with
  | some sc => sc
  | none =>
    let mb := 1024 * 1024
    ((needed + mb - 1) / mb) * mb

def padPayload (payload : Bytes) (targetSize : UInt32) : Option Bytes :=
  if targetSize < 4 then none
  else
    let filled := bigEndian32 payload.length ++ payload
    some ((filled ++ List.replicate (targetSize.toNat - filled.length) 0).take targetSize.toNat)

end Padding

section Seal

variable (rt : Runtime) (p : Primitives) (codecs : MessageCodecs)

def sealPayload (draws : Draws) (messageID : Fixed 16) (createdAt : Int64) (sizeClass : UInt32)
    (padded : Bytes) (recipients : List RecipientInfo) : Option EncryptedEnvelope := do
  let (ciphertext, tag) ← Crypto.aesGCMEncrypt p draws.cek.val draws.payloadNonce padded
  let records ← wrapFrom p draws 0 recipients
  return {
    version := 1, messageID := messageID, recipients := records
    encryptedPayload := ciphertext, payloadNonce := draws.payloadNonce, payloadTag :=
      Fixed.copy 16 tag
    payloadSizeClass := sizeClass, createdAt := createdAt, ratchetPubKey := .zero 32
    encryptedHeader := [], headerNonce := .zero 12, headerTag := .zero 16, headerSizeClass := 0
    encryptedBody := [], bodyNonce := .zero 12, bodyTag := .zero 16, bodySizeClass :=
      0, bodyContentAddress := [] }

end Seal

section Split

def snippetMax : ℕ := 140

def snippetOf (body : MessageBody) : String :=
  let s := body.content.take snippetMax
  if body.contentType ≠ "text/plain" then "" else ofUtf8 (DisplayName.dropPartial s.length s)

def verifySnippet (h : MessageHeader) (content : MessageContent) : Bool :=
  h.snippet = snippetOf content.body

variable (rt : Runtime) (p : Primitives) (codecs : MessageCodecs)

def ed25519SeedAndKeySize : ℕ := 64

def split (msg : PlaintextMessage) (senderPriv : Bytes) : Option (SignedHeader × MessageContent) :=
  let content : MessageContent := ⟨msg.body, msg.attachments, msg.alternatives⟩
  let header : MessageHeader :=
    { version := msg.version, messageID := msg.messageID, threadID := msg.threadID, senderAddress :=
      msg.senderAddress
      senderPublicKey := msg.senderPublicKey, recipientAddress := msg.recipientAddress, sentAt :=
        msg.sentAt
      subject := msg.subject, attachmentCount := UInt32.ofNat msg.attachments.length
      bodySize := UInt64.ofNat msg.body.content.length, snippet := snippetOf msg.body, replyToID :=
        msg.replyToID
      bodyHash := content.hash rt codecs, bodyContentAddress := [], toAddrs := [], cc := [], bcc :=
        []
      senderDisplay := ofUtf8 (DisplayName.sanitizeDisplayName (utf8 msg.senderDisplay)) }
  if senderPriv.length ≠ ed25519SeedAndKeySize then none
  else some (SignedHeader.sign rt codecs ⟨header, .zero 64⟩ senderPriv, content)

def padded (b : Bytes) : Option (Bytes × UInt32) :=
  let sizeClass := selectSizeClass (UInt32.ofNat b.length)
  (padPayload b sizeClass).map fun padded => (padded, sizeClass)

def SignedHeader.address (sh : SignedHeader) (addr senderPriv : Bytes) : SignedHeader :=
  SignedHeader.sign rt codecs { sh with header := { sh.header with bodyContentAddress := addr } }
    senderPriv

def encryptSplit (draws : Draws) (sh : SignedHeader) (content : MessageContent)
    (recipients : List RecipientInfo) (senderPriv : Bytes) : Option EncryptedEnvelope := do
  if recipients = [] then none
  else
    let (paddedBody, bClass) ← padded (codecs.messageContent.marshalDeterministic content.toProto)
    let (bCT, bTag) ← Crypto.aesGCMEncryptAAD p draws.cek.val draws.bodyNonce paddedBody
        (bodyAAD producerKDF)
    let addr := computeBodyContentAddress rt draws.bodyNonce.val bCT bTag
    if senderPriv.length ≠ ed25519SeedAndKeySize then none
    else
      let sh := sh.address rt codecs addr senderPriv
      let headerBytes :=
        codecs.signedHeader.marshalDeterministic ⟨some sh.header.toProto, sh.senderSignature.val⟩
      let (paddedHeader, hClass) ← padded headerBytes
      let (hCT, hTag) ← Crypto.aesGCMEncryptAAD p draws.cek.val draws.headerNonce paddedHeader
          (headerAAD producerKDF)
      let records ← wrapFrom p draws 0 recipients
      return {
        version := 2, messageID := sh.header.messageID, recipients := records
        encryptedPayload := [], payloadNonce := .zero 12, payloadTag :=
          .zero 16, payloadSizeClass := 0
        createdAt := sh.header.sentAt.unix, ratchetPubKey := .zero 32
        encryptedHeader := hCT, headerNonce := draws.headerNonce, headerTag :=
          Fixed.copy 16 hTag, headerSizeClass := hClass
        encryptedBody := bCT, bodyNonce := draws.bodyNonce, bodyTag :=
          Fixed.copy 16 bTag, bodySizeClass := bClass
        bodyContentAddress := addr }

end Split

section Unwrap

variable {p : Primitives} {priv pub : Fixed 32}

theorem unwrapCEK_wrapCEK (hp : p.Lawful) {cek : Bytes} {recipient : RecipientInfo}
    {ephPriv : Fixed 32} {nonce : Fixed 12} {record : RecipientRecord}
    (hpub : Crypto.x25519PublicFromPrivate p priv = some recipient.x25519Pub)
    (hwrap : wrapCEK p cek recipient ephPriv nonce = some record)
    (hne : record.ephemeralXPub ≠ .zero 32) :
    unwrapCEK p record priv recipient.x25519Pub = some cek := by
  unfold wrapCEK at hwrap
  split at hwrap
  · cases hwrap
  · simp only [Option.bind_eq_bind, Option.bind_eq_some_iff] at hwrap
    obtain ⟨ephPub, heph, shared, hshared, info, hinfo, kwk, hkwk, ⟨ciphertext, tag⟩, hsealed,
      hrecord⟩ := hwrap
    cases hrecord
    obtain ⟨secret, hsecret, hsecret'⟩ :=
      hp.agrees ephPriv priv ephPub recipient.x25519Pub heph hpub
    have hsame : secret = shared := Option.some.inj (hsecret.symm.trans hshared)
    have hopen := decrypt_encrypt hp hsealed
    have htag : (Fixed.copy 16 tag).val = tag := Fixed.val_copy_of_length (length_tag hp hsealed)
    unfold unwrapCEK
    rw [if_neg hne]
    dsimp only
    rw [hinfo, Crypto.x25519SharedSecret, hsecret', hsame, htag]
    simp only [Option.bind_eq_bind, Option.bind_some]
    rw [hkwk, Option.bind_some]
    exact hopen

theorem exists_wrapCEK (hp : p.Lawful) (hpub : Crypto.x25519PublicFromPrivate p priv = some pub)
    (hne : pub ≠ .zero 32) {ephPriv ephPub : Fixed 32}
    (heph : Crypto.x25519PublicFromPrivate p ephPriv = some ephPub) (cek : Bytes)
    (device : Fixed 16) (nonce : Fixed 12) :
    ∃ record, wrapCEK p cek ⟨device, pub⟩ ephPriv nonce = some record ∧ record.recipientXPub = pub ∧
      record.ephemeralXPub = ephPub := by
  obtain ⟨secret, hsecret, -⟩ := hp.agrees ephPriv priv ephPub pub heph hpub
  have hinfo : cekWrapInfo producerKDF ephPub pub = some (cekWrapInfoV2 ephPub pub) := rfl
  have hkey := hp.length_hkdf secret.val [] (cekWrapInfoV2 ephPub pub) Crypto.aes256KeySize
  obtain ⟨ciphertext, tag, hsealed⟩ := @aesGCMEncryptAAD_isSome p _ nonce cek [] hkey
  unfold wrapCEK
  dsimp only
  rw [if_neg hne, heph, Crypto.x25519SharedSecret, hsecret]
  simp only [Option.bind_eq_bind, Option.bind_some]
  rw [hinfo, Option.bind_some, Crypto.deriveKey, if_neg (by decide), Option.bind_some,
    Crypto.aesGCMEncrypt, hsealed]
  exact ⟨_, rfl, rfl, rfl⟩

end Unwrap

end Dmcn
