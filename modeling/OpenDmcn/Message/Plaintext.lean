import OpenDmcn.Runtime

/-! What an envelope holds (`message.go`, `split.go`, `message.proto`): a message in one piece, or
split into a header and its content. A sub-message that is absent on the wire is `none`, and reading
a field of it through its pointer is a panic. -/

namespace Dmcn.Pb

open Go

structure MessageBody where
  contentType : String
  content : Bytes
  deriving DecidableEq, Inhabited

structure AttachmentRecord where
  attachmentId : Bytes
  filename : String
  contentType : String
  sizeBytes : UInt64
  contentHash : Bytes
  content : Bytes
  contentId : String
  disposition : String
  deriving DecidableEq, Inhabited

structure PlaintextMessage where
  version : UInt32
  messageId : Bytes
  threadId : Bytes
  senderAddress : String
  senderPublicKey : Bytes
  recipientAddress : String
  sentAt : Int64
  subject : String
  body : Option MessageBody
  attachments : List AttachmentRecord
  replyToId : Bytes
  alternatives : List MessageBody
  senderDisplay : String
  deriving DecidableEq, Inhabited

structure SignedMessage where
  plaintext : Option PlaintextMessage
  senderSignature : Bytes
  deriving DecidableEq, Inhabited

structure MessageHeader where
  version : UInt32
  messageId : Bytes
  threadId : Bytes
  senderAddress : String
  senderPublicKey : Bytes
  recipientAddress : String
  sentAt : Int64
  subject : String
  attachmentCount : UInt32
  bodySize : UInt64
  snippet : String
  replyToId : Bytes
  bodyHash : Bytes
  bodyContentAddress : Bytes
  toAddrs : List String
  cc : List String
  bcc : List String
  senderDisplay : String
  deriving DecidableEq, Inhabited

structure SignedHeader where
  header : Option MessageHeader
  senderSignature : Bytes
  deriving DecidableEq, Inhabited

structure MessageContent where
  body : Option MessageBody
  attachments : List AttachmentRecord
  alternatives : List MessageBody
  deriving DecidableEq, Inhabited

deriving instance Countable for MessageBody
deriving instance Countable for AttachmentRecord
deriving instance Countable for PlaintextMessage
deriving instance Countable for SignedMessage
deriving instance Countable for MessageHeader
deriving instance Countable for SignedHeader
deriving instance Countable for MessageContent

end Dmcn.Pb

namespace Dmcn

open Go

structure MessageCodecs where
  plaintextMessage : Codec Pb.PlaintextMessage
  signedMessage : Codec Pb.SignedMessage
  messageHeader : Codec Pb.MessageHeader
  signedHeader : Codec Pb.SignedHeader
  messageContent : Codec Pb.MessageContent

structure MessageBody where
  contentType : String
  content : Bytes
  deriving DecidableEq, Inhabited

structure AttachmentRecord where
  attachmentID : Fixed 16
  filename : String
  contentType : String
  sizeBytes : UInt64
  contentHash : Fixed 32
  content : Bytes
  contentID : String
  disposition : String
  deriving DecidableEq

structure PlaintextMessage where
  version : UInt32
  messageID : Fixed 16
  threadID : Fixed 16
  senderAddress : String
  senderPublicKey : Bytes
  recipientAddress : String
  sentAt : Time
  subject : String
  body : MessageBody
  attachments : List AttachmentRecord
  replyToID : Fixed 16
  alternatives : List MessageBody
  senderDisplay : String
  deriving DecidableEq

structure SignedMessage where
  plaintext : PlaintextMessage
  senderSignature : Fixed 64
  deriving DecidableEq

structure MessageHeader where
  version : UInt32
  messageID : Fixed 16
  threadID : Fixed 16
  senderAddress : String
  senderPublicKey : Bytes
  recipientAddress : String
  sentAt : Time
  subject : String
  attachmentCount : UInt32
  bodySize : UInt64
  snippet : String
  replyToID : Fixed 16
  bodyHash : Fixed 32
  bodyContentAddress : Bytes
  toAddrs : List String
  cc : List String
  bcc : List String
  senderDisplay : String
  deriving DecidableEq

structure SignedHeader where
  header : MessageHeader
  senderSignature : Fixed 64
  deriving DecidableEq

structure MessageContent where
  body : MessageBody
  attachments : List AttachmentRecord
  alternatives : List MessageBody
  deriving DecidableEq

namespace MessageBody

def toProto (b : MessageBody) : Pb.MessageBody := ⟨b.contentType, b.content⟩

def ofProto (pb : Pb.MessageBody) : MessageBody := ⟨pb.contentType, pb.content⟩

def fromProto (pb : Option Pb.MessageBody) : MessageBody := ofProto (pb.getD default)

@[simp] theorem ofProto_toProto (b : MessageBody) : ofProto b.toProto = b := rfl

@[simp] theorem fromProto_toProto (b : MessageBody) : fromProto (some b.toProto) = b := rfl

end MessageBody

namespace AttachmentRecord

def toProto (a : AttachmentRecord) : Pb.AttachmentRecord where
  attachmentId := a.attachmentID.val
  filename := a.filename
  contentType := a.contentType
  sizeBytes := a.sizeBytes
  contentHash := a.contentHash.val
  content := a.content
  contentId := a.contentID
  disposition := a.disposition

def fromProto (pb : Pb.AttachmentRecord) : AttachmentRecord where
  attachmentID := Fixed.copy 16 pb.attachmentId
  filename := pb.filename
  contentType := pb.contentType
  sizeBytes := pb.sizeBytes
  contentHash := Fixed.copy 32 pb.contentHash
  content := pb.content
  contentID := pb.contentId
  disposition := pb.disposition

@[simp] theorem fromProto_toProto (a : AttachmentRecord) : fromProto a.toProto = a := by
  simp [fromProto, toProto]

end AttachmentRecord

namespace PlaintextMessage

def toProto (m : PlaintextMessage) : Pb.PlaintextMessage where
  version := m.version
  messageId := m.messageID.val
  threadId := m.threadID.val
  senderAddress := m.senderAddress
  senderPublicKey := m.senderPublicKey
  recipientAddress := m.recipientAddress
  sentAt := m.sentAt.unix
  subject := m.subject
  body := some m.body.toProto
  attachments := m.attachments.map AttachmentRecord.toProto
  replyToId := m.replyToID.val
  alternatives := m.alternatives.map MessageBody.toProto
  senderDisplay := m.senderDisplay

def fromProto (pb : Pb.PlaintextMessage) : PlaintextMessage where
  version := pb.version
  messageID := Fixed.copy 16 pb.messageId
  threadID := Fixed.copy 16 pb.threadId
  senderAddress := pb.senderAddress
  senderPublicKey := pb.senderPublicKey
  recipientAddress := pb.recipientAddress
  sentAt := Time.ofUnix pb.sentAt
  subject := pb.subject
  body := MessageBody.fromProto pb.body
  attachments := pb.attachments.map AttachmentRecord.fromProto
  replyToID := Fixed.copy 16 pb.replyToId
  alternatives := pb.alternatives.map MessageBody.ofProto
  senderDisplay := pb.senderDisplay

end PlaintextMessage

namespace SignedMessage

variable (rt : Runtime) (codecs : MessageCodecs)

def signableBytes (sm : SignedMessage) : Bytes :=
  codecs.plaintextMessage.marshalDeterministic sm.plaintext.toProto

def verify (sm : SignedMessage) : Bool :=
  Crypto.verify rt sm.plaintext.senderPublicKey (sm.signableBytes codecs) sm.senderSignature.val

end SignedMessage

namespace MessageHeader

def toProto (h : MessageHeader) : Pb.MessageHeader where
  version := h.version
  messageId := h.messageID.val
  threadId := h.threadID.val
  senderAddress := h.senderAddress
  senderPublicKey := h.senderPublicKey
  recipientAddress := h.recipientAddress
  sentAt := h.sentAt.unix
  subject := h.subject
  attachmentCount := h.attachmentCount
  bodySize := h.bodySize
  snippet := h.snippet
  replyToId := h.replyToID.val
  bodyHash := h.bodyHash.val
  bodyContentAddress := h.bodyContentAddress
  toAddrs := h.toAddrs
  cc := h.cc
  bcc := h.bcc
  senderDisplay := h.senderDisplay

def fromProto (pb : Pb.MessageHeader) : MessageHeader where
  version := pb.version
  messageID := Fixed.copy 16 pb.messageId
  threadID := Fixed.copy 16 pb.threadId
  senderAddress := pb.senderAddress
  senderPublicKey := pb.senderPublicKey
  recipientAddress := pb.recipientAddress
  sentAt := Time.ofUnix pb.sentAt
  subject := pb.subject
  attachmentCount := pb.attachmentCount
  bodySize := pb.bodySize
  snippet := pb.snippet
  replyToID := Fixed.copy 16 pb.replyToId
  bodyHash := Fixed.copy 32 pb.bodyHash
  bodyContentAddress := pb.bodyContentAddress
  toAddrs := pb.toAddrs
  cc := pb.cc
  bcc := pb.bcc
  senderDisplay := pb.senderDisplay

def wholeSecond (h : MessageHeader) : MessageHeader := { h with sentAt := h.sentAt.wholeSecond }

theorem fromProto_toProto (h : MessageHeader) : fromProto h.toProto = h.wholeSecond := by
  simp [fromProto, toProto, wholeSecond, Time.ofUnix_unix]

theorem toProto_wholeSecond (h : MessageHeader) : h.wholeSecond.toProto = h.toProto := by
  simp [toProto, wholeSecond]

end MessageHeader

namespace MessageContent

variable (rt : Runtime) (codecs : MessageCodecs)

def toProto (c : MessageContent) : Pb.MessageContent where
  body := some c.body.toProto
  attachments := c.attachments.map AttachmentRecord.toProto
  alternatives := c.alternatives.map MessageBody.toProto

def fromProto (pb : Pb.MessageContent) : MessageContent where
  body := MessageBody.fromProto pb.body
  attachments := pb.attachments.map AttachmentRecord.fromProto
  alternatives := pb.alternatives.map MessageBody.ofProto

theorem fromProto_toProto (c : MessageContent) : fromProto c.toProto = c := by
  have hattachments : ∀ l : List AttachmentRecord,
      (l.map AttachmentRecord.toProto).map AttachmentRecord.fromProto = l := by
    intro l
    rw [List.map_map]
    exact List.map_id'' AttachmentRecord.fromProto_toProto l
  have halternatives : ∀ l : List MessageBody, (l.map MessageBody.toProto).map MessageBody.ofProto =
      l := by
    intro l
    rw [List.map_map]
    exact List.map_id'' MessageBody.ofProto_toProto l
  simp [fromProto, toProto, hattachments, halternatives]

def hash (c : MessageContent) : Fixed 32 :=
  Fixed.copy 32 (rt.sha256 (codecs.messageContent.marshalDeterministic c.toProto))

end MessageContent

namespace SignedHeader

variable (rt : Runtime) (codecs : MessageCodecs)

def ctxMsgHeader : Bytes := utf8 "dmcn-msg-header-v1" ++ [0]

def headerSignableBytes (sh : SignedHeader) : Bytes :=
  ctxMsgHeader ++ codecs.messageHeader.marshalDeterministic sh.header.toProto

def sign (sh : SignedHeader) (senderPriv : Bytes) : SignedHeader :=
  { sh with senderSignature :=
    Fixed.copy 64 (rt.ed25519Sign senderPriv (sh.headerSignableBytes codecs)) }

def verify (sh : SignedHeader) : Bool :=
  Crypto.verify rt sh.header.senderPublicKey (sh.headerSignableBytes codecs) sh.senderSignature.val

end SignedHeader

end Dmcn
