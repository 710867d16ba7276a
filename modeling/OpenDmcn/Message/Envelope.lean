import OpenDmcn.Lib.Bytes
import OpenDmcn.Lib.Guard

/-! The encrypted envelope (`encrypt.go`, `message.proto`): the transport form of a message, whole
or split into a header and a body. -/

namespace Dmcn.Pb

open Go

structure RecipientRecord where
  deviceId : Bytes
  recipientXPub : Bytes
  ephemeralXPub : Bytes
  wrappedCek : Bytes
  cekNonce : Bytes
  cekTag : Bytes
  kdf : UInt32
  deriving DecidableEq, Inhabited

structure EncryptedEnvelope where
  version : UInt32
  messageId : Bytes
  recipients : List RecipientRecord
  encryptedPayload : Bytes
  payloadNonce : Bytes
  payloadTag : Bytes
  payloadSizeClass : UInt32
  createdAt : Int64
  ratchetPubKey : Bytes
  encryptedHeader : Bytes
  headerNonce : Bytes
  headerTag : Bytes
  headerSizeClass : UInt32
  encryptedBody : Bytes
  bodyNonce : Bytes
  bodyTag : Bytes
  bodySizeClass : UInt32
  bodyContentAddress : Bytes
  deriving DecidableEq, Inhabited

deriving instance Countable for RecipientRecord
deriving instance Countable for EncryptedEnvelope

end Dmcn.Pb

namespace Dmcn

open Go Guard

structure RecipientRecord where
  deviceID : Fixed 16
  recipientXPub : Fixed 32
  ephemeralXPub : Fixed 32
  wrappedCEK : Bytes
  cekNonce : Fixed 12
  cekTag : Fixed 16
  kdf : UInt32
  deriving DecidableEq

structure EncryptedEnvelope where
  version : UInt32
  messageID : Fixed 16
  recipients : List RecipientRecord
  encryptedPayload : Bytes
  payloadNonce : Fixed 12
  payloadTag : Fixed 16
  payloadSizeClass : UInt32
  createdAt : Int64
  ratchetPubKey : Fixed 32
  encryptedHeader : Bytes
  headerNonce : Fixed 12
  headerTag : Fixed 16
  headerSizeClass : UInt32
  encryptedBody : Bytes
  bodyNonce : Fixed 12
  bodyTag : Fixed 16
  bodySizeClass : UInt32
  bodyContentAddress : Bytes
  deriving DecidableEq

inductive EnvelopeField where
  | messageId | payloadNonce | payloadTag | ratchetPubKey | headerNonce | headerTag | bodyNonce
  | bodyTag
  | deviceId | recipientXPub | ephemeralXPub | cekNonce | cekTag
  deriving DecidableEq

inductive EnvelopeError where
  | size (field : EnvelopeField) (want got : ℕ)
  | recipient (i : ℕ) (e : EnvelopeError)
  deriving DecidableEq

def fixedField (n : ℕ) (src : Bytes) (field : EnvelopeField) : Except EnvelopeError (Fixed n) :=
  if src.length = 0 then .ok (Fixed.zero n)
  else if src.length ≠ n then .error (.size field n src.length)
  else .ok (Fixed.copy n src)

theorem fixedField_val {n : ℕ} (hn : n ≠ 0) (x : Fixed n) (field : EnvelopeField) :
    fixedField n x.val field = .ok x := by
  unfold fixedField
  rw [x.length_val, if_neg hn, if_neg (by simp), Fixed.copy_val]

namespace RecipientRecord

def toProto (r : RecipientRecord) : Pb.RecipientRecord where
  deviceId := r.deviceID.val
  recipientXPub := r.recipientXPub.val
  ephemeralXPub := r.ephemeralXPub.val
  wrappedCek := r.wrappedCEK
  cekNonce := r.cekNonce.val
  cekTag := r.cekTag.val
  kdf := r.kdf

def fromProto (pb : Pb.RecipientRecord) : Except EnvelopeError RecipientRecord := do
  let deviceID ← fixedField 16 pb.deviceId .deviceId
  let recipientXPub ← fixedField 32 pb.recipientXPub .recipientXPub
  let ephemeralXPub ← fixedField 32 pb.ephemeralXPub .ephemeralXPub
  let cekNonce ← fixedField 12 pb.cekNonce .cekNonce
  let cekTag ← fixedField 16 pb.cekTag .cekTag
  return ⟨deviceID, recipientXPub, ephemeralXPub, pb.wrappedCek, cekNonce, cekTag, pb.kdf⟩

theorem fromProto_toProto (r : RecipientRecord) : fromProto r.toProto = .ok r := by
  unfold fromProto toProto
  simp only [fixedField_val (show 16 ≠ 0 by decide), fixedField_val (show 32 ≠ 0 by decide),
    fixedField_val (show 12 ≠ 0 by decide), ok_bind]
  rfl

end RecipientRecord

def recipientsFromProto : ℕ → List Pb.RecipientRecord → Except EnvelopeError (List RecipientRecord)
  | _, [] => .ok []
  | i, pb :: pbs => do
    let r ← wrap (.recipient i) (RecipientRecord.fromProto pb)
    let rs ← recipientsFromProto (i + 1) pbs
    return r :: rs

theorem recipientsFromProto_toProto (i : ℕ) (rs : List RecipientRecord) :
    recipientsFromProto i (rs.map RecipientRecord.toProto) = .ok rs := by
  induction rs generalizing i with
  | nil => rfl
  | cons r rs ih =>
    rw [List.map_cons, recipientsFromProto, RecipientRecord.fromProto_toProto, ih]
    rfl

namespace EncryptedEnvelope

def isSplit (e : EncryptedEnvelope) : Bool := e.encryptedHeader.length > 0

def toProto (e : EncryptedEnvelope) : Pb.EncryptedEnvelope :=
  let pb : Pb.EncryptedEnvelope :=
    { (default : Pb.EncryptedEnvelope) with
      version := e.version
      messageId := e.messageID.val
      recipients := e.recipients.map RecipientRecord.toProto
      encryptedPayload := e.encryptedPayload
      payloadNonce := e.payloadNonce.val
      payloadTag := e.payloadTag.val
      payloadSizeClass := e.payloadSizeClass
      createdAt := e.createdAt
      ratchetPubKey := e.ratchetPubKey.val }
  if e.isSplit then
    { pb with
      encryptedHeader := e.encryptedHeader
      headerNonce := e.headerNonce.val
      headerTag := e.headerTag.val
      headerSizeClass := e.headerSizeClass
      encryptedBody := e.encryptedBody
      bodyNonce := e.bodyNonce.val
      bodyTag := e.bodyTag.val
      bodySizeClass := e.bodySizeClass
      bodyContentAddress := e.bodyContentAddress }
  else pb

def fromProto (pb : Pb.EncryptedEnvelope) : Except EnvelopeError EncryptedEnvelope := do
  let messageID ← fixedField 16 pb.messageId .messageId
  let payloadNonce ← fixedField 12 pb.payloadNonce .payloadNonce
  let payloadTag ← fixedField 16 pb.payloadTag .payloadTag
  let ratchetPubKey ← fixedField 32 pb.ratchetPubKey .ratchetPubKey
  let env : EncryptedEnvelope :=
    { version := pb.version
      messageID := messageID
      recipients := []
      encryptedPayload := pb.encryptedPayload
      payloadNonce := payloadNonce
      payloadTag := payloadTag
      payloadSizeClass := pb.payloadSizeClass
      createdAt := pb.createdAt
      ratchetPubKey := ratchetPubKey
      encryptedHeader := []
      headerNonce := .zero 12
      headerTag := .zero 16
      headerSizeClass := 0
      encryptedBody := []
      bodyNonce := .zero 12
      bodyTag := .zero 16
      bodySizeClass := 0
      bodyContentAddress := [] }
  let env ← if pb.encryptedHeader.length > 0 then do
      let headerNonce ← fixedField 12 pb.headerNonce .headerNonce
      let headerTag ← fixedField 16 pb.headerTag .headerTag
      let bodyNonce ← fixedField 12 pb.bodyNonce .bodyNonce
      let bodyTag ← fixedField 16 pb.bodyTag .bodyTag
      pure { env with
        encryptedHeader := pb.encryptedHeader
        headerNonce := headerNonce
        headerTag := headerTag
        headerSizeClass := pb.headerSizeClass
        encryptedBody := pb.encryptedBody
        bodyNonce := bodyNonce
        bodyTag := bodyTag
        bodySizeClass := pb.bodySizeClass
        bodyContentAddress := pb.bodyContentAddress }
    else pure env
  let recipients ← recipientsFromProto 0 pb.recipients
  return { env with recipients := recipients }

def reread (e : EncryptedEnvelope) : EncryptedEnvelope :=
  if e.isSplit then e
  else
    { e with
      encryptedHeader := []
      headerNonce := .zero 12
      headerTag := .zero 16
      headerSizeClass := 0
      encryptedBody := []
      bodyNonce := .zero 12
      bodyTag := .zero 16
      bodySizeClass := 0
      bodyContentAddress := [] }

theorem fromProto_toProto (e : EncryptedEnvelope) : fromProto e.toProto = .ok e.reread := by
  unfold fromProto toProto reread
  by_cases hsplit : e.isSplit = true
  · have hheader : e.encryptedHeader.length > 0 := by simpa [isSplit] using hsplit
    simp only [hsplit, if_true, fixedField_val (show 16 ≠ 0 by decide),
      fixedField_val (show 32 ≠ 0 by decide), fixedField_val (show 12 ≠ 0 by decide), ok_bind,
      recipientsFromProto_toProto, if_pos hheader]
    rfl
  · have hheader : ¬ (default : Pb.EncryptedEnvelope).encryptedHeader.length > 0 := by decide
    simp only [hsplit, Bool.false_eq_true, if_false, fixedField_val (show 16 ≠ 0 by decide),
      fixedField_val (show 32 ≠ 0 by decide), fixedField_val (show 12 ≠ 0 by decide), ok_bind,
      recipientsFromProto_toProto, if_neg hheader]
    rfl

theorem toProto_reread (e : EncryptedEnvelope) : e.reread.toProto = e.toProto := by
  unfold reread
  by_cases hsplit : e.isSplit = true
  · rw [if_pos hsplit]
  · rw [if_neg hsplit]
    unfold toProto
    rw [if_neg hsplit]
    rfl

end EncryptedEnvelope

end Dmcn
