import OpenDmcn.Lib.Protobuf
import OpenDmcn.Relay.Mailbox

/-! The frames of the relay protocol (`relay.proto`, `message.proto`, `relay.go`): the messages as
they are written, and the cap on one frame. -/

namespace Dmcn.Pb

open Go Protobuf

namespace RecipientRecord

def fields (r : RecipientRecord) : List Field :=
  bytes 1 r.deviceId ++ bytes 2 r.recipientXPub ++ bytes 3 r.ephemeralXPub ++
    bytes 4 r.wrappedCek ++
    bytes 5 r.cekNonce ++ bytes 6 r.cekTag ++ int 7 r.kdf.toNat

def marshal (r : RecipientRecord) : Bytes := encode r.fields

def read (fs : List Field) : RecipientRecord where
  deviceId := getBytes 1 fs
  recipientXPub := getBytes 2 fs
  ephemeralXPub := getBytes 3 fs
  wrappedCek := getBytes 4 fs
  cekNonce := getBytes 5 fs
  cekTag := getBytes 6 fs
  kdf := UInt32.ofNat (getInt 7 fs)

theorem read_fields (r : RecipientRecord) : read r.fields = r := by
  simp [read, fields, getBytes, getInt, asInt_int, asInt_bytes, asBytes_int, asBytes_bytes,
    getD_ite_int, getD_ite_bytes]

end RecipientRecord

namespace EncryptedEnvelope

def fields (e : EncryptedEnvelope) : List Field :=
  int 1 e.version.toNat ++ bytes 2 e.messageId ++
    repeated 3 (e.recipients.map RecipientRecord.marshal) ++
    bytes 4 e.encryptedPayload ++ bytes 5 e.payloadNonce ++ bytes 6 e.payloadTag ++
    int 7 e.payloadSizeClass.toNat ++ int 8 e.createdAt.toUInt64.toNat ++ bytes 9 e.ratchetPubKey ++
    bytes 10 e.encryptedHeader ++ bytes 11 e.headerNonce ++ bytes 12 e.headerTag ++
    int 13 e.headerSizeClass.toNat ++ bytes 14 e.encryptedBody ++ bytes 15 e.bodyNonce ++
      bytes 16 e.bodyTag ++
    int 17 e.bodySizeClass.toNat ++ bytes 18 e.bodyContentAddress

def marshal (e : EncryptedEnvelope) : Bytes := encode e.fields

end EncryptedEnvelope

namespace MailboxEntry

def fields (e : MailboxEntry) : List Field :=
  bytes 1 e.hash ++ int 2 e.storedAt.toUInt64.toNat ++ int 3 e.bodySize.toNat ++
    repeated 4 (e.recipients.map RecipientRecord.marshal) ++ bytes 5 e.encryptedHeader ++
    bytes 6 e.headerNonce ++ bytes 7 e.headerTag ++ int 8 e.headerSizeClass.toNat ++
    bytes 9 e.bodyContentAddress

def marshal (e : MailboxEntry) : Bytes := encode e.fields

def read (fs : List Field) : Option MailboxEntry := do
  let recipients ← (getRepeated 4 fs).mapM decode
  return {
    hash := getBytes 1 fs
    storedAt := (UInt64.ofNat (getInt 2 fs)).toInt64
    bodySize := UInt64.ofNat (getInt 3 fs)
    recipients := recipients.map RecipientRecord.read
    encryptedHeader := getBytes 5 fs
    headerNonce := getBytes 6 fs
    headerTag := getBytes 7 fs
    headerSizeClass := UInt32.ofNat (getInt 8 fs)
    bodyContentAddress := getBytes 9 fs }

theorem mapM_decode_marshal (rs : List RecipientRecord) :
    (rs.map RecipientRecord.marshal).mapM decode = some (rs.map RecipientRecord.fields) := by
  induction rs with
  | nil => rfl
  | cons r rs ih =>
    rw [List.map_cons, List.mapM_cons, ih, RecipientRecord.marshal, decode_encode]
    rfl

theorem read_fields (e : MailboxEntry) : read e.fields = some e := by
  have hrecords : ∀ rs : List RecipientRecord,
      (rs.map RecipientRecord.fields).map RecipientRecord.read = rs := by
    intro rs
    rw [List.map_map]
    exact List.map_id'' RecipientRecord.read_fields rs
  have hrecipients : getRepeated 4 e.fields = e.recipients.map RecipientRecord.marshal := by
    simp [getRepeated, fields, asBytes_int, asBytes_bytes, asBytes_repeated]
  unfold read
  rw [hrecipients, mapM_decode_marshal]
  simp [fields, getBytes, getInt, asInt_int, asInt_bytes, asInt_repeated, asBytes_int,
    asBytes_bytes, asBytes_repeated, getD_ite_int, getD_ite_bytes, hrecords]

def codec : Codec MailboxEntry where
  marshal := marshal
  marshalDeterministic := marshal
  unmarshal b := (decode b).bind read
  unmarshal_marshal e := by rw [marshal, decode_encode, Option.bind_some, read_fields]
  unmarshal_deterministic e := by rw [marshal, decode_encode, Option.bind_some, read_fields]
  unmarshal_nil := rfl

end MailboxEntry

end Dmcn.Pb

namespace Dmcn.Pb

open Go Protobuf

structure StoreRequest where
  senderAddress : String
  senderSignature : Bytes
  envelope : Option EncryptedEnvelope

structure StoreInit where
  senderAddress : String
  senderSignature : Bytes
  version : UInt32
  messageId : Bytes
  createdAt : Int64
  recipients : List RecipientRecord
  encryptedHeader : Bytes
  headerNonce : Bytes
  headerTag : Bytes
  headerSizeClass : UInt32
  bodyNonce : Bytes
  bodyTag : Bytes
  bodySizeClass : UInt32
  bodyTotalSize : UInt64
  bodyContentAddress : Bytes

structure MailboxKvPutOp where
  key : String
  sealed : Bytes
  expectedVersion : UInt64

structure MailboxKvItem where
  key : String
  sealed : Bytes
  version : UInt64

def StoreRequest.marshal (r : StoreRequest) : Bytes :=
  encode (bytes 1 (utf8 r.senderAddress) ++ bytes 2 r.senderSignature ++
    r.envelope.elim [] fun e => message 3 e.marshal)

def StoreInit.marshal (r : StoreInit) : Bytes :=
  encode (bytes 1 (utf8 r.senderAddress) ++ bytes 2 r.senderSignature ++ int 3 r.version.toNat ++
    bytes 4 r.messageId ++ int 5 r.createdAt.toUInt64.toNat ++
    repeated 6 (r.recipients.map RecipientRecord.marshal) ++ bytes 7 r.encryptedHeader ++
    bytes 8 r.headerNonce ++ bytes 9 r.headerTag ++ int 10 r.headerSizeClass.toNat ++
      bytes 11 r.bodyNonce ++
    bytes 12 r.bodyTag ++ int 13 r.bodySizeClass.toNat ++ int 14 r.bodyTotalSize.toNat ++
    bytes 16 r.bodyContentAddress)

def MailboxKvPutOp.marshal (op : MailboxKvPutOp) : Bytes :=
  encode (bytes 1 (utf8 op.key) ++ bytes 2 op.sealed ++ int 3 op.expectedVersion.toNat)

def MailboxKvItem.marshal (item : MailboxKvItem) : Bytes :=
  encode (bytes 1 (utf8 item.key) ++ bytes 2 item.sealed ++ int 3 item.version.toNat)

/-- The requests that bring something to a store. A mailbox op carries the challenge and its
signature. -/
inductive RelayRequest where
  | store (request : StoreRequest)
  | storeInit (init : StoreInit)
  | kvPut (nonce signature devicePublicKey deviceSignature : Bytes) (put : MailboxKvPutOp)

def RelayRequest.marshal : RelayRequest → Bytes
  | .store request => encode (message 1 request.marshal)
  | .storeInit init => encode (message 7 init.marshal)
  | .kvPut nonce signature devicePublicKey deviceSignature put =>
    encode (message 6 (encode (bytes 1 nonce ++ bytes 2 signature ++ message 8 put.marshal ++
      bytes 14 devicePublicKey ++ bytes 15 deviceSignature)))

inductive RelayResponse where
  | fetch (envelopes : List EncryptedEnvelope) (envelopeHashes : List Bytes)
  | error (code message : String)
  | mailboxList (entries : List MailboxEntry) (nextCursor : Bytes)
  | mailboxKvList (items : List MailboxKvItem) (nextCursor : Bytes)

def RelayResponse.marshal : RelayResponse → Bytes
  | .fetch envelopes envelopeHashes =>
    encode (message 3 (encode (repeated 1 (envelopes.map EncryptedEnvelope.marshal) ++
      repeated 2 envelopeHashes)))
  | .error code text => encode (message 6 (encode (bytes 1 (utf8 code) ++ bytes 2 (utf8 text))))
  | .mailboxList entries nextCursor =>
    encode (message 7
      (encode (repeated 1 (entries.map MailboxEntry.marshal) ++ bytes 2 nextCursor)))
  | .mailboxKvList items nextCursor =>
    encode (message 20
      (encode (repeated 1 (items.map MailboxKvItem.marshal) ++ bytes 2 nextCursor)))

end Dmcn.Pb

namespace Dmcn

open Go Protobuf

def maxMessageSize : ℕ := 4 * 1024 * 1024

def maxBodySize : ℕ := 64 * 1024 * 1024

inductive FrameError where
  | messageTooLarge | chunkTooLarge | bodyTooLarge | chunkOverflow | closed
  deriving DecidableEq

def writeMessage (data : Bytes) : Except FrameError Bytes :=
  if data.length > maxMessageSize then .error .messageTooLarge
    else .ok (bigEndian32 data.length ++ data)

def writeResponse (resp : Pb.RelayResponse) : Except FrameError Bytes := writeMessage resp.marshal

def readRequest (req : Pb.RelayRequest) : Except FrameError Pb.RelayRequest :=
  if req.marshal.length > maxMessageSize then .error .messageTooLarge else .ok req

def readChunks (total : ℕ) : List Bytes → Bytes → Except FrameError Bytes
  | frames, buf =>
    if total ≤ buf.length then .ok buf
    else
      match frames with
      | [] => .error .closed
      | frame :: frames =>
        if frame.length > maxMessageSize then .error .chunkTooLarge
        else if buf.length + frame.length > total then .error .chunkOverflow
        else readChunks total frames (buf ++ frame)

def readChunked (total : UInt64) (frames : List Bytes) : Except FrameError Bytes :=
  if total.toNat > maxBodySize then .error .bodyTooLarge else readChunks total.toNat frames []

def Writable (resp : Pb.RelayResponse) : Prop := ∃ frame, writeResponse resp = .ok frame

theorem writable_iff {resp : Pb.RelayResponse} : Writable resp ↔
    resp.marshal.length ≤ maxMessageSize := by
  unfold Writable writeResponse writeMessage
  split
  · next h =>
    simp only [reduceCtorEq, exists_false, false_iff, not_le]
    exact h
  · next h => simpa using h

theorem framed_le_max {num t : ℕ} (ht : (varint (8 * num + 2)).length = t) (ht2 : t ≤ 2)
    (b : Bytes) :
    framed num b ≤ maxMessageSize ↔ b.length + t + 4 ≤ maxMessageSize := by
  unfold framed maxMessageSize
  rw [ht]
  rcases Nat.lt_or_ge b.length (128 ^ 3) with hsmall | hlarge
  · have hlength := length_varint_le hsmall
    norm_num at hsmall
    omega
  · have hfour := lt_length_varint hlarge
    rcases Nat.lt_or_ge b.length (128 ^ 4) with hbelow | habove
    · have hlength := length_varint_le hbelow
      omega
    · norm_num at habove
      omega

def fetchLoad (env : EncryptedEnvelope) : ℕ := framed 1 env.toProto.marshal + 34

def cursorLoad (cursor : String) : ℕ := if utf8 cursor = [] then 0 else framed 2 (utf8 cursor)

theorem cursorLoad_empty : cursorLoad "" = 0 := rfl

theorem cursorLoad_le (cursor : String) : cursorLoad cursor ≤ framed 2 (utf8 cursor) := by
  unfold cursorLoad
  split
  · exact Nat.zero_le _
  · exact le_rfl

theorem writable_fetch {envs : List EncryptedEnvelope} {hashes : List (Fixed 32)}
    (hlength : hashes.length = envs.length) :
    Writable (.fetch (envs.map EncryptedEnvelope.toProto) (hashes.map Fixed.val)) ↔
      (envs.map fetchLoad).sum + 5 ≤ maxMessageSize := by
  have htag : (varint (8 * 3 + 2)).length = 1 := by simp [varint]
  have hhash : ∀ hash : Fixed 32, framed 2 hash.val = 34 := by
    intro hash
    simp [framed, varint]
  have hsum : (envs.map fetchLoad).sum = (envs.map fun env => framed 1 env.toProto.marshal).sum +
      34 * envs.length := by
    unfold fetchLoad
    rw [List.sum_map_add, List.map_const', List.sum_replicate_nat, mul_comm]
  have hhashes : ((hashes.map Fixed.val).map (framed 2)).sum = 34 * envs.length := by
    simp only [List.map_map, Function.comp_def, hhash, List.map_const', List.sum_replicate_nat,
      hlength]
    exact mul_comm _ _
  rw [writable_iff, Pb.RelayResponse.marshal, length_encode_message, framed_le_max htag (by decide),
    length_encode_append, length_encode_repeated, length_encode_repeated, hhashes, hsum]
  simp only [List.map_map, Function.comp_def]

theorem writable_mailboxList {entries : List Pb.MailboxEntry} {cursor : String} :
    Writable (.mailboxList entries (utf8 cursor)) ↔
      (entries.map fun e => framed 1 e.marshal).sum + cursorLoad cursor + 5 ≤ maxMessageSize := by
  have htag : (varint (8 * 7 + 2)).length = 1 := by simp [varint]
  rw [writable_iff, Pb.RelayResponse.marshal, length_encode_message, framed_le_max htag (by decide),
    length_encode_append, length_encode_repeated, length_encode_bytes, List.map_map]
  rfl

theorem writable_mailboxKvList {items : List Pb.MailboxKvItem} {cursor : String} :
    Writable (.mailboxKvList items (utf8 cursor)) ↔
      (items.map fun item => framed 1 item.marshal).sum + cursorLoad cursor + 6 ≤
      maxMessageSize := by
  have htag : (varint (8 * 20 + 2)).length = 2 := by simp [varint]
  rw [writable_iff, Pb.RelayResponse.marshal, length_encode_message, framed_le_max htag (by decide),
    length_encode_append, length_encode_repeated, length_encode_bytes, List.map_map]
  rfl

end Dmcn
