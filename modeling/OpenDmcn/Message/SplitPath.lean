import OpenDmcn.IdealRuntime
import OpenDmcn.Message.Seal
import OpenDmcn.Relay.AcceptEnvelope
import OpenDmcn.Relay.MailboxList

/-! The way of a split message (`split.go`, `encrypt.go`, `mailbox.go`): it is split, sealed, stored
in a mailbox, put together from what the mailbox kept, and opened again in two parts. -/

namespace Dmcn

open Go Guard Datastore

namespace Mailbox

def envelopeFromEntry (entry : Pb.MailboxEntry) : Except EnvelopeError EncryptedEnvelope :=
  EncryptedEnvelope.fromProto { (default : Pb.EncryptedEnvelope) with
    recipients := entry.recipients
    encryptedHeader := entry.encryptedHeader
    headerNonce := entry.headerNonce
    headerTag := entry.headerTag
    headerSizeClass := entry.headerSizeClass }

def envelopeFromParts (entry : Pb.MailboxEntry) (body : Pb.MailboxBody) :
    Except EnvelopeError EncryptedEnvelope :=
  EncryptedEnvelope.fromProto { (default : Pb.EncryptedEnvelope) with
    recipients := entry.recipients
    encryptedHeader := entry.encryptedHeader
    headerNonce := entry.headerNonce
    headerTag := entry.headerTag
    headerSizeClass := entry.headerSizeClass
    encryptedBody := body.encryptedBody
    bodyNonce := body.bodyNonce
    bodyTag := body.bodyTag
    bodySizeClass := body.bodySizeClass
    bodyContentAddress := entry.bodyContentAddress }

def getBody (rt : MailboxRuntime) (disk : Disk) (rxHex : String) (hash : Fixed 32) :
    Option Pb.MailboxBody := do
  let v ← disk.lookup (bodyKey rxHex (Hex.encode hash.val))
  rt.body.unmarshal v

def kept (env : EncryptedEnvelope) : EncryptedEnvelope :=
  { env with
    version := 0, messageID := .zero 16, encryptedPayload := [], payloadNonce :=
      .zero 12, payloadTag := .zero 16
    payloadSizeClass := 0, createdAt := 0, ratchetPubKey := .zero 32 }

def keptHeader (env : EncryptedEnvelope) : EncryptedEnvelope :=
  { kept env with
    encryptedBody := [], bodyNonce := .zero 12, bodyTag := .zero 16, bodySizeClass :=
      0, bodyContentAddress := [] }

theorem envelopeFromEntry_entryOf {env : EncryptedEnvelope} (hsplit : env.isSplit = true)
    (hash : Fixed 32) (storedAt : Time) :
    envelopeFromEntry (entryOf hash env storedAt) = .ok (keptHeader env) := by
  have hlength : env.encryptedHeader.length > 0 := by simpa [EncryptedEnvelope.isSplit] using hsplit
  unfold envelopeFromEntry EncryptedEnvelope.fromProto entryOf
  simp only [fixedField_val (show 12 ≠ 0 by decide), fixedField_val (show 16 ≠ 0 by decide),
    if_pos hlength, recipientsFromProto_toProto, ok_bind, pure_bind]
  rfl

theorem envelopeFromParts_bodyOf {env : EncryptedEnvelope} (hsplit : env.isSplit = true)
    (hash : Fixed 32) (storedAt : Time) :
    envelopeFromParts (entryOf hash env storedAt) (bodyOf env) = .ok (kept env) := by
  have hlength : env.encryptedHeader.length > 0 := by simpa [EncryptedEnvelope.isSplit] using hsplit
  unfold envelopeFromParts EncryptedEnvelope.fromProto entryOf bodyOf
  simp only [fixedField_val (show 12 ≠ 0 by decide), fixedField_val (show 16 ≠ 0 by decide),
    if_pos hlength, recipientsFromProto_toProto, ok_bind, pure_bind]
  rfl

end Mailbox

section Padding

def Paddable (b : Bytes) : Prop := b.length + 4 + 2 ^ 20 ≤ 2 ^ 32

theorem paddable_of_short {b : Bytes} (hb : b.length ≤ 2 ^ 20) : Paddable b := by
  unfold Paddable
  omega

theorem le_selectSizeClass {n : ℕ} (hn : n + 4 + 2 ^ 20 ≤ 2 ^ 32) :
    n + 4 ≤ (selectSizeClass (UInt32.ofNat n)).toNat := by
  have hneeded : (UInt32.ofNat n + 4).toNat = n + 4 := by
    rw [UInt32.toNat_add, UInt32.toNat_ofNat']
    simp only [UInt32.toNat_ofNat]
    omega
  unfold selectSizeClass
  dsimp only
  split
  · next sc hsc =>
    have hle := List.find?_some hsc
    rw [decide_eq_true_eq, UInt32.le_iff_toNat_le, hneeded] at hle
    exact hle
  · have hmb : ((1024 * 1024 : UInt32)).toNat = 2 ^ 20 := by decide
    have hup : (UInt32.ofNat n + 4 + 1024 * 1024 - 1).toNat = n + 4 + 2 ^ 20 - 1 := by
      rw [UInt32.toNat_sub, UInt32.toNat_add, hneeded, hmb, UInt32.toNat_one]
      omega
    rw [UInt32.toNat_mul, UInt32.toNat_div, hup, hmb]
    omega

theorem unpadPayload_filled {b : Bytes} (hb : b.length + 4 < 2 ^ 32) (zeros : Bytes) :
    unpadPayload (bigEndian32 b.length ++ (b ++ zeros)) = .ok b := by
  have hread : readBigEndian32 (bigEndian32 b.length ++ (b ++ zeros)) = b.length := by
    rw [readBigEndian32_append]
    omega
  have hlength : (bigEndian32 b.length ++ (b ++ zeros)).length = 4 + (b.length + zeros.length) := by
    rw [List.length_append, List.length_append, length_bigEndian32]
  have hstop : (4 + b.length) % 2 ^ 32 = 4 + b.length := Nat.mod_eq_of_lt (by omega)
  have htake : ((bigEndian32 b.length ++ (b ++ zeros)).take (4 + b.length)).drop 4 = b := by
    rw [List.drop_take, Nat.add_sub_cancel_left, List.drop_left' (length_bigEndian32 _),
      List.take_left]
  unfold unpadPayload
  rw [hread, hlength]
  dsimp only
  rw [hstop, htake, refuse, if_neg (by omega), ok_bind, refuse, if_neg (by omega), ok_bind, refuse,
    if_neg (by omega), ok_bind]
  rfl

theorem unpad_padded {b : Bytes} (hb : Paddable b) : ∃ x c, padded b = some (x, c) ∧
    unpadPayload x = .ok b ∧ x ≠ [] := by
  have hclass := le_selectSizeClass hb
  have hsmall : ¬ selectSizeClass (UInt32.ofNat b.length) < 4 := by
    rw [UInt32.lt_iff_toNat_lt]
    simp only [UInt32.toNat_ofNat]
    omega
  generalize hc : selectSizeClass (UInt32.ofNat b.length) = c at hclass hsmall
  have hfull : (bigEndian32 b.length ++ b ++
    List.replicate (c.toNat - (bigEndian32 b.length ++ b).length) 0).take c.toNat =
      bigEndian32 b.length ++ (b ++ List.replicate (c.toNat - (b.length + 4)) 0) := by
    rw [List.length_append, length_bigEndian32, Nat.add_comm 4 b.length, List.append_assoc,
      List.take_of_length_le]
    simp only [List.length_append, length_bigEndian32, List.length_replicate]
    omega
  refine ⟨bigEndian32 b.length ++ (b ++ List.replicate (c.toNat - (b.length + 4)) 0), c, ?_, ?_,
    by simp [bigEndian32]⟩
  · unfold padded padPayload
    dsimp only
    rw [hc, if_neg hsmall, hfull]
    rfl
  · unfold Paddable at hb
    exact unpadPayload_filled (by omega) _

end Padding

section Wraps

variable {p : Primitives} {draws : Draws} {priv pub : Fixed 32}

def Draws.NonZero (p : Primitives) (draws : Draws) : Prop :=
  ∀ i ephPub, Crypto.x25519PublicFromPrivate p (draws.ephemeral i) = some ephPub → ephPub ≠ .zero 32

theorem wrapCEK_keys {cek : Bytes} {recipient : RecipientInfo} {ephPriv : Fixed 32}
    {nonce : Fixed 12} {record : RecipientRecord}
    (h : wrapCEK p cek recipient ephPriv nonce = some record) :
    record.recipientXPub = recipient.x25519Pub ∧ record.kdf = producerKDF ∧
      Crypto.x25519PublicFromPrivate p ephPriv = some record.ephemeralXPub := by
  unfold wrapCEK at h
  split at h
  · cases h
  · simp only [Option.bind_eq_bind, Option.bind_eq_some_iff] at h
    obtain ⟨ephPub, heph, shared, -, info, -, kwk, -, ⟨ciphertext, tag⟩, -, hrecord⟩ := h
    cases hrecord
    exact ⟨rfl, rfl, heph⟩

theorem unwrap_of_wrapFrom (hp : p.Lawful) (hdraws : draws.NonZero p)
    (hpub : Crypto.x25519PublicFromPrivate p priv = some pub) {i : ℕ}
    {recipients : List RecipientInfo} {records : List RecipientRecord}
    (hwrap : wrapFrom p draws i recipients = some records)
    (hmem : pub ∈ recipients.map RecipientInfo.x25519Pub) :
    ∃ record, (records.find? fun r => r.recipientXPub = pub) = some record ∧
      record.kdf = producerKDF ∧
      unwrapCEK p record priv pub = some draws.cek.val := by
  induction recipients generalizing i records with
  | nil => cases hmem
  | cons r recipients ih =>
    simp only [wrapFrom, Option.bind_eq_bind, Option.bind_eq_some_iff] at hwrap
    obtain ⟨record, hrecord, rest, hrest, heq⟩ := hwrap
    cases heq
    obtain ⟨hreader, hkdf, heph⟩ := wrapCEK_keys hrecord
    by_cases hr : r.x25519Pub = pub
    · subst hr
      refine ⟨record, by rw [List.find?_cons_of_pos (by simpa using hreader)], hkdf, ?_⟩
      exact unwrapCEK_wrapCEK hp hpub hrecord (hdraws i _ heph)
    · have hother : record.recipientXPub ≠ pub := by rwa [hreader]
      rw [List.find?_cons_of_neg (by simpa using hother)]
      apply ih hrest
      rw [List.map_cons, List.mem_cons] at hmem
      exact hmem.resolve_left fun heq => hr heq.symm

theorem exists_wrapFrom (hp : p.Lawful) (i : ℕ) {recipients : List RecipientInfo}
    (hkeys : ∀ r ∈ recipients, r.x25519Pub ≠ .zero 32 ∧
      ∃ priv, Crypto.x25519PublicFromPrivate p priv = some r.x25519Pub) :
    ∃ records, wrapFrom p draws i recipients = some records := by
  induction recipients generalizing i with
  | nil => exact ⟨[], rfl⟩
  | cons r recipients ih =>
    obtain ⟨hne, priv, hpub⟩ := hkeys r List.mem_cons_self
    obtain ⟨ephPub, heph⟩ := hp.generates (draws.ephemeral i)
    have hwrap := exists_wrapCEK hp hpub hne heph draws.cek.val r.deviceID (draws.wrapNonce i)
    obtain ⟨record, hrecord, -⟩ := hwrap
    change wrapCEK p draws.cek.val r (draws.ephemeral i) (draws.wrapNonce i) =
      some record at hrecord
    obtain ⟨records, hrecords⟩ := ih (i + 1) fun r' hr' => hkeys r' (List.mem_cons_of_mem r hr')
    refine ⟨record :: records, ?_⟩
    rw [wrapFrom, hrecord, hrecords]
    rfl

end Wraps

section Path

variable {rt : Runtime} {p : Primitives} {codecs : MessageCodecs} {draws : Draws}
  {sh : SignedHeader}
  {content : MessageContent} {recipients : List RecipientInfo} {senderPriv : Bytes}
    {env : EncryptedEnvelope}

def Primitives.Expands (p : Primitives) : Prop :=
  ∀ key nonce plaintext aad, plaintext.length + Crypto.aesGCMTagSize ≤
    (p.gcmSeal key nonce plaintext aad).length

def SignedHeader.bytes (codecs : MessageCodecs) (sh : SignedHeader) : Bytes :=
  codecs.signedHeader.marshalDeterministic ⟨some sh.header.toProto, sh.senderSignature.val⟩

def MessageContent.bytes (codecs : MessageCodecs) (content : MessageContent) : Bytes :=
  codecs.messageContent.marshalDeterministic content.toProto

structure SealedSplit (rt : Runtime) (p : Primitives) (codecs : MessageCodecs) (draws : Draws)
    (sh : SignedHeader) (content : MessageContent) (recipients : List RecipientInfo)
    (senderPriv : Bytes) (env : EncryptedEnvelope) : Prop where
  split : env.isSplit = true
  records : wrapFrom p draws 0 recipients = some env.recipients
  address : env.bodyContentAddress =
    computeBodyContentAddress rt env.bodyNonce.val env.encryptedBody env.bodyTag.val
  body : ∃ x, unpadPayload x = .ok (content.bytes codecs) ∧
    Crypto.aesGCMDecryptAAD p draws.cek.val env.bodyNonce.val env.encryptedBody env.bodyTag.val
      (bodyAAD producerKDF) =
      some x
  header : ∃ x, unpadPayload x =
    .ok ((sh.address rt codecs env.bodyContentAddress senderPriv).bytes codecs) ∧
    Crypto.aesGCMDecryptAAD p draws.cek.val env.headerNonce.val env.encryptedHeader
      env.headerTag.val
      (headerAAD producerKDF) = some x

theorem ciphertext_ne_nil (hexp : p.Expands) {key plaintext aad ciphertext tag : Bytes}
    {nonce : Fixed 12} (hne : plaintext ≠ [])
    (h : Crypto.aesGCMEncryptAAD p key nonce plaintext aad = some (ciphertext, tag)) :
    0 < ciphertext.length := by
  have hlength := hexp key nonce.val plaintext aad
  have hpos := List.length_pos_of_ne_nil hne
  unfold Crypto.aesGCMEncryptAAD at h
  split at h
  · cases h
  · cases h
    rw [List.length_take]
    omega

theorem exists_sealedSplit (hp : p.Lawful) (hexp : p.Expands) (draws : Draws) (sh : SignedHeader)
    (content : MessageContent) (hne : recipients ≠ [])
    (hkeys : ∀ r ∈ recipients, r.x25519Pub ≠ .zero 32 ∧
      ∃ priv, Crypto.x25519PublicFromPrivate p priv = some r.x25519Pub)
    (hpriv : senderPriv.length = ed25519SeedAndKeySize) (hbody : Paddable (content.bytes codecs))
    (hheader : ∀ nonce ciphertext tag,
      Paddable ((sh.address rt codecs (computeBodyContentAddress rt nonce ciphertext tag)
        senderPriv).bytes codecs)) :
    ∃ env, encryptSplit rt p codecs draws sh content recipients senderPriv = some env ∧
      SealedSplit rt p codecs draws sh content recipients senderPriv env := by
  obtain ⟨paddedBody, bClass, hpb, hub, -⟩ := unpad_padded hbody
  obtain ⟨bCT, bTag, hsb⟩ :=
    @aesGCMEncryptAAD_isSome p draws.cek.val draws.bodyNonce paddedBody (bodyAAD producerKDF)
      draws.cek.length_val
  obtain ⟨paddedHeader, hClass, hph, huh, hhne⟩ :=
    unpad_padded (hheader draws.bodyNonce.val bCT bTag)
  obtain ⟨hCT, hTag, hsh⟩ :=
    @aesGCMEncryptAAD_isSome p draws.cek.val draws.headerNonce paddedHeader (headerAAD producerKDF)
      draws.cek.length_val
  obtain ⟨records, hrecords⟩ := @exists_wrapFrom p draws hp 0 recipients hkeys
  have htag : (Fixed.copy 16 bTag).val = bTag := Fixed.val_copy_of_length (length_tag hp hsb)
  have htag' : (Fixed.copy 16 hTag).val = hTag := Fixed.val_copy_of_length (length_tag hp hsh)
  have hopen := decrypt_encrypt hp hsb
  have hopen' := decrypt_encrypt hp hsh
  have hsplit := ciphertext_ne_nil hexp hhne hsh
  unfold SignedHeader.bytes at hph
  unfold MessageContent.bytes at hpb
  unfold encryptSplit
  rw [if_neg hne, hpb]
  simp only [Option.bind_eq_bind, Option.bind_some]
  rw [hsb]
  simp only [Option.bind_some]
  rw [if_neg (not_not.mpr hpriv), hph]
  simp only [Option.bind_some]
  rw [hsh]
  simp only [Option.bind_some]
  rw [hrecords]
  refine ⟨_, rfl, ?_⟩
  constructor
  · simpa [EncryptedEnvelope.isSplit] using hsplit
  · exact hrecords
  · dsimp only
    rw [htag]
  · refine ⟨paddedBody, hub, ?_⟩
    dsimp only
    rw [htag]
    exact hopen
  · refine ⟨paddedHeader, huh, ?_⟩
    dsimp only
    rw [htag']
    exact hopen'

def SignedHeader.wholeSecond (sh : SignedHeader) : SignedHeader :=
  { sh with header := sh.header.wholeSecond }

variable {priv pub : Fixed 32}

theorem SealedSplit.unwrapFor
    (h : SealedSplit rt p codecs draws sh content recipients senderPriv env) (hp : p.Lawful)
    (hdraws : draws.NonZero p) (hpub : Crypto.x25519PublicFromPrivate p priv = some pub)
    (hmem : pub ∈ recipients.map RecipientInfo.x25519Pub) {env' : EncryptedEnvelope}
    (hsame : env'.recipients = env.recipients) :
    unwrapFor p env' priv pub = .ok (draws.cek.val, producerKDF) := by
  obtain ⟨record, hfind, hkdf, hunwrap⟩ := unwrap_of_wrapFrom hp hdraws hpub h.records hmem
  unfold Dmcn.unwrapFor EncryptedEnvelope.recordFor
  rw [hsame, hfind, need, ok_bind, hunwrap, need, ok_bind, hkdf]
  rfl

theorem verify_address
    (hsign : ∀ m, Crypto.verify rt sh.header.senderPublicKey m (rt.ed25519Sign senderPriv m) = true)
    (addr : Bytes) : (sh.address rt codecs addr senderPriv).wholeSecond.verify rt codecs =
    true := by
  let header : MessageHeader := { sh.header with bodyContentAddress := addr }
  let signable :=
    SignedHeader.ctxMsgHeader ++ codecs.messageHeader.marshalDeterministic header.toProto
  have hverify := hsign signable
  have hlength : (rt.ed25519Sign senderPriv signable).length = 64 := by
    simp only [Crypto.verify, Bool.and_eq_true, beq_iff_eq] at hverify
    exact hverify.1.2
  have hcopy : (Fixed.copy 64 (rt.ed25519Sign senderPriv signable)).val =
      rt.ed25519Sign senderPriv signable :=
    Fixed.val_copy_of_length hlength
  unfold SignedHeader.verify SignedHeader.headerSignableBytes SignedHeader.wholeSecond
    SignedHeader.address SignedHeader.sign
  dsimp only
  rw [MessageHeader.toProto_wholeSecond]
  change Crypto.verify rt sh.header.senderPublicKey signable
    (Fixed.copy 64 (rt.ed25519Sign senderPriv signable)).val = true
  rw [hcopy]
  exact hverify

theorem SealedSplit.decryptHeader
    (h : SealedSplit rt p codecs draws sh content recipients senderPriv env) (hp : p.Lawful)
    (hdraws : draws.NonZero p) (hpub : Crypto.x25519PublicFromPrivate p priv = some pub)
    (hmem : pub ∈ recipients.map RecipientInfo.x25519Pub)
    (hsign : ∀ m, Crypto.verify rt sh.header.senderPublicKey m (rt.ed25519Sign senderPriv m) =
      true) :
    decryptHeader rt p codecs (Mailbox.keptHeader env) priv pub =
      .ok (sh.address rt codecs env.bodyContentAddress senderPriv).wholeSecond := by
  obtain ⟨x, hunpad, hopen⟩ := h.header
  have hplaintext : headerPlaintext p (Mailbox.keptHeader env) priv pub = .ok x := by
    have hunwrap : Dmcn.unwrapFor p (Mailbox.keptHeader env) priv pub =
        .ok (draws.cek.val, producerKDF) :=
      h.unwrapFor hp hdraws hpub hmem rfl
    unfold headerPlaintext
    rw [hunwrap, require, if_pos (show (Mailbox.keptHeader env).isSplit = true from h.split),
      ok_bind, ok_bind]
    change need (Crypto.aesGCMDecryptAAD p draws.cek.val env.headerNonce.val env.encryptedHeader
      env.headerTag.val
      (headerAAD producerKDF)) OpenError.decryptionFailed = .ok x
    rw [hopen]
    rfl
  have hverify : (sh.address rt codecs env.bodyContentAddress senderPriv).wholeSecond.verify rt
      codecs = true :=
    verify_address hsign env.bodyContentAddress
  unfold Dmcn.decryptHeader readHeader
  rw [hplaintext, wrap, ok_bind, hunpad, ok_bind, SignedHeader.bytes, Codec.unmarshal_deterministic,
    need, ok_bind]
  dsimp only
  rw [messageHeaderFromProto, need, ok_bind, MessageHeader.fromProto_toProto, pure_bind,
    Fixed.copy_val]
  change (require ((sh.address rt codecs env.bodyContentAddress senderPriv).wholeSecond.verify rt
    codecs = true) _ >>= _) = _
  rw [require, if_pos hverify, ok_bind]
  rfl

theorem SealedSplit.bodyPlaintext
    (h : SealedSplit rt p codecs draws sh content recipients senderPriv env) (hp : p.Lawful)
    (hdraws : draws.NonZero p) (hpub : Crypto.x25519PublicFromPrivate p priv = some pub)
    (hmem : pub ∈ recipients.map RecipientInfo.x25519Pub) (addr : Bytes) :
    ∃ x, unpadPayload x = .ok (content.bytes codecs) ∧
      bodyPlaintext p { Mailbox.kept env with bodyContentAddress := addr } priv pub = .ok x := by
  obtain ⟨x, hunpad, hopen⟩ := h.body
  refine ⟨x, hunpad, ?_⟩
  have hunwrap : Dmcn.unwrapFor p { Mailbox.kept env with bodyContentAddress := addr } priv pub =
      .ok (draws.cek.val, producerKDF) := h.unwrapFor hp hdraws hpub hmem rfl
  have hsplit : EncryptedEnvelope.isSplit { Mailbox.kept env with bodyContentAddress := addr } =
    true := h.split
  unfold Dmcn.bodyPlaintext
  rw [hunwrap, require, if_pos hsplit, ok_bind, ok_bind]
  change need (Crypto.aesGCMDecryptAAD p draws.cek.val env.bodyNonce.val env.encryptedBody
    env.bodyTag.val
    (bodyAAD producerKDF)) OpenError.decryptionFailed = .ok x
  rw [hopen]
  rfl

theorem SealedSplit.decryptBody
    (h : SealedSplit rt p codecs draws sh content recipients senderPriv env) (hp : p.Lawful)
    (hdraws : draws.NonZero p) (hpub : Crypto.x25519PublicFromPrivate p priv = some pub)
    (hmem : pub ∈ recipients.map RecipientInfo.x25519Pub) {header : MessageHeader}
    (hhash : content.hash rt codecs = header.bodyHash)
    (haddr : header.bodyContentAddress = env.bodyContentAddress)
    (addr : Bytes) :
    decryptBody rt p codecs { Mailbox.kept env with bodyContentAddress := addr } priv pub header =
      .ok content := by
  obtain ⟨x, hunpad, hplaintext⟩ := h.bodyPlaintext hp hdraws hpub hmem addr
  unfold Dmcn.decryptBody readBody
  rw [hplaintext, wrap, ok_bind, hunpad, ok_bind, MessageContent.bytes,
    Codec.unmarshal_deterministic, need, ok_bind]
  dsimp only
  rw [MessageContent.fromProto_toProto, require, if_pos hhash, ok_bind, refuse, if_neg, ok_bind]
  · rfl
  · rw [haddr, h.address]
    exact fun hdiffers => hdiffers.2 rfl

theorem EncryptedEnvelope.bodyBlob_inj {env env' : EncryptedEnvelope}
    (h : env'.bodyBlob = env.bodyBlob) :
    env'.bodyNonce = env.bodyNonce ∧ env'.encryptedBody = env.encryptedBody ∧
      env'.bodyTag = env.bodyTag := by
  unfold bodyBlob at h
  rw [List.append_assoc, List.append_assoc] at h
  obtain ⟨hnonce, hrest⟩ := List.append_inj h (by rw [Fixed.length_val, Fixed.length_val])
  have hbody := List.append_inj_left' hrest (by rw [Fixed.length_val, Fixed.length_val])
  have htag := List.append_inj_right' hrest (by rw [Fixed.length_val, Fixed.length_val])
  exact ⟨Fixed.ext hnonce, hbody, Fixed.ext htag⟩

theorem address_of_decryptBody {header : MessageHeader} {env' : EncryptedEnvelope}
    {c : MessageContent} (hne : header.bodyContentAddress ≠ [])
    (hopen : decryptBody rt p codecs env' priv pub header = .ok c) :
    computeBodyContentAddress rt env'.bodyNonce.val env'.encryptedBody env'.bodyTag.val =
      header.bodyContentAddress := by
  unfold Dmcn.decryptBody readBody at hopen
  simp only [bind_eq_ok, need_eq_ok, require_eq_ok, refuse_eq_ok, pure_eq_ok] at hopen
  obtain ⟨padded, -, unpadded, -, pb, -, -, -, -, hmatches, -⟩ := hopen
  by_contra hdiffers
  exact hmatches ⟨hne, hdiffers⟩

end Path

section Reader

variable {rt : Runtime} {p : Primitives} {codecs : MessageCodecs} {mrt : MailboxRuntime}
  {base : Disk}
  {cs : List MailboxCall} {hash : Fixed 32} {env : EncryptedEnvelope} {storedAt : Time}
    {priv pub : Fixed 32}

def openStored (rt : Runtime) (p : Primitives) (codecs : MessageCodecs) (mrt : MailboxRuntime)
    (disk : Disk) (priv pub : Fixed 32) (entry : Pb.MailboxEntry) :
    Option (SignedHeader × MessageContent) := do
  let listed ← (Mailbox.envelopeFromEntry entry).toOption
  let sh ← (decryptHeader rt p codecs listed priv pub).toOption
  let body ← Mailbox.getBody mrt disk (Hex.encode pub.val) (Fixed.copy 32 entry.hash)
  let whole ← (Mailbox.envelopeFromParts entry body).toOption
  let content ← (decryptBody rt p codecs whole priv pub sh.header).toOption
  return (sh, content)

theorem entry_of_held (hbase : Mailbox.Foreign base)
    (hheld : ⟨pub, hash, env, storedAt⟩ ∈ Mail.held cs) {key : Key}
    {entry : Pb.MailboxEntry} (hread : Mailbox.Readable mrt (Mailbox.run mrt base cs) pub key entry)
    (hhash : entry.hash = hash.val) : entry = Mailbox.entryOf hash env storedAt := by
  obtain ⟨hunder, value, hlookup, hvalue⟩ := hread
  have hholds := Mailbox.holds_run mrt hbase cs
  have hpre : mboxHeaderPrefix <+: Mailbox.headerPrefix (Hex.encode pub.val) := by
    rw [Dmcn.headerPrefix_eq]
    exact ⟨[Hex.encode pub.val], rfl⟩
  obtain ⟨m, hm, hfiled⟩ := List.mem_map.mp ((hholds.mem_headers hbase hpre).mpr ⟨hlookup, hunder⟩)
  obtain ⟨hmheld, hrx⟩ := List.mem_filter.mp hm
  rw [Mailbox.under_headerPrefix, decide_eq_true_iff] at hrx
  cases hfiled
  rw [Codec.unmarshal_marshal] at hvalue
  have hentry := Option.some.inj hvalue
  subst hentry
  have hsame : m.hash = hash := Fixed.ext hhash
  have hpair : m.pair = (Mail.mk pub hash env storedAt).pair := by
    unfold Mail.pair
    rw [hrx, hsame]
  rw [hholds.eq_of_pair hmheld hheld hpair]

theorem readable_of_held (hbase : Mailbox.Foreign base)
    (hheld : ⟨pub, hash, env, storedAt⟩ ∈ Mail.held cs) :
    Mailbox.Readable mrt (Mailbox.run mrt base cs) pub (Mail.mk pub hash env storedAt).header
      (Mailbox.entryOf hash env storedAt) := by
  have hholds := Mailbox.holds_run mrt hbase cs
  refine ⟨?_, _, hholds.lookup_mail hheld (Mailbox.mem_writes_header _),
    mrt.entry.unmarshal_marshal _⟩
  rw [Mailbox.under_headerPrefix]
  exact decide_eq_true rfl

theorem getBody_of_held (hbase : Mailbox.Foreign base)
    (hheld : ⟨pub, hash, env, storedAt⟩ ∈ Mail.held cs) :
    Mailbox.getBody mrt (Mailbox.run mrt base cs) (Hex.encode pub.val) hash =
      some (Mailbox.bodyOf env) := by
  have hholds := Mailbox.holds_run mrt hbase cs
  have hfiled : ((Mail.mk pub hash env storedAt).body, mrt.body.marshal (Mailbox.bodyOf env)) ∈
      (Mail.mk pub hash env storedAt).writes mrt := by simp [Mail.writes]
  have hlookup := hholds.lookup_mail hheld hfiled
  unfold Mailbox.getBody
  rw [Dmcn.bodyKey_eq]
  change (AList.lookup (Mail.mk pub hash env storedAt).body (Mailbox.run mrt base cs) >>= _) = _
  rw [hlookup]
  exact mrt.body.unmarshal_marshal _

theorem SealedSplit.openStored {draws : Draws} {sh : SignedHeader} {content : MessageContent}
    {recipients : List RecipientInfo} {senderPriv : Bytes}
    (h : SealedSplit rt p codecs draws sh content recipients senderPriv env) (hp : p.Lawful)
    (hdraws : draws.NonZero p) (hpub : Crypto.x25519PublicFromPrivate p priv = some pub)
    (hmem : pub ∈ recipients.map RecipientInfo.x25519Pub)
    (hsign : ∀ m, Crypto.verify rt sh.header.senderPublicKey m (rt.ed25519Sign senderPriv m) = true)
    (hhash : content.hash rt codecs = sh.header.bodyHash) (hbase : Mailbox.Foreign base)
    (hheld : ⟨pub, hash, env, storedAt⟩ ∈ Mail.held cs) :
    openStored rt p codecs mrt (Mailbox.run mrt base cs) priv pub
      (Mailbox.entryOf hash env storedAt) =
      some ((sh.address rt codecs env.bodyContentAddress senderPriv).wholeSecond, content) := by
  have hhashed : Fixed.copy 32 (Mailbox.entryOf hash env storedAt).hash = hash :=
    Fixed.copy_val hash
  have hopened : Dmcn.decryptBody rt p codecs (Mailbox.kept env) priv pub
      (sh.address rt codecs env.bodyContentAddress senderPriv).wholeSecond.header =
        .ok content := by
    apply h.decryptBody hp hdraws hpub hmem ?_ ?_ env.bodyContentAddress
    · exact hhash
    · rfl
  unfold Dmcn.openStored
  rw [Mailbox.envelopeFromEntry_entryOf h.split, hhashed, getBody_of_held hbase hheld]
  simp only [Except.toOption, Option.bind_eq_bind, Option.bind_some]
  rw [h.decryptHeader hp hdraws hpub hmem hsign, Mailbox.envelopeFromParts_bodyOf h.split]
  simp only [Option.bind_some]
  rw [hopened]
  rfl

theorem swapped_body {header : MessageHeader} {env' : EncryptedEnvelope} {c : MessageContent}
    (haddr : header.bodyContentAddress = computeBodyContentAddress rt env.bodyNonce.val
      env.encryptedBody env.bodyTag.val)
    (hopen : decryptBody rt p codecs env' priv pub header = .ok c) :
    (env'.bodyNonce = env.bodyNonce ∧ env'.encryptedBody = env.encryptedBody ∧
      env'.bodyTag = env.bodyTag) ∨
      env'.bodyBlob ≠ env.bodyBlob ∧ rt.sha256 env'.bodyBlob = rt.sha256 env.bodyBlob := by
  have hne : header.bodyContentAddress ≠ [] := by
    rw [haddr]
    exact List.cons_ne_nil _ _
  have hsame := address_of_decryptBody hne hopen
  rw [haddr] at hsame
  have hhash : rt.sha256 env'.bodyBlob = rt.sha256 env.bodyBlob := List.append_cancel_left hsame
  by_cases hblob : env'.bodyBlob = env.bodyBlob
  · exact .inl (EncryptedEnvelope.bodyBlob_inj hblob)
  · exact .inr ⟨hblob, hhash⟩

structure Opened (rt : Runtime) (p : Primitives) (codecs : MessageCodecs) (sh : SignedHeader)
    (content : MessageContent) (env : EncryptedEnvelope) (priv pub : Fixed 32)
    (sh' : SignedHeader) : Prop where
  /-- The header is the one that was split off, with the address of the body, in whole seconds. -/
  header : sh'.header = { sh.header with bodyContentAddress := env.bodyContentAddress }.wholeSecond
  signed : sh'.verify rt codecs = true
  snippet : verifySnippet sh'.header content = true
  /-- Another body, nonce or tag does not open, unless SHA-256 collides. -/
  bound : ∀ env' c, decryptBody rt p codecs env' priv pub sh'.header = .ok c →
    (env'.bodyNonce = env.bodyNonce ∧ env'.encryptedBody = env.encryptedBody ∧
      env'.bodyTag = env.bodyTag) ∨
      env'.bodyBlob ≠ env.bodyBlob ∧ rt.sha256 env'.bodyBlob = rt.sha256 env.bodyBlob
  /-- Under another address in its header the body does not open. -/
  addressed : ∀ addr ≠ [], addr ≠ env.bodyContentAddress →
    ∀ c, decryptBody rt p codecs (Mailbox.kept env) priv pub
      { sh'.header with bodyContentAddress := addr } ≠ .ok c

theorem exists_split (rt : Runtime) (codecs : MessageCodecs) (msg : PlaintextMessage)
    {senderPriv : Bytes} (hpriv : senderPriv.length = ed25519SeedAndKeySize) :
    ∃ sh content, split rt codecs msg senderPriv = some (sh, content) ∧ sh.header.senderPublicKey =
      msg.senderPublicKey ∧
      content.hash rt codecs = sh.header.bodyHash ∧ sh.header.snippet = snippetOf content.body := by
  unfold split
  dsimp only
  rw [if_neg (not_not.mpr hpriv)]
  exact ⟨_, _, rfl, rfl, rfl, rfl⟩

/-- A message that is split, sealed for a reader and held in their mailbox is listed there, and
opens as it was. -/
theorem split_message_survives (rt : Runtime) (p : Primitives) (codecs : MessageCodecs)
    (mrt : MailboxRuntime) (hp : p.Lawful) (hexp : p.Expands) (draws : Draws)
    (hdraws : draws.NonZero p) (msg : PlaintextMessage) (senderPriv : Bytes)
    (hpriv : senderPriv.length = ed25519SeedAndKeySize)
    (hsign : ∀ m, Crypto.verify rt msg.senderPublicKey m (rt.ed25519Sign senderPriv m) = true)
    (recipients : List RecipientInfo)
    (hkeys : ∀ r ∈ recipients, r.x25519Pub ≠ .zero 32 ∧
      ∃ priv, Crypto.x25519PublicFromPrivate p priv = some r.x25519Pub)
    {priv pub : Fixed 32} (hpub : Crypto.x25519PublicFromPrivate p priv = some pub)
    (hmem : pub ∈ recipients.map RecipientInfo.x25519Pub) :
    ∃ sh content, split rt codecs msg senderPriv = some (sh, content) ∧
      (Paddable (content.bytes codecs) →
        (∀ nonce ciphertext tag,
          Paddable ((sh.address rt codecs (computeBodyContentAddress rt nonce ciphertext tag)
            senderPriv).bytes codecs)) →
        ∃ env, encryptSplit rt p codecs draws sh content recipients senderPriv = some env ∧
          env.isSplit = true ∧ ∃ sh', Opened rt p codecs sh content env priv pub sh' ∧
            ∀ base, Mailbox.Foreign base → ∀ cs hash storedAt, ⟨pub, hash, env, storedAt⟩ ∈
              Mail.held cs → (∃ key entry, Mailbox.Readable mrt (Mailbox.run mrt base cs) pub key
                entry ∧ entry.hash = hash.val) ∧
              ∀ key entry, Mailbox.Readable mrt (Mailbox.run mrt base cs) pub key entry →
                entry.hash = hash.val → openStored rt p codecs mrt (Mailbox.run mrt base cs) priv
                  pub entry = some (sh', content)) := by
  obtain ⟨sh, content, hsplit, hkey, hhash, hsnippet⟩ := exists_split rt codecs msg hpriv
  refine ⟨sh, content, hsplit, fun hbody hheader => ?_⟩
  have hne : recipients ≠ [] := by
    rintro rfl
    cases hmem
  rw [← hkey] at hsign
  obtain ⟨env, hseal, hsealed⟩ :=
    exists_sealedSplit hp hexp draws sh content hne hkeys hpriv hbody hheader
  refine ⟨env, hseal, hsealed.split,
    (sh.address rt codecs env.bodyContentAddress senderPriv).wholeSecond, ?_, ?_⟩
  · constructor
    · rfl
    · exact verify_address hsign env.bodyContentAddress
    · exact decide_eq_true hsnippet
    · intro env' c hopen
      exact swapped_body hsealed.address hopen
    · intro addr hne' haddr c hopen
      apply haddr
      rw [hsealed.address]
      exact (address_of_decryptBody hne' hopen).symm
  · intro base hbase cs hash storedAt hheld
    refine ⟨⟨_, _, readable_of_held hbase hheld, rfl⟩, fun key entry hread hentry => ?_⟩
    rw [entry_of_held hbase hheld hread hentry]
    exact hsealed.openStored hp hdraws hpub hmem hsign hhash hbase hheld

end Reader

section Limit

theorem padded_eq_none {b : Bytes} (hlength : b.length = 2 ^ 32 - 2 ^ 20) : padded b = none := by
  have hclass : selectSizeClass (UInt32.ofNat (2 ^ 32 - 2 ^ 20)) < 4 := by decide
  unfold padded padPayload
  dsimp only
  rw [hlength, if_pos hclass]
  rfl

end Limit

namespace Hello

def sender : Bytes := keyOf 1

def senderPriv : Bytes := List.replicate 64 0

def reader : Fixed 32 := Fixed.copy 32 (keyOf 2)

def draws : Draws :=
  ⟨.zero 32, .zero 12, .zero 12, .zero 12, fun _ => Fixed.copy 32 (keyOf 3), fun _ => .zero 12⟩

def msg : PlaintextMessage where
  version := 1
  messageID := .zero 16
  threadID := .zero 16
  senderAddress := "alice@example.com"
  senderPublicKey := sender
  recipientAddress := "bob@example.com"
  sentAt := Time.ofUnix 1000
  subject := "Hello"
  body := ⟨"text/plain", [72, 101, 108, 108, 111]⟩
  attachments := []
  replyToID := .zero 16
  alternatives := []
  senderDisplay := "Alice"

noncomputable def rt : Runtime := idealRuntime [sender] []

def content : MessageContent := ⟨msg.body, msg.attachments, msg.alternatives⟩

noncomputable def contentCodecs : MessageCodecs :=
  ⟨someCodec _, someCodec _, someCodec _, someCodec _,
    (Codec.exists_short fun _ : Fixed 0 => content.toProto).choose⟩

noncomputable def headerAt (address : Fixed 32) : SignedHeader :=
  ((split rt contentCodecs msg senderPriv).get rfl).1.address rt contentCodecs
    ([0x01, 0x55, 0x12, 0x20] ++ address.val)
    senderPriv

noncomputable def codecs : MessageCodecs :=
  { contentCodecs with
    signedHeader := (Codec.exists_short fun x : Fixed 32 =>
      (⟨some (headerAt x).header.toProto, (headerAt x).senderSignature.val⟩ :
        Pb.SignedHeader)).choose }

noncomputable def sh : SignedHeader := ((split rt codecs msg senderPriv).get rfl).1

theorem split_msg : split rt codecs msg senderPriv = some (sh, content) := rfl

theorem signs (m : Bytes) : Crypto.verify rt sender m (rt.ed25519Sign senderPriv m) = true := by
  have h := @signsFor_held [sender] [] sender senderPriv (List.mem_singleton_self sender)
    (length_keyOf 1)
  exact h m

theorem paddable_content : Paddable (content.bytes codecs) := by
  have hshort : (content.bytes codecs).length ≤ 0 + 1 :=
    (Codec.exists_short fun _ : Fixed 0 => content.toProto).choose_spec (.zero 0)
  exact paddable_of_short (hshort.trans (by decide))

theorem headerAt_blob (nonce ciphertext tag : Bytes) :
    headerAt (Fixed.copy 32 (nonce ++ ciphertext ++ tag)) =
    sh.address rt codecs (computeBodyContentAddress rt nonce ciphertext tag) senderPriv := rfl

theorem paddable_header (nonce ciphertext tag : Bytes) :
    Paddable ((sh.address rt codecs (computeBodyContentAddress rt nonce ciphertext tag)
      senderPriv).bytes codecs) := by
  have hshort := (Codec.exists_short fun x : Fixed 32 => (⟨some (headerAt x).header.toProto,
    (headerAt x).senderSignature.val⟩ : Pb.SignedHeader)).choose_spec
      (Fixed.copy 32 (nonce ++ ciphertext ++ tag))
  rw [headerAt_blob] at hshort
  have hbytes : ∀ s : SignedHeader, s.bytes codecs = (Codec.exists_short fun x : Fixed 32 =>
      (⟨some (headerAt x).header.toProto, (headerAt x).senderSignature.val⟩ :
        Pb.SignedHeader)).choose.marshalDeterministic
        ⟨some s.header.toProto, s.senderSignature.val⟩ := fun _ => rfl
  rw [hbytes]
  exact paddable_of_short (hshort.trans (by decide))

theorem expands_plain : plainPrimitives.Expands := by
  intro key nonce plaintext aad
  unfold plainPrimitives Crypto.aesGCMTagSize
  simp only [List.length_append, List.length_cons, List.length_replicate]
  omega

theorem draws_nonZero : draws.NonZero plainPrimitives := by
  intro i ephPub heph
  rw [public_plain] at heph
  rw [← Option.some.inj heph]
  exact show Fixed.copy 32 (keyOf 3) ≠ .zero 32 by decide

def recipients : List RecipientInfo := [⟨.zero 16, reader⟩]

theorem genuine_recipients : ∀ r ∈ recipients, r.x25519Pub ≠ .zero 32 ∧
    ∃ priv, Crypto.x25519PublicFromPrivate plainPrimitives priv = some r.x25519Pub := by
  intro r hr
  rw [List.mem_singleton.mp hr]
  exact ⟨by decide, reader, public_plain reader⟩

def oneStore (env : EncryptedEnvelope) : List MailboxCall :=
  [.store reader (.zero 32) env (Time.ofUnix 7)]

theorem held_oneStore {env : EncryptedEnvelope} (hsplit : env.isSplit = true) :
    ⟨reader, .zero 32, env, Time.ofUnix 7⟩ ∈ Mail.held (oneStore env) := by
  unfold oneStore Mail.held Mail.next
  simp [Machine.run, hsplit]

theorem hello_survives : ∃ env, encryptSplit rt plainPrimitives codecs draws sh content recipients
    senderPriv = some env ∧
    ∃ sh', Opened rt plainPrimitives codecs sh content env reader reader sh' ∧
      ∃ key entry, Mailbox.Readable Mailbox.idealRuntime
      (Mailbox.run Mailbox.idealRuntime ∅ (oneStore env)) reader key entry ∧
        openStored rt plainPrimitives codecs Mailbox.idealRuntime
        (Mailbox.run Mailbox.idealRuntime ∅ (oneStore env)) reader
          reader entry = some (sh', content) := by
  obtain ⟨sh₁, content₁, hsplit, hsurvives⟩ :=
    split_message_survives rt plainPrimitives codecs Mailbox.idealRuntime
    plainPrimitives_ideal.toLawful expands_plain draws draws_nonZero msg senderPriv (by decide)
      signs recipients
    genuine_recipients (public_plain reader) (List.mem_singleton_self reader)
  rw [split_msg] at hsplit
  cases hsplit
  obtain ⟨env, hseal, henv, sh', hopened, hread⟩ := hsurvives paddable_content paddable_header
  refine ⟨env, hseal, sh', hopened, ?_⟩
  obtain ⟨⟨key, entry, hentry, hhash⟩, hall⟩ :=
    hread ∅ (fun _ _ => rfl) (oneStore env) (.zero 32) (Time.ofUnix 7) (held_oneStore henv)
  exact ⟨key, entry, hentry, hall key entry hentry hhash⟩

/-- The header that is read is not the one that was split off, an envelope with any other content
address in the clear opens as well, and a content of 4 GiB less 1 MiB is not sealed at all. -/
theorem hello_readdressed :
    (∃ env sh', encryptSplit rt plainPrimitives codecs draws sh content recipients senderPriv =
      some env ∧ decryptHeader rt plainPrimitives codecs (Mailbox.keptHeader env) reader reader =
        .ok sh' ∧ sh' ≠ sh ∧
      ∀ addr, decryptBody rt plainPrimitives codecs
        { Mailbox.kept env with bodyContentAddress := addr } reader reader
        sh'.header = .ok content) ∧
    ∀ large : MessageContent, (large.bytes codecs).length = 2 ^ 32 - 2 ^ 20 →
      encryptSplit rt plainPrimitives codecs draws sh large recipients senderPriv = none := by
  constructor
  · obtain ⟨env, hseal, hsealed⟩ :=
      exists_sealedSplit plainPrimitives_ideal.toLawful expands_plain draws sh content
      (List.cons_ne_nil _ _) genuine_recipients
        (show senderPriv.length = ed25519SeedAndKeySize by decide) paddable_content
      paddable_header
    have hmem : reader ∈ recipients.map RecipientInfo.x25519Pub := List.mem_singleton_self reader
    refine ⟨env, (sh.address rt codecs env.bodyContentAddress senderPriv).wholeSecond, hseal, ?_,
      ?_, fun addr => ?_⟩
    · exact hsealed.decryptHeader plainPrimitives_ideal.toLawful draws_nonZero (public_plain reader)
        hmem signs
    · intro hsame
      have haddr := congrArg (fun s : SignedHeader => s.header.bodyContentAddress) hsame
      change env.bodyContentAddress = [] at haddr
      rw [hsealed.address] at haddr
      cases haddr
    · apply hsealed.decryptBody plainPrimitives_ideal.toLawful draws_nonZero (public_plain reader)
        hmem ?_ ?_ addr
      · rfl
      · rfl
  · intro large hlarge
    have hne : recipients ≠ [] := List.cons_ne_nil _ _
    have hpadded : padded (codecs.messageContent.marshalDeterministic large.toProto) = none :=
      padded_eq_none hlarge
    unfold encryptSplit
    rw [if_neg hne, hpadded]
    rfl

end Hello

end Dmcn
