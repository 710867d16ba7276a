import OpenDmcn.Bridge.Types
import OpenDmcn.IdealRuntime
import OpenDmcn.Message.Seal

/-! Hostile mail (`decryptForBridge` of `bridge/outbound.go`, over `encrypt.go` and `split.go`). A
sender who knows the key of the bridge chooses what its ciphers decrypt to. Opening that mail ends
with an error or with something signed, unless the sub-message that it is about is missing, or its
length is one that 32 bits do not hold. -/

namespace Dmcn

open Go Guard

namespace Bridge

variable (rt : Runtime) (p : Primitives) (codecs : MessageCodecs) (env : EncryptedEnvelope)
  (priv pub : Fixed 32)

def reassemble (h : MessageHeader) (content : MessageContent) : PlaintextMessage where
  version := h.version
  messageID := h.messageID
  threadID := h.threadID
  senderAddress := h.senderAddress
  senderPublicKey := h.senderPublicKey
  recipientAddress := h.recipientAddress
  sentAt := h.sentAt
  subject := h.subject
  body := content.body
  attachments := content.attachments
  replyToID := h.replyToID
  alternatives := content.alternatives
  senderDisplay := ""

def decryptForBridge : Except Fault (PlaintextMessage × Audience) := do
  if env.isSplit = false then
    let sm ← decrypt rt p codecs env priv pub
    require (sm.verify rt codecs = true) (.error .invalidSignature)
    return (sm.plaintext, ⟨[], []⟩)
  else
    let sh ← decryptHeader rt p codecs env priv pub
    require (sh.verify rt codecs = true) (.error .invalidSignature)
    let content ← decryptBody rt p codecs env priv pub sh.header
    return (reassemble sh.header content, ⟨sh.header.toAddrs, sh.header.cc⟩)

end Bridge

section Faults

variable {α β : Type}

def Returns (x : Except Fault α) : Prop := x ≠ .error .panic

theorem returns_bind_iff {x : Except Fault α} {f : α → Except Fault β} :
    Returns (x >>= f) ↔ Returns x ∧ ∀ a, x = .ok a → Returns (f a) := by
  unfold Returns
  rw [Ne, bind_eq_error, not_or]
  constructor
  · rintro ⟨hx, hf⟩
    exact ⟨hx, fun a ha herror => hf ⟨a, ha, herror⟩⟩
  · rintro ⟨hx, hf⟩
    exact ⟨hx, fun ⟨a, ha, herror⟩ => hf a ha herror⟩

@[simp] theorem returns_pure (a : α) : Returns (pure a : Except Fault α) := by
  intro h
  cases h

@[simp] theorem returns_wrap (x : Except OpenError α) : Returns (wrap Fault.error x) := by
  intro h
  obtain ⟨d, -, hd⟩ := wrap_eq_error.mp h
  cases hd

@[simp] theorem returns_need_error (o : Option α) (e : OpenError) :
    Returns (need o (Fault.error e)) := by
  cases o with
  | none =>
    intro h
    cases h
  | some a => exact returns_pure a

@[simp] theorem returns_need_panic {o : Option α} : Returns (need o Fault.panic) ↔ o ≠ none := by
  cases o with
  | none => simp [Returns, need]
  | some a => simp [Returns, need]

@[simp] theorem returns_require_error (c : Prop) [Decidable c] (e : OpenError) :
    Returns (require c (Fault.error e)) := by
  intro h
  cases (require_eq_error.mp h).2

@[simp] theorem returns_refuse_error (c : Prop) [Decidable c] (e : OpenError) :
    Returns (refuse c (Fault.error e)) := by
  intro h
  cases (refuse_eq_error.mp h).2

@[simp] theorem returns_refuse_panic {c : Prop} [Decidable c] : Returns (refuse c Fault.panic) ↔
    ¬ c := by
  unfold Returns
  rw [Ne, refuse_eq_error]
  simp

end Faults

section Conditions

def LengthFits (padded : Bytes) : Prop :=
  readBigEndian32 padded < 2 ^ 32 - 4 ∨ padded.length < readBigEndian32 padded + 4

def HasMessage (codecs : MessageCodecs) (padded : Bytes) : Prop :=
  LengthFits padded ∧ ∀ payload, unpadPayload padded = .ok payload →
    ∀ pb, codecs.signedMessage.unmarshal payload = some pb → pb.plaintext ≠ none

def HasHeader (codecs : MessageCodecs) (padded : Bytes) : Prop :=
  LengthFits padded ∧ ∀ payload, unpadPayload padded = .ok payload →
    ∀ pb, codecs.signedHeader.unmarshal payload = some pb → pb.header ≠ none

theorem readBigEndian32_lt (b : Bytes) : readBigEndian32 b < 2 ^ 32 := by
  unfold readBigEndian32
  have h0 := (b.getD 0 0).toNat_lt
  have h1 := (b.getD 1 0).toNat_lt
  have h2 := (b.getD 2 0).toNat_lt
  have h3 := (b.getD 3 0).toNat_lt
  omega

theorem returns_unpadPayload_iff {padded : Bytes} : Returns (unpadPayload padded) ↔
    LengthFits padded := by
  have hlt := readBigEndian32_lt padded
  have hshort : padded.length < 4 → readBigEndian32 padded < 2 ^ 32 - 4 := by
    intro hlength
    have hlast : padded.getD 3 0 = 0 := by
      rw [List.getD_eq_getElem?_getD, List.getElem?_eq_none (by omega), Option.getD_none]
    have h0 := (padded.getD 0 0).toNat_lt
    have h1 := (padded.getD 1 0).toNat_lt
    have h2 := (padded.getD 2 0).toNat_lt
    unfold readBigEndian32
    rw [hlast]
    simp only [UInt8.toNat_ofNat]
    omega
  unfold unpadPayload LengthFits
  simp only [returns_bind_iff, returns_refuse_error, returns_refuse_panic, returns_pure,
    refuse_eq_ok, true_and, and_true, implies_true]
  constructor
  · intro h
    by_contra hnot
    rw [not_or] at hnot
    obtain ⟨hlarge, hroom⟩ := hnot
    have hlong : 4 ≤ padded.length := by omega
    exact h () (by omega) () (by omega) (by omega)
  · rintro h - hlong - hroom
    rcases h with hfits | hover
    · omega
    · omega

theorem returns_readPayload_iff {rt : Runtime} {codecs : MessageCodecs} {env : EncryptedEnvelope}
    {padded : Bytes} :
    Returns (readPayload rt codecs env padded) ↔ HasMessage codecs padded := by
  unfold readPayload HasMessage signedMessageFromProto
  simp only [returns_bind_iff, returns_unpadPayload_iff, returns_need_error, returns_need_panic,
    returns_require_error, returns_refuse_error, returns_pure, need_eq_ok, true_and, and_true,
      implies_true]

theorem returns_readHeader_iff {rt : Runtime} {codecs : MessageCodecs} {padded : Bytes} :
    Returns (readHeader rt codecs padded) ↔ HasHeader codecs padded := by
  unfold readHeader HasHeader messageHeaderFromProto
  simp only [returns_bind_iff, returns_unpadPayload_iff, returns_need_error, returns_need_panic,
    returns_require_error, returns_pure, need_eq_ok, true_and, and_true, implies_true]

theorem returns_readBody_iff {rt : Runtime} {codecs : MessageCodecs} {env : EncryptedEnvelope}
    {header : MessageHeader} {padded : Bytes} : Returns (readBody rt codecs env header padded) ↔
    LengthFits padded := by
  unfold readBody
  simp only [returns_bind_iff, returns_unpadPayload_iff, returns_need_error, returns_require_error,
    returns_refuse_error, returns_pure, need_eq_ok, and_true, implies_true]

end Conditions

section Safe

variable (rt : Runtime) (p : Primitives) (codecs : MessageCodecs) (env : EncryptedEnvelope)
  (priv pub : Fixed 32)

def IsSigned (pt : PlaintextMessage) : Prop :=
  (∃ sm : SignedMessage, sm.verify rt codecs = true ∧ pt = sm.plaintext) ∨
    ∃ (sh : SignedHeader) (content : MessageContent), sh.verify rt codecs = true ∧
      content.hash rt codecs = sh.header.bodyHash ∧ pt = Bridge.reassemble sh.header content

/-- Whatever opens an envelope or a sealed blob returns, and a message that it returns is signed. -/
structure OpensSafely : Prop where
  decrypt : Returns (decrypt rt p codecs env priv pub) ∧
    ∀ sm, decrypt rt p codecs env priv pub = .ok sm → sm.verify rt codecs = true
  decryptHeader : Returns (decryptHeader rt p codecs env priv pub) ∧
    ∀ sh, decryptHeader rt p codecs env priv pub = .ok sh → sh.verify rt codecs = true
  decryptBody : ∀ header, Returns (decryptBody rt p codecs env priv pub header) ∧
    ∀ content, decryptBody rt p codecs env priv pub header = .ok content → content.hash rt codecs =
      header.bodyHash
  openSealed : ∀ b, Returns (openSealed p b priv pub)
  decryptForBridge : Returns (Bridge.decryptForBridge rt p codecs env priv pub) ∧
    ∀ pt audience, Bridge.decryptForBridge rt p codecs env priv pub = .ok (pt, audience) →
      IsSigned rt codecs pt

/-- What the ciphers give for an envelope has the sub-message that it is about, and a length that 32
bits hold. -/
structure DecryptsToWellFormed : Prop where
  payload : ∀ padded, payloadPlaintext p env priv pub = .ok padded → HasMessage codecs padded
  header : ∀ padded, headerPlaintext p env priv pub = .ok padded → HasHeader codecs padded
  body : ∀ padded, bodyPlaintext p env priv pub = .ok padded → LengthFits padded

variable {rt p codecs env priv pub}

theorem returns_decrypt_iff : Returns (decrypt rt p codecs env priv pub) ↔
    ∀ padded, payloadPlaintext p env priv pub = .ok padded → HasMessage codecs padded := by
  unfold decrypt
  simp only [returns_bind_iff, returns_wrap, wrap_eq_ok, returns_readPayload_iff, true_and]

theorem returns_decryptHeader_iff : Returns (decryptHeader rt p codecs env priv pub) ↔
    ∀ padded, headerPlaintext p env priv pub = .ok padded → HasHeader codecs padded := by
  unfold decryptHeader
  simp only [returns_bind_iff, returns_wrap, wrap_eq_ok, returns_readHeader_iff, true_and]

theorem returns_decryptBody_iff {header : MessageHeader} :
    Returns (decryptBody rt p codecs env priv pub header) ↔
    ∀ padded, bodyPlaintext p env priv pub = .ok padded → LengthFits padded := by
  unfold decryptBody
  simp only [returns_bind_iff, returns_wrap, wrap_eq_ok, returns_readBody_iff, true_and]

theorem verify_of_decrypt {sm : SignedMessage} (h : decrypt rt p codecs env priv pub = .ok sm) :
    sm.verify rt codecs = true := by
  unfold decrypt readPayload at h
  simp only [bind_eq_ok, need_eq_ok, require_eq_ok, refuse_eq_ok, pure_eq_ok] at h
  obtain ⟨padded, -, payload, -, pb, -, sm', -, -, hverify, -, -, -, -, rfl⟩ := h
  exact hverify

theorem verify_of_decryptHeader {sh : SignedHeader}
    (h : decryptHeader rt p codecs env priv pub = .ok sh) :
    sh.verify rt codecs = true := by
  unfold decryptHeader readHeader at h
  simp only [bind_eq_ok, need_eq_ok, require_eq_ok, pure_eq_ok] at h
  obtain ⟨padded, -, unpadded, -, pb, -, header, -, -, hverify, rfl⟩ := h
  exact hverify

theorem hash_of_decryptBody {header : MessageHeader} {content : MessageContent}
    (h : decryptBody rt p codecs env priv pub header = .ok content) : content.hash rt codecs =
    header.bodyHash := by
  unfold decryptBody readBody at h
  simp only [bind_eq_ok, need_eq_ok, require_eq_ok, refuse_eq_ok, pure_eq_ok] at h
  obtain ⟨padded, -, unpadded, -, pb, -, -, hhash, -, -, rfl⟩ := h
  exact hhash

theorem returns_isFor (sr : SealedRecipient) (pub : Fixed 32) : Returns (sr.isFor pub) := by
  unfold SealedRecipient.isFor asArray
  split
  · exact returns_pure _
  · next hlength =>
    rw [not_not] at hlength
    simp only [returns_bind_iff, returns_refuse_panic, returns_pure, implies_true, and_true]
    omega

theorem returns_openOwn (b : SealedBlob) (srs : List SealedRecipient) :
    Returns (openOwn p b priv pub srs) := by
  induction srs with
  | nil => exact returns_pure none
  | cons sr srs ih =>
    unfold openOwn
    rw [returns_bind_iff]
    refine ⟨returns_isFor sr pub, fun own _ => ?_⟩
    split
    · split
      · exact returns_pure _
      · exact ih
    · exact ih

theorem returns_openSealed (b : SealedBlob) : Returns (openSealed p b priv pub) := by
  unfold openSealed
  simp only [returns_bind_iff, returns_refuse_error, true_and]
  rintro - -
  refine ⟨returns_openOwn b b.recipients, fun found _ => ?_⟩
  cases found with
  | some pt => exact returns_pure pt
  | none => exact returns_need_error _ _

theorem returns_decryptForBridge (h : DecryptsToWellFormed p codecs env priv pub) :
    Returns (Bridge.decryptForBridge rt p codecs env priv pub) := by
  unfold Bridge.decryptForBridge
  split
  · simp only [returns_bind_iff, returns_require_error, returns_pure, implies_true, and_true]
    exact returns_decrypt_iff.mpr h.payload
  · simp only [returns_bind_iff, returns_require_error, returns_pure, implies_true, and_true,
      true_and]
    exact ⟨returns_decryptHeader_iff.mpr h.header, fun sh _ _ _ =>
      returns_decryptBody_iff.mpr h.body⟩

theorem signed_of_decryptForBridge {pt : PlaintextMessage} {audience : Bridge.Audience}
    (h : Bridge.decryptForBridge rt p codecs env priv pub = .ok (pt, audience)) :
    IsSigned rt codecs pt := by
  unfold Bridge.decryptForBridge at h
  split at h
  · simp only [bind_eq_ok, require_eq_ok, pure_eq_ok] at h
    obtain ⟨sm, -, -, hverify, heq⟩ := h
    cases heq
    exact .inl ⟨sm, hverify, rfl⟩
  · simp only [bind_eq_ok, require_eq_ok, pure_eq_ok] at h
    obtain ⟨sh, -, -, hverify, content, hcontent, heq⟩ := h
    cases heq
    exact .inr ⟨sh, content, hverify, hash_of_decryptBody hcontent, rfl⟩

/-- Mail opens safely exactly if what its ciphers give is well formed. -/
theorem opensSafely_iff (rt : Runtime) (p : Primitives) (codecs : MessageCodecs)
    (env : EncryptedEnvelope) (priv pub : Fixed 32) : OpensSafely rt p codecs env priv pub ↔
    DecryptsToWellFormed p codecs env priv pub := by
  constructor
  · intro h
    refine ⟨returns_decrypt_iff.mp h.decrypt.1, returns_decryptHeader_iff.mp h.decryptHeader.1, ?_⟩
    exact returns_decryptBody_iff.mp (h.decryptBody (MessageHeader.fromProto default)).1
  · intro h
    refine ⟨⟨returns_decrypt_iff.mpr h.payload, fun sm => verify_of_decrypt⟩,
      ⟨returns_decryptHeader_iff.mpr h.header, fun sh => verify_of_decryptHeader⟩,
      fun header => ⟨returns_decryptBody_iff.mpr h.body, fun content => hash_of_decryptBody⟩,
      fun b => returns_openSealed b,
        ⟨returns_decryptForBridge h, fun pt audience => signed_of_decryptForBridge⟩⟩

end Safe

section Sender

variable {p : Primitives} {priv pub : Fixed 32}

theorem exists_envelope_of_plaintext (hp : p.Lawful)
    (hpub : Crypto.x25519PublicFromPrivate p priv = some pub) (hne : pub ≠ .zero 32) (draws : Draws)
    {ephPub : Fixed 32} (heph : Crypto.x25519PublicFromPrivate p (draws.ephemeral 0) = some ephPub)
    (hephne : ephPub ≠ .zero 32) (messageID : Fixed 16) (createdAt : Int64) (sizeClass : UInt32)
    (padded : Bytes) :
    ∃ env, sealPayload p draws messageID createdAt sizeClass padded [⟨.zero 16, pub⟩] = some env ∧
      env.isSplit = false ∧ payloadPlaintext p env priv pub = .ok padded := by
  obtain ⟨record, hwrap, hreader, hephemeral⟩ :=
    exists_wrapCEK hp hpub hne heph draws.cek.val (.zero 16) (draws.wrapNonce 0)
  obtain ⟨ciphertext, tag, hsealed⟩ :=
    @aesGCMEncryptAAD_isSome p draws.cek.val draws.payloadNonce padded [] draws.cek.length_val
  have hunwrap := unwrapCEK_wrapCEK hp hpub hwrap (by rwa [hephemeral])
  have hopen := decrypt_encrypt hp hsealed
  have htag : (Fixed.copy 16 tag).val = tag := Fixed.val_copy_of_length (length_tag hp hsealed)
  unfold sealPayload
  rw [Crypto.aesGCMEncrypt, hsealed]
  simp only [Option.bind_eq_bind, Option.bind_some, wrapFrom, hwrap]
  refine ⟨_, rfl, rfl, ?_⟩
  unfold payloadPlaintext EncryptedEnvelope.recordFor
  dsimp only
  rw [List.find?_cons_of_pos (by simpa using hreader), need, ok_bind, hunwrap, need, ok_bind, htag,
    Crypto.aesGCMDecrypt, hopen]
  rfl

end Sender

namespace FieldLess

def key : Fixed 32 := Fixed.copy 32 [1]

def draws : Draws := ⟨.zero 32, .zero 12, .zero 12, .zero 12, fun _ => key, fun _ => .zero 12⟩

noncomputable def codecs : MessageCodecs :=
  ⟨someCodec _, someCodec _, someCodec _, someCodec _, someCodec _⟩

theorem not_hasMessage : ¬ HasMessage codecs [0, 0, 0, 0] := by
  rintro ⟨-, hmessage⟩
  have hunpad : unpadPayload [0, 0, 0, 0] = .ok [] := by
    have hread : readBigEndian32 [0, 0, 0, 0] = 0 := by decide
    simp [unpadPayload, hread, refuse, ok_bind]
  exact hmessage [] hunpad default codecs.signedMessage.unmarshal_nil rfl

/-- An envelope whose cipher gives a message without any field stops the bridge. -/
theorem empty_message_panics : ∃ env, sealPayload plainPrimitives draws (.zero 16) 0 4 [0, 0, 0, 0]
    [⟨.zero 16, key⟩] = some env ∧
    Bridge.decryptForBridge (idealRuntime [] []) plainPrimitives codecs env key key =
      .error .panic ∧
    ¬ OpensSafely (idealRuntime [] []) plainPrimitives codecs env key key := by
  have hne : key ≠ .zero 32 := by decide
  obtain ⟨env, hseal, hwhole, hplaintext⟩ :=
    exists_envelope_of_plaintext plainPrimitives_ideal.toLawful (public_plain key)
    hne draws (public_plain key) hne (.zero 16) 0 4 [0, 0, 0, 0]
  have hpanic : decrypt (idealRuntime [] []) plainPrimitives codecs env key key =
      .error .panic := by
    by_contra hreturns
    exact not_hasMessage (returns_decrypt_iff.mp hreturns [0, 0, 0, 0] hplaintext)
  refine ⟨env, hseal, ?_, fun hsafe => hsafe.decrypt.1 hpanic⟩
  unfold Bridge.decryptForBridge
  rw [if_pos hwhole, hpanic]
  rfl

end FieldLess

end Dmcn
