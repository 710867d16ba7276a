import OpenDmcn.Relay.ReadsFit

/-! The two ways to send a STORE (`relay.go`): the whole envelope in one frame, or the envelope less
its body with the body streamed after it. Both come to the same call with the same envelope and the
same hash. -/

namespace Dmcn

open Go Protobuf

namespace Crypto

def ed25519PrivateKeySize : ℕ := 64

def sign (rt : Runtime) (privateKey message : Bytes) : Option Bytes :=
  if privateKey.length ≠ ed25519PrivateKeySize then none
    else some (rt.ed25519Sign privateKey message)

end Crypto

inductive ClientStoreError where
  | notSplit | keySize | write (e : FrameError)
  deriving DecidableEq

def writeRequest (req : Pb.RelayRequest) : Except ClientStoreError Unit :=
  if req.marshal.length > maxMessageSize then .error (.write .messageTooLarge) else .ok ()

def bodyChunkSize : ℕ := 1024 * 1024

def chunksOf (n : ℕ) (data : Bytes) : List Bytes :=
  if n = 0 ∨ data = [] then [] else data.take n :: chunksOf n (data.drop n)
termination_by data.length
decreasing_by
  have hpos := List.length_pos_of_ne_nil (show data ≠ [] by tauto)
  rw [List.length_drop]
  omega

def writeChunked (data : Bytes) : List Bytes := chunksOf bodyChunkSize data

def recipientsToProto (recs : List RecipientRecord) : List Pb.RecipientRecord :=
  recs.map RecipientRecord.toProto

section Client

variable (cfg : RelayConfig) (privateKey : Bytes) (senderAddr : String) (env : EncryptedEnvelope)

def clientSignature : Option Bytes :=
  Crypto.sign cfg.rt privateKey (envelopeHash cfg env.toProto).val

def clientStoreWithAddress : Except ClientStoreError Pb.StoreRequest :=
  match clientSignature cfg privateKey env with
  | none => .error .keySize
  | some sig =>
    let req : Pb.StoreRequest := ⟨senderAddr, sig, some env.toProto⟩
    match writeRequest (.store req) with
    | .error e => .error e
    | .ok _ => .ok req

def storeInit (sig : Bytes) : Pb.StoreInit where
  senderAddress := senderAddr
  senderSignature := sig
  version := env.version
  messageId := env.messageID.val
  createdAt := env.createdAt
  recipients := recipientsToProto env.recipients
  encryptedHeader := env.encryptedHeader
  headerNonce := env.headerNonce.val
  headerTag := env.headerTag.val
  headerSizeClass := env.headerSizeClass
  bodyNonce := env.bodyNonce.val
  bodyTag := env.bodyTag.val
  bodySizeClass := env.bodySizeClass
  bodyTotalSize := UInt64.ofNat env.encryptedBody.length
  bodyContentAddress := env.bodyContentAddress

def clientStoreDurable : Except ClientStoreError (Pb.StoreInit × List Bytes) :=
  if env.isSplit = false then .error .notSplit
  else
    match clientSignature cfg privateKey env with
    | none => .error .keySize
    | some sig =>
      match writeRequest (.storeInit (storeInit senderAddr env sig)) with
      | .error e => .error e
      | .ok _ => .ok (storeInit senderAddr env sig, writeChunked env.encryptedBody)

end Client

namespace EncryptedEnvelope

def NoPayload (e : EncryptedEnvelope) : Prop :=
  e.encryptedPayload = [] ∧ e.payloadNonce = .zero 12 ∧ e.payloadTag = .zero 16 ∧
    e.payloadSizeClass = 0

def NoParts (e : EncryptedEnvelope) : Prop :=
  e.encryptedHeader = [] ∧ e.headerNonce = .zero 12 ∧ e.headerTag = .zero 16 ∧
    e.headerSizeClass = 0 ∧
    e.encryptedBody = [] ∧ e.bodyNonce = .zero 12 ∧ e.bodyTag = .zero 16 ∧ e.bodySizeClass = 0 ∧
    e.bodyContentAddress = []

instance (e : EncryptedEnvelope) : Decidable e.NoPayload := inferInstanceAs (Decidable (_ ∧ _))

instance (e : EncryptedEnvelope) : Decidable e.NoParts := inferInstanceAs (Decidable (_ ∧ _))

theorem reread_eq_self_iff {e : EncryptedEnvelope} : e.reread = e ↔ e.isSplit = true ∨
    e.NoParts := by
  unfold reread
  by_cases hsplit : e.isSplit = true
  · simp [hsplit]
  · rw [if_neg hsplit]
    simp only [hsplit, Bool.false_eq_true, false_or, NoParts]
    obtain ⟨v, mid, rs, ep, pn, pt, psc, ca, rk, eh, hn, ht, hsc, eb, bn, bt, bsc, bca⟩ := e
    simp only [mk.injEq, true_and, eq_comm]

end EncryptedEnvelope

section Stream

theorem flatten_chunksOf {n : ℕ} (hn : n ≠ 0) (data : Bytes) :
    (chunksOf n data).flatten = data := by
  induction data using (measure List.length).wf.induction with
  | h data ih =>
    rw [chunksOf]
    by_cases hdata : data = []
    · rw [if_pos (.inr hdata), hdata]
      rfl
    · have hpos := List.length_pos_of_ne_nil hdata
      rw [if_neg (by tauto), List.flatten_cons, ih (data.drop n), List.take_append_drop]
      change (data.drop n).length < data.length
      rw [List.length_drop]
      omega

theorem length_le_of_mem_chunksOf {n : ℕ} {data chunk : Bytes} (h : chunk ∈ chunksOf n data) :
    chunk.length ≤ n := by
  induction data using (measure List.length).wf.induction with
  | h data ih =>
    rw [chunksOf] at h
    split at h
    · cases h
    · next hdata =>
      rcases List.mem_cons.mp h with rfl | h
      · exact List.length_take_le n data
      · have hpos := List.length_pos_of_ne_nil (show data ≠ [] by tauto)
        apply ih (data.drop n) _ h
        change (data.drop n).length < data.length
        rw [List.length_drop]
        omega

theorem readChunks_flatten {frames : List Bytes}
    (hsize : ∀ frame ∈ frames, frame.length ≤ maxMessageSize) (rest : List Bytes) (buf : Bytes) :
    readChunks (buf.length + frames.flatten.length) (frames ++ rest) buf =
      .ok (buf ++ frames.flatten) := by
  induction frames generalizing buf with
  | nil =>
    unfold readChunks
    rw [if_pos (by simp), List.flatten_nil, List.append_nil]
  | cons frame frames ih =>
    have hframe : ¬ frame.length > maxMessageSize :=
      not_lt.mpr (hsize frame (List.mem_cons_self ..))
    have hrest := ih (fun f hf => hsize f (List.mem_cons_of_mem _ hf)) (buf ++ frame)
    have htotal : (buf ++ frame).length + frames.flatten.length = buf.length +
        (frame :: frames).flatten.length := by
      simp [add_assoc]
    rw [htotal, List.append_assoc, ← List.flatten_cons] at hrest
    unfold readChunks
    by_cases hdone : buf.length + (frame :: frames).flatten.length ≤ buf.length
    · have hnil : (frame :: frames).flatten = [] := List.eq_nil_of_length_eq_zero (by omega)
      rw [if_pos hdone, hnil, List.append_nil]
    · have hfits : ¬ buf.length + frame.length > buf.length + (frame :: frames).flatten.length := by
        simp
      rw [if_neg hdone, List.cons_append]
      dsimp only
      rw [if_neg hframe, if_neg hfits, hrest]

theorem readChunked_writeChunked {body : Bytes} (h : body.length ≤ maxBodySize) :
    readChunked (UInt64.ofNat body.length) (writeChunked body) = .ok body := by
  have hsize : (UInt64.ofNat body.length).toNat = body.length := by
    rw [UInt64.toNat_ofNat']
    unfold maxBodySize at h
    omega
  have hframes : ∀ frame ∈ writeChunked body, frame.length ≤ maxMessageSize := by
    intro frame hframe
    have hchunk : frame.length ≤ bodyChunkSize := length_le_of_mem_chunksOf hframe
    unfold bodyChunkSize at hchunk
    unfold maxMessageSize
    omega
  have hread := readChunks_flatten hframes [] []
  have hflatten : (writeChunked body).flatten = body := flatten_chunksOf (by decide) body
  rw [hflatten, List.length_nil, zero_add, List.append_nil, List.nil_append] at hread
  unfold readChunked
  rw [hsize, if_neg (not_lt.mpr h), hread]

end Stream

section Agree

variable {cfg : RelayConfig} {env : EncryptedEnvelope} {senderAddr : String} {sig : Bytes}

theorem fixedField_nil (n : ℕ) (field : EnvelopeField) : fixedField n [] field = .ok
    (Fixed.zero n) := rfl

theorem fromProto_envelope (hsplit : env.isSplit = true) (hpayload : env.NoPayload)
    (hratchet : env.ratchetPubKey = .zero 32) :
    EncryptedEnvelope.fromProto
      (StoreInit.envelope (storeInit senderAddr env sig) env.encryptedBody) = .ok env := by
  obtain ⟨hbytes, hnonce, htag, hclass⟩ := hpayload
  have hheader : env.encryptedHeader.length > 0 := by simpa [EncryptedEnvelope.isSplit] using hsplit
  have hrecipients : recipientsFromProto 0 (storeInit senderAddr env sig).recipients =
      .ok env.recipients :=
    recipientsFromProto_toProto 0 env.recipients
  unfold EncryptedEnvelope.fromProto StoreInit.envelope
  simp only [hrecipients]
  simp only [storeInit, fixedField_val (show 16 ≠ 0 by decide),
    fixedField_val (show 12 ≠ 0 by decide), Guard.ok_bind, if_pos hheader,
      show (default : Pb.EncryptedEnvelope).payloadNonce = [] from rfl,
    show (default : Pb.EncryptedEnvelope).payloadTag = [] from rfl,
    show (default : Pb.EncryptedEnvelope).ratchetPubKey = [] from rfl, fixedField_nil]
  obtain ⟨v, mid, rs, ep, pn, pt, psc, ca, rk, eh, hn, ht, hsc, eb, bn, bt, bsc, bca⟩ := env
  dsimp only at hbytes hnonce htag hclass hratchet
  subst hbytes hnonce htag hclass hratchet
  rfl

theorem handleStoreInit_eq (hsplit : env.isSplit = true) (hpayload : env.NoPayload)
    (hratchet : env.ratchetPubKey = .zero 32) (hbody : env.encryptedBody.length ≤ maxBodySize)
    (w : Surroundings) (s : RelayState) :
    handleStoreInit cfg w s (storeInit senderAddr env sig) (writeChunked env.encryptedBody) =
      acceptEnvelope cfg w s false senderAddr sig env (envelopeHash cfg env.toProto) := by
  have hread : readChunked (storeInit senderAddr env sig).bodyTotalSize
      (writeChunked env.encryptedBody) =
      .ok env.encryptedBody := readChunked_writeChunked hbody
  unfold handleStoreInit
  rw [hread]
  dsimp only
  rw [fromProto_envelope hsplit hpayload hratchet]
  rfl

theorem handleStore_eq (hsplit : env.isSplit = true) (w : Surroundings) (s : RelayState) :
    handleStore cfg w s ⟨senderAddr, sig, some env.toProto⟩ =
      acceptEnvelope cfg w s false senderAddr sig env (envelopeHash cfg env.toProto) := by
  unfold handleStore
  dsimp only
  rw [EncryptedEnvelope.fromProto_toProto, EncryptedEnvelope.reread_eq_self_iff.mpr (.inl hsplit)]

theorem fields_toProto (hsplit : env.isSplit = true) (hpayload : env.NoPayload)
    (hratchet : env.ratchetPubKey = .zero 32) :
    env.toProto.marshal.length =
      (encode (int 1 env.version.toNat)).length + (encode (bytes 2 env.messageID.val)).length +
      (encode (repeated 3
        ((recipientsToProto env.recipients).map Pb.RecipientRecord.marshal))).length +
      66 + (encode (int 8 env.createdAt.toUInt64.toNat)).length +
      (encode (bytes 10 env.encryptedHeader)).length +
      (encode (bytes 11 env.headerNonce.val)).length +
      (encode (bytes 12 env.headerTag.val)).length +
      (encode (int 13 env.headerSizeClass.toNat)).length +
      (encode (bytes 14 env.encryptedBody)).length + (encode (bytes 15 env.bodyNonce.val)).length +
      (encode (bytes 16 env.bodyTag.val)).length +
      (encode (int 17 env.bodySizeClass.toNat)).length +
      (encode (bytes 18 env.bodyContentAddress)).length := by
  obtain ⟨hbytes, hnonce, htag, hclass⟩ := hpayload
  have hzero12 : (encode (bytes 5 (Fixed.zero 12).val)).length = 14 :=
    length_bytes_fixed (by decide) _ (by decide) (by decide)
  have hzero16 : (encode (bytes 6 (Fixed.zero 16).val)).length = 18 :=
    length_bytes_fixed (by decide) _ (by decide) (by decide)
  have hzero32 : (encode (bytes 9 (Fixed.zero 32).val)).length = 34 :=
    length_bytes_fixed (by decide) _ (by decide) (by decide)
  have hempty : (encode (bytes 4 [])).length = 0 := rfl
  have hnone : (encode (int 7 (0 : UInt32).toNat)).length = 0 := rfl
  rw [EncryptedEnvelope.toProto, if_pos hsplit, Pb.EncryptedEnvelope.marshal]
  delta Pb.EncryptedEnvelope.fields
  simp only [length_encode_append, hbytes, hnonce, htag, hclass, hratchet, hzero12, hzero16,
    hzero32, hempty, hnone]
  unfold recipientsToProto
  omega

theorem length_storeInit_le (hsplit : env.isSplit = true) (hpayload : env.NoPayload)
    (hratchet : env.ratchetPubKey = .zero 32) :
    (Pb.RelayRequest.storeInit (storeInit senderAddr env sig)).marshal.length ≤
      (Pb.RelayRequest.store ⟨senderAddr, sig, some env.toProto⟩).marshal.length := by
  have henvelope := fields_toProto hsplit hpayload hratchet
  have htag : ∀ {num num' : ℕ}, num < 16 → (varint (8 * num + 2)).length ≤
      (varint (8 * num' + 2)).length :=
    fun hnum => length_tag_le hnum _ (by decide)
  have htag' : ∀ {num num' : ℕ}, num < 16 → (varint (8 * num)).length ≤
      (varint (8 * num')).length :=
    fun hnum => length_tag_le hnum _ (show 0 < 8 by decide)
  have hversion := @length_int_le 3 1 (htag' (by decide)) env.version.toNat
  have hmessageId := @length_bytes_le 4 2 (htag (by decide)) env.messageID.val
  have hcreatedAt := @length_int_le 5 8 (htag' (by decide)) env.createdAt.toUInt64.toNat
  have hrecipients := @length_repeated_le 6 3 (htag (by decide))
    ((recipientsToProto env.recipients).map Pb.RecipientRecord.marshal)
  have hheader := @length_bytes_le 7 10 (htag (by decide)) env.encryptedHeader
  have hheaderNonce := @length_bytes_le 8 11 (htag (by decide)) env.headerNonce.val
  have hheaderTag := @length_bytes_le 9 12 (htag (by decide)) env.headerTag.val
  have hheaderClass := @length_int_le 10 13 (htag' (by decide)) env.headerSizeClass.toNat
  have hbodyNonce := @length_bytes_le 11 15 (htag (by decide)) env.bodyNonce.val
  have hbodyTag := @length_bytes_le 12 16 (htag (by decide)) env.bodyTag.val
  have hbodyClass := @length_int_le 13 17 (htag' (by decide)) env.bodySizeClass.toNat
  have haddress := @length_bytes_le 16 18 (length_varint_mono (by decide)) env.bodyContentAddress
  have htotal : (encode (int 14 (UInt64.ofNat env.encryptedBody.length).toNat)).length ≤ 11 := by
    have hlt := (UInt64.ofNat env.encryptedBody.length).toNat_lt
    have hsize : (varint (UInt64.ofNat env.encryptedBody.length).toNat).length ≤ 9 + 1 :=
      length_varint_le (lt_trans hlt (by norm_num))
    have hone : (varint (8 * 14)).length ≤ 0 + 1 := length_varint_le (by norm_num)
    rw [length_encode_int]
    split
    · exact Nat.zero_le _
    · omega
  have hinner := length_le_framed 3 env.toProto.marshal
  have hlength : (storeInit senderAddr env sig).marshal.length ≤
      (Pb.StoreRequest.marshal ⟨senderAddr, sig, some env.toProto⟩).length := by
    rw [Pb.StoreInit.marshal, Pb.StoreRequest.marshal]
    simp only [length_encode_append, storeInit, Option.elim_some, length_encode_message]
    omega
  rw [Pb.RelayRequest.marshal, Pb.RelayRequest.marshal, length_encode_message,
    length_encode_message]
  calc framed 7 (storeInit senderAddr env sig).marshal
      ≤ framed 1 (storeInit senderAddr env sig).marshal := framed_le_framed (htag (by decide)) _
    _ ≤ framed 1 (Pb.StoreRequest.marshal ⟨senderAddr, sig, some env.toProto⟩) :=
      framed_mono hlength

theorem length_body_le (hsplit : env.isSplit = true) (hpayload : env.NoPayload)
    (hratchet : env.ratchetPubKey = .zero 32) :
    env.encryptedBody.length ≤
      (Pb.RelayRequest.store ⟨senderAddr, sig, some env.toProto⟩).marshal.length := by
  have henvelope := fields_toProto hsplit hpayload hratchet
  have hbody := length_le_bytes 14 env.encryptedBody
  have hinner := length_le_framed 3 env.toProto.marshal
  have houter := length_le_framed 1 (Pb.StoreRequest.marshal ⟨senderAddr, sig, some env.toProto⟩)
  have hrequest : framed 3 env.toProto.marshal ≤
      (Pb.StoreRequest.marshal ⟨senderAddr, sig, some env.toProto⟩).length := by
    rw [Pb.StoreRequest.marshal, length_encode_append, Option.elim_some, length_encode_message]
    omega
  rw [Pb.RelayRequest.marshal, length_encode_message]
  omega

/-- A split envelope with no payload and no ratchet key: where one frame carries it, the chunked
STORE has the same effect and the same answer, and however long the body is, the relay sees the
envelope and the hash that were signed. Only an envelope that has a header keeps what it has of a
header and a body when it is written and read back. -/
theorem chunked_store_agrees (cfg : RelayConfig) (w : Surroundings) (s : RelayState)
    {env : EncryptedEnvelope} (hsplit : env.isSplit = true) (hpayload : env.NoPayload)
    (hratchet : env.ratchetPubKey = .zero 32) (privateKey : Bytes) (senderAddr : String) :
    (∀ req, clientStoreWithAddress cfg privateKey senderAddr env = .ok req →
      ∃ init frames, clientStoreDurable cfg privateKey senderAddr env = .ok (init, frames) ∧
        handleStoreInit cfg w s init frames = handleStore cfg w s req) ∧
    (∀ init frames, clientStoreDurable cfg privateKey senderAddr env = .ok (init, frames) →
      env.encryptedBody.length ≤ maxBodySize →
      ∃ sig, clientSignature cfg privateKey env = some sig ∧ handleStoreInit cfg w s init frames =
        acceptEnvelope cfg w s false senderAddr sig env (envelopeHash cfg env.toProto)) ∧
    ∀ e : EncryptedEnvelope, EncryptedEnvelope.fromProto e.toProto = .ok e ↔ e.isSplit = true ∨
      e.NoParts := by
  refine ⟨fun req hreq => ?_, fun init frames hinit hbody => ?_, fun e => ?_⟩
  · unfold clientStoreWithAddress at hreq
    split at hreq
    · cases hreq
    · next sig hsig =>
      dsimp only at hreq
      unfold writeRequest at hreq
      by_cases hlarge : (Pb.RelayRequest.store ⟨senderAddr, sig, some env.toProto⟩).marshal.length >
        maxMessageSize
      · rw [if_pos hlarge] at hreq
        cases hreq
      · rw [if_neg hlarge] at hreq
        cases hreq
        have hfits : ¬ (Pb.RelayRequest.storeInit (storeInit senderAddr env sig)).marshal.length >
            maxMessageSize := by
          have hle := @length_storeInit_le env senderAddr sig hsplit hpayload hratchet
          omega
        have hbody : env.encryptedBody.length ≤ maxBodySize := by
          have hle := @length_body_le env senderAddr sig hsplit hpayload hratchet
          unfold maxMessageSize at hlarge
          unfold maxBodySize
          omega
        refine ⟨storeInit senderAddr env sig, writeChunked env.encryptedBody, ?_, ?_⟩
        · unfold clientStoreDurable writeRequest
          rw [if_neg (by simp [hsplit]), hsig]
          dsimp only
          rw [if_neg hfits]
        · rw [handleStoreInit_eq hsplit hpayload hratchet hbody, handleStore_eq hsplit]
  · unfold clientStoreDurable writeRequest at hinit
    rw [if_neg (by simp [hsplit])] at hinit
    split at hinit
    · cases hinit
    · next sig hsig =>
      refine ⟨sig, hsig, ?_⟩
      split at hinit
      · cases hinit
      · cases hinit
        exact handleStoreInit_eq hsplit hpayload hratchet hbody w s
  · rw [EncryptedEnvelope.fromProto_toProto, Except.ok.injEq, EncryptedEnvelope.reread_eq_self_iff]

end Agree

namespace Ratcheted

open Oversized

def env : EncryptedEnvelope :=
  { envelope [1] with recipients := [], ratchetPubKey := Fixed.copy 32 [1] }

def headless : EncryptedEnvelope := { envelope [] with bodySizeClass := 1 }

def kept : EncryptedEnvelope := { env with ratchetPubKey := .zero 32 }

/-- A relay in whose world one envelope has a hash of its own, and its sender signed that. -/
noncomputable def cfg (pb : Pb.EncryptedEnvelope) : RelayConfig where
  rt := { idealRuntime [] [(keyOf 1, List.replicate 32 1)] with
    sha256 := fun b => if b = pb.marshal then List.replicate 32 1 else List.replicate 32 0 }
  mb := cfg₀.mb
  kv := cfg₀.kv
  recognizedBodyCID := cfg₀.recognizedBodyCID
  mailbox := true
  personalKv := true
  storageQuota := 0

theorem ratchetPubKey_of_marshal {pb pb' : Pb.EncryptedEnvelope} (h : pb.marshal = pb'.marshal) :
    pb.ratchetPubKey = pb'.ratchetPubKey := by
  have hread : ∀ e : Pb.EncryptedEnvelope, getBytes 9 e.fields = e.ratchetPubKey := by
    intro e
    delta Pb.EncryptedEnvelope.fields
    simp [getBytes, asBytes_int, asBytes_bytes, asBytes_repeated, getD_ite_bytes]
  have hfields : pb.fields = pb'.fields := by
    have hdecode := congrArg Protobuf.decode h
    rw [Pb.EncryptedEnvelope.marshal, Pb.EncryptedEnvelope.marshal, decode_encode, decode_encode]
      at hdecode
    exact Option.some.inj hdecode
  rw [← hread pb, ← hread pb', hfields]

theorem hash_env : envelopeHash (cfg env.toProto) env.toProto = Fixed.copy 32
    (List.replicate 32 1) := by
  unfold envelopeHash cfg
  dsimp only
  rw [if_pos rfl]

theorem hash_kept : envelopeHash (cfg env.toProto) kept.toProto = Fixed.copy 32
    (List.replicate 32 0) := by
  have hne : kept.toProto.marshal ≠ env.toProto.marshal := by
    intro heq
    have hkey := ratchetPubKey_of_marshal heq
    exact absurd hkey (by decide)
  unfold envelopeHash cfg
  dsimp only
  rw [if_neg hne]

theorem verify_iff (hash : Fixed 32) :
    Crypto.verify (cfg env.toProto).rt sender.ed25519Public hash.val signature = true ↔
      hash.val = List.replicate 32 1 := by
  simp [signature, Crypto.verify, Crypto.ed25519PublicKeySize, Crypto.ed25519SignatureSize, cfg,
    idealRuntime, Ideal.tableVerify, sender, IdentityRecord.ofMessage, plainRecord]

/-- The fields of a body are lost without a header; and a ratchet key is lost on the chunked way, so
that one and the same envelope is stored in one frame and refused in chunks. -/
theorem chunked_store_disagrees :
    EncryptedEnvelope.fromProto headless.toProto ≠ .ok headless ∧
      env.isSplit = true ∧ env.NoPayload ∧
      (handleStore (cfg env.toProto) w₀ s₀ ⟨"a@b", signature, some env.toProto⟩).2 =
        .ok (envelopeHash (cfg env.toProto) env.toProto) ∧
      (handleStoreInit (cfg env.toProto) w₀ s₀ (storeInit "a@b" env signature)
        (writeChunked env.encryptedBody)).2 = .error .invalidSignature := by
  refine ⟨?_, rfl, ⟨rfl, rfl, rfl, rfl⟩, ?_, ?_⟩
  · rw [EncryptedEnvelope.fromProto_toProto, Ne, Except.ok.injEq,
      EncryptedEnvelope.reread_eq_self_iff]
    decide
  · have hverify : Crypto.verify (cfg env.toProto).rt sender.ed25519Public
        (envelopeHash (cfg env.toProto) env.toProto).val signature = true := by
      rw [verify_iff, hash_env]
      decide
    have hgate : senderGate (cfg env.toProto) w₀ s₀.onionRequired false "a@b" signature env
        (envelopeHash (cfg env.toProto) env.toProto) = .ok sender := by
      have hbody : env.verifyBodyContentAddress (cfg env.toProto) = true := rfl
      simp [senderGate, s₀, w₀, hverify, hbody]
    rw [handleStore_eq rfl, acceptEnvelope_of_gate rfl allow_s₀ hgate]
    rfl
  · have hkept : storeInit "a@b" env signature = storeInit "a@b" kept signature := rfl
    have hbody : env.encryptedBody = kept.encryptedBody := rfl
    rw [hkept, hbody, handleStoreInit_eq rfl ⟨rfl, rfl, rfl, rfl⟩ rfl (Nat.zero_le _)]
    have hverify : Crypto.verify (cfg env.toProto).rt sender.ed25519Public
        (envelopeHash (cfg env.toProto) kept.toProto).val signature = false := by
      rw [Bool.eq_false_iff, Ne, verify_iff, hash_kept]
      decide
    have hgate : senderGate (cfg env.toProto) w₀ s₀.onionRequired false "a@b" signature kept
        (envelopeHash (cfg env.toProto) kept.toProto) = .error .invalidSignature := by
      simp [senderGate, s₀, w₀, hverify]
    exact acceptEnvelope_of_refused rfl allow_s₀ hgate

def plain : EncryptedEnvelope := { envelope [1] with recipients := [] }

theorem length_plain :
    (Pb.RelayRequest.store ⟨"a@b", signature, some plain.toProto⟩).marshal.length ≤
      maxMessageSize := by
  have hfixed : ∀ {num n : ℕ}, num < 16 → 0 < n → n < 128 →
      (encode (bytes num (Fixed.zero n).val)).length = n + 2 :=
    fun hnum hpos hn => length_bytes_fixed hnum _ hpos hn
  have hheader : (encode (bytes 10 [1])).length = 3 := by
    rw [length_encode_bytes, if_neg (by simp), framed_small (by decide) (by decide)]
    rfl
  have htag : (encode (bytes 16 (Fixed.zero 16).val)).length ≤ 20 := by
    rw [length_encode_bytes, if_neg (by simp [Fixed.zero]), framed]
    have hnum : (varint (8 * 16 + 2)).length ≤ 1 + 1 := length_varint_le (by norm_num)
    have hlength : (varint (Fixed.zero 16).val.length).length ≤ 0 + 1 := length_varint_le (by simp)
    have hval := (Fixed.zero 16).length_val
    omega
  have henvelope : plain.toProto.marshal.length ≤ 200 := by
    rw [fields_toProto rfl ⟨rfl, rfl, rfl, rfl⟩ rfl]
    change 0 + (encode (bytes 2 (Fixed.zero 16).val)).length + 0 + 66 + 0 +
      (encode (bytes 10 [1])).length +
      (encode (bytes 11 (Fixed.zero 12).val)).length +
        (encode (bytes 12 (Fixed.zero 16).val)).length + 0 + 0 +
      (encode (bytes 15 (Fixed.zero 12).val)).length +
        (encode (bytes 16 (Fixed.zero 16).val)).length + 0 + 0 ≤ 200
    rw [hfixed (by decide) (by decide) (by decide), hheader,
      hfixed (by decide) (by decide) (by decide), hfixed (by decide) (by decide) (by decide),
        hfixed (by decide) (by decide) (by decide)]
    omega
  have hrequest : (Pb.StoreRequest.marshal ⟨"a@b", signature, some plain.toProto⟩).length ≤
      300 := by
    have hinner : framed 3 plain.toProto.marshal ≤ 1 + (2 + 200) := by
      have hnum : (varint (8 * 3 + 2)).length ≤ 0 + 1 := length_varint_le (by norm_num)
      have hlength : (varint plain.toProto.marshal.length).length ≤ 1 + 1 :=
        length_varint_le (by omega)
      unfold framed
      omega
    have hsig : (encode (bytes 2 signature)).length = 66 :=
      length_bytes_fixed (show 2 < 16 by decide) (Fixed.zero 64) (by decide) (by decide)
    rw [Pb.StoreRequest.marshal, length_encode_append, length_encode_append, length_sender, hsig,
      Option.elim_some, length_encode_message]
    omega
  have hnum : (varint (8 * 1 + 2)).length ≤ 0 + 1 := length_varint_le (by norm_num)
  have hlength :
      (varint (Pb.StoreRequest.marshal ⟨"a@b", signature, some plain.toProto⟩).length).length ≤ 1 +
      1 :=
    length_varint_le (by omega)
  rw [Pb.RelayRequest.marshal, length_encode_message, framed]
  unfold maxMessageSize
  omega

/-- A small message goes either way, with one answer. -/
theorem plain_stored_either_way :
    ∃ req init frames, clientStoreWithAddress cfg₀ signature "a@b" plain = .ok req ∧
      clientStoreDurable cfg₀ signature "a@b" plain = .ok (init, frames) ∧
      handleStoreInit cfg₀ w₀ s₀ init frames = handleStore cfg₀ w₀ s₀ req := by
  have hsig : clientSignature cfg₀ signature plain = some signature := rfl
  have hsent : clientStoreWithAddress cfg₀ signature "a@b" plain =
      .ok ⟨"a@b", signature, some plain.toProto⟩ := by
    unfold clientStoreWithAddress writeRequest
    rw [hsig]
    dsimp only
    rw [if_neg (not_lt.mpr length_plain)]
  have hagrees :=
    (@chunked_store_agrees cfg₀ w₀ s₀ plain rfl ⟨rfl, rfl, rfl, rfl⟩ rfl signature "a@b").1
  obtain ⟨init, frames, hdurable, hsame⟩ := hagrees _ hsent
  exact ⟨_, init, frames, hsent, hdurable, hsame⟩

end Ratcheted

end Dmcn
