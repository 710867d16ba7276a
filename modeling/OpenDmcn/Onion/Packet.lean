import OpenDmcn.Lib.Protobuf
import OpenDmcn.Lib.Time
import OpenDmcn.Sealing

/-! Onion packets (`onion/packet.go`, `onion/onion.go`): a delivery in as many layers as the route
has hops, each sealed to the key of one hop. The ephemeral keys and the nonces that are drawn are
inputs. -/

namespace Dmcn.Pb

open Go Protobuf

structure OnionPacket where
  version : UInt32
  ephemeralPub : Bytes
  nonce : Bytes
  tag : Bytes
  encryptedLayer : Bytes
  deriving DecidableEq, Inhabited

structure OnionLayer where
  nextHop : String
  ttlUnix : Int64
  inner : Option OnionPacket
  delivery : Bytes
  deriving DecidableEq, Inhabited

namespace OnionPacket

def fields (pkt : OnionPacket) : List Field :=
  int 1 pkt.version.toNat ++ bytes 2 pkt.ephemeralPub ++ bytes 3 pkt.nonce ++ bytes 4 pkt.tag ++
    bytes 5 pkt.encryptedLayer

def marshal (pkt : OnionPacket) : Bytes := encode pkt.fields

def read (fs : List Field) : OnionPacket where
  version := UInt32.ofNat (getInt 1 fs)
  ephemeralPub := getBytes 2 fs
  nonce := getBytes 3 fs
  tag := getBytes 4 fs
  encryptedLayer := getBytes 5 fs

theorem read_fields (pkt : OnionPacket) : read pkt.fields = pkt := by
  simp [read, fields, getBytes, getInt, asInt_int, asInt_bytes, asBytes_int, asBytes_bytes,
    getD_ite_int, getD_ite_bytes]

end OnionPacket

namespace OnionLayer

def fields (layer : OnionLayer) : List Field :=
  bytes 1 (utf8 layer.nextHop) ++ int 2 layer.ttlUnix.toUInt64.toNat ++
    repeated 3 (layer.inner.toList.map OnionPacket.marshal) ++ bytes 4 layer.delivery

def marshal (layer : OnionLayer) : Bytes := encode layer.fields

def readInner (fs : List Field) : Option (Option OnionPacket) :=
  match getRepeated 3 fs with
  | [] => some none
  | parts => (Protobuf.decode parts.flatten).map fun fs => some (OnionPacket.read fs)

def read (fs : List Field) : Option OnionLayer := do
  let nextHop ← readUtf8 (getBytes 1 fs)
  let inner ← readInner fs
  return ⟨nextHop, (UInt64.ofNat (getInt 2 fs)).toInt64, inner, getBytes 4 fs⟩

def unmarshal (b : Bytes) : Option OnionLayer := (Protobuf.decode b).bind read

theorem readInner_fields (layer : OnionLayer) : readInner layer.fields = some layer.inner := by
  have hparts : getRepeated 3 layer.fields = layer.inner.toList.map OnionPacket.marshal := by
    simp [getRepeated, fields, asBytes_int, asBytes_bytes, asBytes_repeated]
  unfold readInner
  rw [hparts]
  cases layer.inner with
  | none => rfl
  | some pkt =>
    dsimp only [Option.toList_some, List.map_singleton]
    rw [List.flatten_singleton, OnionPacket.marshal, decode_encode, Option.map_some,
      OnionPacket.read_fields]

theorem unmarshal_marshal (layer : OnionLayer) : unmarshal layer.marshal = some layer := by
  have hhop : getBytes 1 layer.fields = utf8 layer.nextHop := by
    simp [fields, getBytes, asBytes_int, asBytes_bytes, asBytes_repeated, getD_ite_bytes]
  have httl : getInt 2 layer.fields = layer.ttlUnix.toUInt64.toNat := by
    simp [fields, getInt, asInt_int, asInt_bytes, asInt_repeated, getD_ite_int]
  have hdelivery : getBytes 4 layer.fields = layer.delivery := by
    simp [fields, getBytes, asBytes_int, asBytes_bytes, asBytes_repeated, getD_ite_bytes]
  unfold unmarshal marshal
  rw [decode_encode, Option.bind_some, read, hhop, httl, hdelivery, readInner_fields, readUtf8_utf8]
  simp

end OnionLayer

end Dmcn.Pb

namespace Dmcn

open Go

namespace Onion

def deliverHop : String := "DELIVER"

def onionVersion : UInt32 := 2

def layerSizeClasses : List UInt32 :=
  [1024, 4 * 1024, 16 * 1024, 64 * 1024, 256 * 1024, 1024 * 1024, 4 * 1024 * 1024, 16 * 1024 * 1024,
    36 * 1024 * 1024]

def layerBucket (payloadLen : ℕ) : UInt32 :=
  let needed := UInt32.ofNat payloadLen + 4
  match layerSizeClasses.find? fun sc => needed ≤ sc with
  | some sc => sc
  | none =>
    let mb : UInt32 := 1024 * 1024
    (needed + mb - 1) / mb * mb

def frameLayer (b : Bytes) (toClass : Bool) : Option Bytes :=
  let size := if toClass then layerBucket b.length else UInt32.ofNat b.length + 4
  if size.toNat < 4 then none
  else
    some (bigEndian32 b.length ++ (b ++ List.replicate (size.toNat - 4) 0).take (size.toNat - 4))

inductive PeelError where
  | malformed | open | layerTooShort | layerLength | unmarshal | panic
  deriving DecidableEq

def unpadLayer (padded : Bytes) : Except PeelError Bytes :=
  if padded.length < 4 then .error .layerTooShort
  else
    let n := UInt32.ofNat (readBigEndian32 padded)
    if n.toNat + 4 > padded.length then .error .layerLength
    else if (4 + n).toNat < 4 then .error .panic
    else .ok ((padded.take (4 + n).toNat).drop 4)

structure Hop where
  peerID : String
  x25519Pub : Fixed 32
  deriving DecidableEq

structure SealedLayer where
  ephemeralXPub : Fixed 32
  nonce : Fixed 12
  ciphertext : Bytes
  tag : Fixed 16

structure Draw where
  ephemeralPriv : Fixed 32
  nonce : Fixed 12

section Layers

variable (p : Primitives)

def layerInfoV2 (ephPub relayPub : Fixed 32) : Bytes :=
  utf8 "dmcn-onion-layer-v2" ++ ephPub.val ++ relayPub.val

def layerInfo (version : UInt32) (ephPub relayPub : Fixed 32) : Option Bytes :=
  if version = 1 then some (utf8 "dmcn-onion-layer-v1")
  else if version = 2 then some (layerInfoV2 ephPub relayPub)
  else none

def sealLayer (draw : Draw) (relayPub : Fixed 32) (plaintext : Bytes) (version : UInt32) :
    Option SealedLayer := do
  let ephPub ← Crypto.x25519PublicFromPrivate p draw.ephemeralPriv
  let shared ← Crypto.x25519SharedSecret p draw.ephemeralPriv relayPub
  let info ← layerInfo version ephPub relayPub
  let key ← Crypto.deriveKey p shared.val [] info Crypto.aes256KeySize
  let (ciphertext, tag) ← Crypto.aesGCMEncrypt p key draw.nonce plaintext
  return ⟨ephPub, draw.nonce, ciphertext, Fixed.copy 16 tag⟩

def openLayer (relayPriv : Fixed 32) (sl : SealedLayer) (version : UInt32) : Option Bytes := do
  let shared ← Crypto.x25519SharedSecret p relayPriv sl.ephemeralXPub
  let relayPub ← if version = 2 then Crypto.x25519PublicFromPrivate p relayPriv else pure (.zero 32)
  let info ← layerInfo version sl.ephemeralXPub relayPub
  let key ← Crypto.deriveKey p shared.val [] info Crypto.aes256KeySize
  Crypto.aesGCMDecrypt p key sl.nonce.val sl.ciphertext sl.tag.val

def sealOnionLayer (draw : Draw) (hopPub : Fixed 32) (layer : Pb.OnionLayer) (bucket : Bool) :
    Option Pb.OnionPacket := do
  let framed ← frameLayer layer.marshal bucket
  let sl ← sealLayer p draw hopPub framed onionVersion
  return ⟨onionVersion, sl.ephemeralXPub.val, sl.nonce.val, sl.tag.val, sl.ciphertext⟩

def buildOnion (draws : ℕ → Draw) (delivery : Bytes) (ttl : Time) : List Hop → Option Pb.OnionPacket
  | [] => none
  | [exit] => sealOnionLayer p (draws 0) exit.x25519Pub ⟨deliverHop, ttl.unix, none, delivery⟩ true
  | hop :: next :: route => do
    let pkt ← buildOnion (fun i => draws (i + 1)) delivery ttl (next :: route)
    sealOnionLayer p (draws 0) hop.x25519Pub ⟨next.peerID, ttl.unix, some pkt, []⟩ false

def peelOnion (relayPriv : Fixed 32) (pkt : Pb.OnionPacket) : Except PeelError Pb.OnionLayer :=
  if pkt.ephemeralPub.length ≠ 32 ∨ pkt.nonce.length ≠ 12 ∨ pkt.tag.length ≠ 16 then
    .error .malformed
  else
    match openLayer p relayPriv ⟨Fixed.copy 32 pkt.ephemeralPub, Fixed.copy 12 pkt.nonce,
      pkt.encryptedLayer, Fixed.copy 16 pkt.tag⟩ pkt.version with
    | none => .error .open
    | some padded =>
      match unpadLayer padded with
      | .error e => .error e
      | .ok plain =>
        match Pb.OnionLayer.unmarshal plain with
        | none => .error .unmarshal
        | some layer => .ok layer

end Layers

section Framing

def FrameFits (b : Bytes) (toClass : Bool) : Prop :=
  b.length + 4 + (if toClass then 1024 * 1024 - 1 else 0) < 2 ^ 32

theorem length_le_layerBucket {n : ℕ} (h : n + 4 + (1024 * 1024 - 1) < 2 ^ 32) :
    n + 4 ≤ (layerBucket n).toNat := by
  have hneeded : (UInt32.ofNat n + 4).toNat = n + 4 := by
    rw [UInt32.toNat_add, UInt32.toNat_ofNat']
    change (n % 2 ^ 32 + 4) % 2 ^ 32 = n + 4
    omega
  unfold layerBucket
  dsimp only
  cases hclass : layerSizeClasses.find? fun sc => decide (UInt32.ofNat n + 4 ≤ sc) with
  | some sc =>
    have hle := List.find?_some hclass
    rw [decide_eq_true_iff, UInt32.le_iff_toNat_le, hneeded] at hle
    exact hle
  | none =>
    dsimp only
    have hsum : (UInt32.ofNat n + 4 + 1024 * 1024 - 1).toNat = n + 4 + (1024 * 1024 - 1) := by
      have hone : (1024 * 1024 - 1 : UInt32).toNat = 1024 * 1024 - 1 := rfl
      rw [add_sub_assoc, UInt32.toNat_add, hneeded, hone]
      omega
    have hmb : (1024 * 1024 : UInt32).toNat = 1024 * 1024 := rfl
    rw [UInt32.toNat_mul, UInt32.toNat_div, hsum, hmb]
    omega

theorem unpadLayer_frameLayer {b : Bytes} {toClass : Bool} (h : FrameFits b toClass) :
    ∃ framed, frameLayer b toClass = some framed ∧ unpadLayer framed = .ok b := by
  have hsize : b.length + 4 ≤
      (if toClass then layerBucket b.length else UInt32.ofNat b.length + 4).toNat := by
    unfold FrameFits at h
    cases toClass with
    | true => exact length_le_layerBucket h
    | false =>
      rw [if_neg Bool.false_ne_true] at h ⊢
      rw [UInt32.toNat_add, UInt32.toNat_ofNat']
      change b.length + 4 ≤ (b.length % 2 ^ 32 + 4) % 2 ^ 32
      omega
  unfold frameLayer
  dsimp only
  generalize (if toClass then layerBucket b.length else UInt32.ofNat b.length + 4).toNat =
    size at hsize ⊢
  have hlength : b.length + 4 < 2 ^ 32 := by
    unfold FrameFits at h
    omega
  have hcontent : (b ++ List.replicate (size - 4) 0).take (size - 4) =
      b ++ List.replicate (size - 4 - b.length) (0 : UInt8) := by
    rw [List.take_append, List.take_of_length_le (by omega), List.take_replicate,
      Nat.min_eq_left (by omega)]
  rw [if_neg (by omega), hcontent]
  refine ⟨_, rfl, ?_⟩
  have hread : readBigEndian32
      (bigEndian32 b.length ++ (b ++ List.replicate (size - 4 - b.length) 0)) = b.length := by
    rw [readBigEndian32_append, Nat.mod_eq_of_lt (by omega)]
  have hn : (UInt32.ofNat b.length).toNat = b.length := by
    rw [UInt32.toNat_ofNat']
    omega
  have hbound : (4 + UInt32.ofNat b.length).toNat = 4 + b.length := by
    rw [UInt32.toNat_add, hn]
    change (4 + b.length) % 2 ^ 32 = 4 + b.length
    omega
  unfold unpadLayer
  dsimp only
  have htotal : b.length + 4 ≤
      (bigEndian32 b.length ++ (b ++ List.replicate (size - 4 - b.length) (0 : UInt8))).length := by
    simp only [List.length_append, length_bigEndian32]
    omega
  rw [hread, hn, hbound, if_neg (by simp), if_neg (not_lt.mpr htotal), if_neg (by omega)]
  have hcut : (bigEndian32 b.length ++ (b ++ List.replicate (size - 4 - b.length) (0 : UInt8))).take
      (4 + b.length) =
      bigEndian32 b.length ++ b := by
    rw [← List.append_assoc, List.take_append_of_le_length (by simp),
      List.take_of_length_le (by simp)]
  rw [hcut]
  rfl

end Framing

def Separates (p : Primitives) : Prop :=
  ∀ (ephPub a a' A A' shared shared' : Fixed 32), Crypto.x25519PublicFromPrivate p a = some A →
    Crypto.x25519PublicFromPrivate p a' = some A' → A ≠ A' →
    Crypto.x25519SharedSecret p a ephPub = some shared → Crypto.x25519SharedSecret p a' ephPub =
      some shared' →
    p.hkdf shared.val [] (layerInfoV2 ephPub A) Crypto.aes256KeySize ≠
      p.hkdf shared'.val [] (layerInfoV2 ephPub A') Crypto.aes256KeySize

section Peel

variable {p : Primitives}

theorem sealLayer_eq_some (hp : p.Lawful) (draw : Draw) {relayPriv relayPub : Fixed 32}
    (hpub : Crypto.x25519PublicFromPrivate p relayPriv = some relayPub) (plaintext : Bytes) :
    ∃ ephPub shared ciphertext tag, Crypto.x25519SharedSecret p relayPriv ephPub = some shared ∧
      Crypto.aesGCMEncryptAAD p
      (p.hkdf shared.val [] (layerInfoV2 ephPub relayPub) Crypto.aes256KeySize) draw.nonce
        plaintext [] = some (ciphertext, tag) ∧
      sealLayer p draw relayPub plaintext onionVersion =
      some ⟨ephPub, draw.nonce, ciphertext, Fixed.copy 16 tag⟩ := by
  obtain ⟨ephPub, heph⟩ := hp.generates draw.ephemeralPriv
  obtain ⟨shared, hshared, hshared'⟩ :=
    hp.agrees draw.ephemeralPriv relayPriv ephPub relayPub heph hpub
  have hkey := hp.length_hkdf shared.val [] (layerInfoV2 ephPub relayPub) Crypto.aes256KeySize
  obtain ⟨ciphertext, tag, hsealed⟩ := @aesGCMEncryptAAD_isSome p _ draw.nonce plaintext [] hkey
  refine ⟨ephPub, shared, ciphertext, tag, hshared', hsealed, ?_⟩
  simp [sealLayer, Crypto.x25519PublicFromPrivate, heph, Crypto.x25519SharedSecret, hshared,
    layerInfo, onionVersion, Crypto.deriveKey, Crypto.aesGCMEncrypt, hsealed,
      show Crypto.aes256KeySize ≠ 0 by decide]

theorem sealOnionLayer_isSome (hp : p.Lawful) (draw : Draw) {relayPriv relayPub : Fixed 32}
    (hpub : Crypto.x25519PublicFromPrivate p relayPriv = some relayPub) {layer : Pb.OnionLayer}
    {bucket : Bool} (hfits : FrameFits layer.marshal bucket) : ∃ pkt,
    sealOnionLayer p draw relayPub layer bucket = some pkt := by
  obtain ⟨framed, hframed, -⟩ := unpadLayer_frameLayer hfits
  obtain ⟨ephPub, shared, ciphertext, tag, -, -, hsealed⟩ := sealLayer_eq_some hp draw hpub framed
  unfold sealOnionLayer
  rw [hframed]
  simp [hsealed]

variable (hp : p.Ideal)

include hp

theorem openLayer_sealLayer (draw : Draw) {relayPriv relayPub : Fixed 32}
    (hpub : Crypto.x25519PublicFromPrivate p relayPriv = some relayPub) (plaintext : Bytes) :
    ∃ sl, sealLayer p draw relayPub plaintext onionVersion = some sl ∧
      openLayer p relayPriv sl onionVersion = some plaintext ∧
      (Separates p → ∀ priv, Crypto.x25519PublicFromPrivate p priv ≠ some relayPub →
        openLayer p priv sl onionVersion = none) := by
  obtain ⟨ephPub, shared, ciphertext, tag, hshared, hencrypt, hsealed⟩ :=
    sealLayer_eq_some hp.toLawful draw hpub plaintext
  have htag : (Fixed.copy 16 tag).val = tag :=
    Fixed.val_copy_of_length (length_tag hp.toLawful hencrypt)
  refine ⟨_, hsealed, ?_, fun hseparates priv hother => ?_⟩
  · have hopen := decrypt_encrypt hp.toLawful hencrypt
    simpa [openLayer, hpub, hshared, layerInfo, onionVersion, Crypto.deriveKey,
      Crypto.aesGCMDecrypt, htag, show Crypto.aes256KeySize ≠ 0 by decide] using hopen
  · obtain ⟨otherPub, hotherPub⟩ := hp.generates priv
    have hne : relayPub ≠ otherPub := by
      rintro rfl
      exact hother hotherPub
    cases hex : Crypto.x25519SharedSecret p priv ephPub with
    | none => simp [openLayer, hex]
    | some other =>
      have hkeys := hseparates ephPub relayPriv priv relayPub otherPub shared other hpub hotherPub
        hne hshared hex
      have hopen := @decrypt_eq_none _ _ _ _ _ _ _ hp hencrypt
        (p.hkdf other.val [] (layerInfoV2 ephPub otherPub) Crypto.aes256KeySize)
        draw.nonce.val [] (.inl hkeys.symm)
      simpa [openLayer, hex, Crypto.x25519PublicFromPrivate, hotherPub, layerInfo, onionVersion,
        Crypto.deriveKey, Crypto.aesGCMDecrypt, htag, show Crypto.aes256KeySize ≠ 0 by decide]
          using hopen

theorem peelOnion_sealOnionLayer (draw : Draw) {relayPriv relayPub : Fixed 32}
    (hpub : Crypto.x25519PublicFromPrivate p relayPriv = some relayPub) {layer : Pb.OnionLayer}
    {bucket : Bool} (hfits : FrameFits layer.marshal bucket) :
    ∃ pkt, sealOnionLayer p draw relayPub layer bucket = some pkt ∧ peelOnion p relayPriv pkt =
      .ok layer ∧
      (Separates p → ∀ priv, Crypto.x25519PublicFromPrivate p priv ≠ some relayPub →
        peelOnion p priv pkt = .error .open) := by
  obtain ⟨framed, hframed, hunpad⟩ := unpadLayer_frameLayer hfits
  obtain ⟨sl, hsealed, hopen, honly⟩ := openLayer_sealLayer hp draw hpub framed
  have hsizes : ¬ (sl.ephemeralXPub.val.length ≠ 32 ∨ sl.nonce.val.length ≠ 12 ∨
    sl.tag.val.length ≠ 16) := by simp
  refine ⟨⟨onionVersion, sl.ephemeralXPub.val, sl.nonce.val, sl.tag.val, sl.ciphertext⟩, ?_, ?_,
    fun hseparates priv hother => ?_⟩
  · simp [sealOnionLayer, hframed, hsealed]
  · unfold peelOnion
    dsimp only
    rw [if_neg hsizes, Fixed.copy_val, Fixed.copy_val, Fixed.copy_val, hopen]
    dsimp only
    rw [hunpad]
    dsimp only
    rw [Pb.OnionLayer.unmarshal_marshal]
  · unfold peelOnion
    dsimp only
    rw [if_neg hsizes, Fixed.copy_val, Fixed.copy_val, Fixed.copy_val, honly hseparates priv hother]

end Peel

section Sizes

open Protobuf

def Grows (p : Primitives) (c : ℕ) : Prop :=
  ∀ key nonce plaintext, key.length = Crypto.aes256KeySize → nonce.length = Crypto.aesGCMNonceSize →
    (p.gcmSeal key nonce plaintext []).length = plaintext.length + (c + Crypto.aesGCMTagSize)

theorem length_frameLayer {b framed : Bytes} {toClass : Bool}
    (h : frameLayer b toClass = some framed) :
    framed.length = (if toClass then layerBucket b.length else UInt32.ofNat b.length + 4).toNat ∧
      4 ≤ framed.length := by
  unfold frameLayer at h
  dsimp only at h
  generalize (if toClass then layerBucket b.length else UInt32.ofNat b.length + 4) = size at h ⊢
  split at h
  · cases h
  · next hsize =>
    cases h
    simp only [List.length_append, length_bigEndian32, List.length_take, List.length_replicate]
    omega

variable {p : Primitives} {c : ℕ} (hgrows : Grows p c)

include hgrows

theorem sealOnionLayer_sizes {draw : Draw} {hopPub : Fixed 32} {layer : Pb.OnionLayer}
    {bucket : Bool} {pkt : Pb.OnionPacket}
    (h : sealOnionLayer p draw hopPub layer bucket = some pkt) :
    ∃ framed, frameLayer layer.marshal bucket = some framed ∧ pkt.marshal.length = 68 +
      Protobuf.framed 5 pkt.encryptedLayer ∧ pkt.encryptedLayer.length = framed.length + c := by
  simp only [sealOnionLayer, Option.bind_eq_bind, Option.bind_eq_some_iff, Option.pure_def,
    Option.some.injEq] at h
  obtain ⟨framed, hframed, sl, hsealed, rfl⟩ := h
  simp only [sealLayer, Option.bind_eq_bind, Option.bind_eq_some_iff, Option.pure_def,
    Option.some.injEq] at hsealed
  obtain ⟨ephPub, -, shared, -, info, -, key, -, ⟨ciphertext, tag⟩, hencrypt, rfl⟩ := hsealed
  have hlength : ciphertext.length = framed.length + c := by
    obtain ⟨hkey, -⟩ := aesGCMEncryptAAD_eq_some hencrypt
    have hseal := hgrows key draw.nonce.val framed hkey (Fixed.length_val _)
    unfold Crypto.aesGCMEncrypt Crypto.aesGCMEncryptAAD at hencrypt
    rw [if_neg (not_not.mpr hkey)] at hencrypt
    cases hencrypt
    rw [List.length_take, hseal]
    omega
  have hne : ciphertext ≠ [] := by
    have hfour := (length_frameLayer hframed).2
    rintro rfl
    rw [List.length_nil] at hlength
    omega
  refine ⟨framed, hframed, ?_, hlength⟩
  have hversion : (encode (int 1 onionVersion.toNat)).length = 2 := by
    have htag : (varint (8 * 1)).length ≤ 0 + 1 := length_varint_le (by norm_num)
    have htag' := List.length_pos_of_ne_nil (varint_ne_nil (8 * 1))
    have htwo : (varint onionVersion.toNat).length ≤ 0 + 1 := length_varint_le (by decide)
    have htwo' := List.length_pos_of_ne_nil (varint_ne_nil onionVersion.toNat)
    rw [length_encode_int, if_neg (by decide)]
    omega
  rw [Pb.OnionPacket.marshal, Pb.OnionPacket.fields]
  simp only [length_encode_append]
  rw [hversion, length_bytes_fixed (by decide) _ (by decide) (by decide),
    length_bytes_fixed (by decide) _ (by decide) (by decide),
      length_bytes_fixed (by decide) _ (by decide) (by decide),
    length_encode_bytes, if_neg hne]

end Sizes

structure KeyedHop (p : Primitives) where
  hop : Hop
  priv : Fixed 32
  public_eq : Crypto.x25519PublicFromPrivate p priv = some hop.x25519Pub

def FramesFit (p : Primitives) (draws : ℕ → Draw) (delivery : Bytes) (ttl : Time) : List Hop → Prop
  | [] => True
  | [_] => FrameFits (Pb.OnionLayer.marshal ⟨deliverHop, ttl.unix, none, delivery⟩) true
  | _ :: next :: route =>
    FramesFit p (fun i => draws (i + 1)) delivery ttl (next :: route) ∧
      ∀ pkt, buildOnion p (fun i => draws (i + 1)) delivery ttl (next :: route) = some pkt →
        FrameFits (Pb.OnionLayer.marshal ⟨next.peerID, ttl.unix, some pkt, []⟩) false

def OnlyFor {p : Primitives} (k : KeyedHop p) (pkt : Pb.OnionPacket) : Prop :=
  ∀ priv, Crypto.x25519PublicFromPrivate p priv ≠ some k.hop.x25519Pub →
    (peelOnion p priv pkt).toOption = none

/-- Peeled by one hop after the other, the packet names each next hop and gives the packet for it,
and at the last hop the delivery; each layer has the expiry, and each packet is for its hop only. -/
def PeelsAlong {p : Primitives} (delivery : Bytes) (ttl : Time) : List (KeyedHop p) →
    Pb.OnionPacket → Prop
  | [], _ => False
  | [k], pkt => OnlyFor k pkt ∧ peelOnion p k.priv pkt = .ok ⟨deliverHop, ttl.unix, none, delivery⟩
  | k :: next :: route, pkt => OnlyFor k pkt ∧
      ∃ inner, peelOnion p k.priv pkt = .ok ⟨next.hop.peerID, ttl.unix, some inner, []⟩ ∧
        PeelsAlong delivery ttl (next :: route) inner

/-- Building and peeling are inverse along every route whose frames fit. -/
theorem peelsAlong_buildOnion {p : Primitives} (hp : p.Ideal) (hseparates : Separates p)
    (draws : ℕ → Draw) (delivery : Bytes) (ttl : Time) {route : List (KeyedHop p)}
    (hroute : route ≠ []) (hfits : FramesFit p draws delivery ttl (route.map KeyedHop.hop)) :
    ∃ pkt, buildOnion p draws delivery ttl (route.map KeyedHop.hop) = some pkt ∧
      PeelsAlong delivery ttl route pkt := by
  induction route generalizing draws with
  | nil => exact absurd rfl hroute
  | cons k route ih =>
    cases route with
    | nil =>
      obtain ⟨pkt, hsealed, hpeel, honly⟩ := peelOnion_sealOnionLayer hp (draws 0) k.public_eq hfits
      refine ⟨pkt, hsealed, fun priv hother => ?_, hpeel⟩
      rw [honly hseparates priv hother]
      rfl
    | cons next route =>
      obtain ⟨hinner, houter⟩ := hfits
      obtain ⟨inner, hbuilt, hpeels⟩ := ih (fun i => draws (i + 1)) (by simp) hinner
      obtain ⟨pkt, hsealed, hpeel, honly⟩ :=
        peelOnion_sealOnionLayer hp (draws 0) k.public_eq (houter inner hbuilt)
      refine ⟨pkt, ?_, fun priv hother => ?_, inner, hpeel, hpeels⟩
      · rw [List.map_cons, List.map_cons, buildOnion, ← List.map_cons, hbuilt]
        exact hsealed
      · rw [honly hseparates priv hother]
        rfl

namespace Sample

open Protobuf

noncomputable def keyed (peerID : String) (b : UInt8) : KeyedHop plainPrimitives :=
  ⟨⟨peerID, Fixed.copy 32 [b]⟩, Fixed.copy 32 [b], public_plain _⟩

def draws : ℕ → Draw := fun _ => ⟨.zero 32, .zero 12⟩

theorem separates_plain : Separates plainPrimitives := by
  intro ephPub a a' A A' shared shared' _ _ hne _ _ heq
  have hlast : ∀ B : Fixed 32, plainPrimitives.hkdf shared.val [] (layerInfoV2 ephPub B)
      Crypto.aes256KeySize =
      B.val := by
    intro B
    have hdrop : (layerInfoV2 ephPub B).drop ((layerInfoV2 ephPub B).length - 32) = B.val := by
      unfold layerInfoV2
      rw [List.length_append, B.length_val, Nat.add_sub_cancel]
      exact List.drop_left
    unfold plainPrimitives Crypto.aes256KeySize
    dsimp only
    rw [hdrop]
    exact Fixed.val_copy_of_length B.length_val
  exact hne (Fixed.ext ((hlast A).symm.trans (heq.trans (hlast A'))))

theorem grows_plain : Grows plainPrimitives 45 := by
  intro key nonce plaintext hkey hnonce
  unfold plainPrimitives
  simp only [List.length_append, List.length_cons, List.length_replicate, List.length_nil, hkey,
    hnonce]
  unfold Crypto.aes256KeySize Crypto.aesGCMNonceSize Crypto.aesGCMTagSize
  omega

def deliveryLayer : Pb.OnionLayer := ⟨deliverHop, (Time.ofUnix 0).unix, none, []⟩

theorem length_deliveryLayer : deliveryLayer.marshal.length = 9 := by
  have hbytes : utf8 deliverHop = [68, 69, 76, 73, 86, 69, 82] := by
    rw [utf8_eq]
    decide
  have hrest : deliveryLayer.marshal = encode (bytes 1 (utf8 deliverHop)) := by
    have hfields : deliveryLayer.fields = bytes 1 (utf8 deliverHop) := by
      unfold Pb.OnionLayer.fields deliveryLayer
      rw [Time.unix_ofUnix]
      simp [int, bytes, repeated, show (Int64.toUInt64 0).toNat = 0 from rfl]
    rw [Pb.OnionLayer.marshal, hfields]
  rw [hrest, hbytes, length_encode_bytes, if_neg (by simp), framed_small (by decide) (by decide)]
  rfl

theorem length_inner {draw : Draw} {hopPub : Fixed 32} {pkt : Pb.OnionPacket}
    (h : sealOnionLayer plainPrimitives draw hopPub deliveryLayer true = some pkt) :
    framed 3 pkt.marshal = 1143 := by
  obtain ⟨frame, hframe, hmarshal, hlength⟩ := sealOnionLayer_sizes grows_plain h
  have hsize : frame.length = 1024 := by
    rw [(length_frameLayer hframe).1, if_pos rfl, length_deliveryLayer]
    rfl
  have hvarint : ∀ n, 128 ≤ n → n < 128 ^ 2 → (varint n).length = 2 := fun n hlow hhigh =>
    length_varint_eq (show 128 ^ 1 ≤ n by omega) hhigh
  have htag : ∀ num, num < 16 → (varint (8 * num + 2)).length = 1 := by
    intro num hnum
    have hle : (varint (8 * num + 2)).length ≤ 0 + 1 := length_varint_le (by omega)
    have hpos := List.length_pos_of_ne_nil (varint_ne_nil (8 * num + 2))
    omega
  unfold framed at hmarshal ⊢
  rw [htag 5 (by decide), hlength, hsize, hvarint _ (by omega) (by norm_num)] at hmarshal
  rw [htag 3 (by decide), hmarshal, hvarint _ (by omega) (by norm_num)]

theorem length_outer (peerID : String) {pkt : Pb.OnionPacket} (h : framed 3 pkt.marshal = 1143) :
    (Pb.OnionLayer.marshal ⟨peerID, (Time.ofUnix 0).unix, some pkt, []⟩).length =
      (encode (bytes 1 (utf8 peerID))).length + 1143 := by
  have hfields : Pb.OnionLayer.fields ⟨peerID, (Time.ofUnix 0).unix, some pkt, []⟩ =
      bytes 1 (utf8 peerID) ++ message 3 pkt.marshal := by
    unfold Pb.OnionLayer.fields
    rw [Time.unix_ofUnix]
    simp [int, bytes, repeated, message, show (Int64.toUInt64 0).toNat = 0 from rfl]
  rw [Pb.OnionLayer.marshal, hfields, length_encode_append, length_encode_message, h]

/-- A route of two hops for an empty delivery. -/
theorem two_hops_peel :
    ∃ pkt, buildOnion plainPrimitives draws [] (Time.ofUnix 0)
        ([keyed "a" 1, keyed "b" 2].map KeyedHop.hop) = some pkt ∧
      PeelsAlong [] (Time.ofUnix 0) [keyed "a" 1, keyed "b" 2] pkt := by
  apply peelsAlong_buildOnion plainPrimitives_ideal separates_plain draws [] (Time.ofUnix 0)
    (by simp)
  refine ⟨?_, fun pkt hpkt => ?_⟩
  · change FrameFits deliveryLayer.marshal true
    unfold FrameFits
    rw [length_deliveryLayer]
    decide
  · have hinner := length_inner hpkt
    have hpeer : (encode (bytes 1 (utf8 "b"))).length = 3 := by
      have hbytes : utf8 "b" = [98] := by
        rw [utf8_eq]
        decide
      rw [hbytes, length_encode_bytes, if_neg (by simp), framed_small (by decide) (by decide)]
      rfl
    unfold FrameFits
    change (Pb.OnionLayer.marshal ⟨"b", (Time.ofUnix 0).unix, some pkt, []⟩).length + 4 + _ < _
    rw [length_outer "b" hinner, hpeer]
    decide

def longPeerID (n : ℕ) : String := String.ofList (List.replicate n 'a')

theorem length_longPeerID (n : ℕ) : (utf8 (longPeerID n)).length = n := by
  have hascii : ∀ c ∈ (longPeerID n).toList, c.toNat ≤ 127 := by
    intro c hc
    rw [longPeerID, String.toList_ofList] at hc
    rw [List.eq_of_mem_replicate hc]
    decide
  rw [length_utf8_ascii hascii, longPeerID, String.toList_ofList, List.length_replicate]

theorem frameLayer_wraps {b : Bytes} (h : b.length = 2 ^ 32) : frameLayer b false = some
    [0, 0, 0, 0] := by
  unfold frameLayer
  rw [h]
  rfl

/-- The delivery fits easily; but the layer of the first hop does not, and peels to a layer that
names no one. -/
theorem long_layer_lost :
    FrameFits deliveryLayer.marshal true ∧
      ∃ pkt, buildOnion plainPrimitives draws [] (Time.ofUnix 0)
          ([keyed "a" 1, keyed (longPeerID 4294966147) 2].map KeyedHop.hop) = some pkt ∧
        peelOnion plainPrimitives (keyed "a" 1).priv pkt = .ok ⟨"", 0, none, []⟩ ∧
        "" ≠ longPeerID 4294966147 := by
  have hfits : FrameFits deliveryLayer.marshal true := by
    unfold FrameFits
    rw [length_deliveryLayer]
    decide
  obtain ⟨inner, hinner, -, -⟩ := peelOnion_sealOnionLayer plainPrimitives_ideal (draws 1)
    (keyed (longPeerID 4294966147) 2).public_eq hfits
  have hlong := length_longPeerID 4294966147
  have hne : utf8 (longPeerID 4294966147) ≠ [] := by
    intro hnil
    rw [hnil] at hlong
    cases hlong
  have hlayer :
      (Pb.OnionLayer.marshal ⟨longPeerID 4294966147, (Time.ofUnix 0).unix, some inner, []⟩).length =
      2 ^ 32 := by
    have htag : (varint (8 * 1 + 2)).length = 0 + 1 := length_varint_eq (by norm_num) (by norm_num)
    have hvarint : (varint 4294966147).length = 4 + 1 :=
      length_varint_eq (by norm_num) (by norm_num)
    rw [length_outer _ (length_inner hinner), length_encode_bytes, if_neg hne, framed, hlong, htag,
      hvarint]
    norm_num
  obtain ⟨sl, hsealed, hopen, -⟩ :=
    openLayer_sealLayer plainPrimitives_ideal (draws 0) (keyed "a" 1).public_eq
    [0, 0, 0, 0]
  refine ⟨hfits, ⟨onionVersion, sl.ephemeralXPub.val, sl.nonce.val, sl.tag.val, sl.ciphertext⟩, ?_,
    ?_, ?_⟩
  · change (buildOnion plainPrimitives (fun i => draws (i + 1)) [] (Time.ofUnix 0)
      [(keyed (longPeerID 4294966147) 2).hop]).bind _ = _
    have hbuilt : buildOnion plainPrimitives (fun i => draws (i + 1)) [] (Time.ofUnix 0)
        [(keyed (longPeerID 4294966147) 2).hop] = some inner := hinner
    rw [hbuilt, Option.bind_some]
    unfold sealOnionLayer
    change (frameLayer (Pb.OnionLayer.marshal ⟨longPeerID 4294966147, (Time.ofUnix 0).unix,
      some inner, []⟩) false).bind
      _ = _
    rw [frameLayer_wraps hlayer, Option.bind_some]
    simp [hsealed]
  · have hsizes : ¬ (sl.ephemeralXPub.val.length ≠ 32 ∨ sl.nonce.val.length ≠ 12 ∨
      sl.tag.val.length ≠ 16) := by simp
    unfold peelOnion
    dsimp only
    have hunpad : unpadLayer [0, 0, 0, 0] = .ok [] := rfl
    have hempty : Pb.OnionLayer.unmarshal [] = some ⟨"", 0, none, []⟩ :=
      Pb.OnionLayer.unmarshal_marshal ⟨"", 0, none, []⟩
    rw [if_neg hsizes, Fixed.copy_val, Fixed.copy_val, Fixed.copy_val, hopen]
    dsimp only
    rw [hunpad]
    dsimp only
    rw [hempty]
  · intro heq
    rw [← heq] at hlong
    cases hlong

end Sample

end Onion

end Dmcn
