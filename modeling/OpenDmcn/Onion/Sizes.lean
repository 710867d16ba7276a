import OpenDmcn.Onion.Route
import OpenDmcn.Relay.ReadsFit

/-! How large an onion gets (`onion/packet.go`, `relay/onion.go`): the delivery is padded to a size
class, each layer adds its routing, and what is handed to a hop has to fit one frame of the relay
protocol. -/

namespace Dmcn

open Go Protobuf

namespace Onion

def forwardRequest (pkt : Pb.OnionPacket) : Bytes :=
  encode (message 8 (encode (message 1 pkt.marshal)))

def Travels (p : Primitives) (delivery : Bytes) (ttl : Time) : (ℕ → Draw) → List Hop → Prop
  | _, [] => True
  | draws, hop :: route =>
    (∃ pkt frame, buildOnion p draws delivery ttl (hop :: route) = some pkt ∧
      writeMessage (forwardRequest pkt) = .ok frame) ∧
    Travels p delivery ttl (fun i => draws (i + 1)) route

def deliverLayer (delivery : Bytes) (ttl : Time) : Pb.OnionLayer :=
  ⟨deliverHop, ttl.unix, none, delivery⟩

section Classes

theorem toNat_needed {n : ℕ} (h : n + 4 < 2 ^ 32) : (UInt32.ofNat n + 4).toNat = n + 4 := by
  rw [UInt32.toNat_add, UInt32.toNat_ofNat']
  change (n % 2 ^ 32 + 4) % 2 ^ 32 = n + 4
  omega

theorem find_class_le {classes : List UInt32} (hsorted : classes.Pairwise (· ≤ ·))
    {needed c sc : UInt32} (hc : c ∈ classes) (hneeded : needed ≤ c)
    (h : classes.find? (fun sc => decide (needed ≤ sc)) = some sc) :
    sc ≤ c := by
  induction classes with
  | nil => cases hc
  | cons first classes ih =>
    obtain ⟨hfirst, hrest⟩ := List.pairwise_cons.mp hsorted
    rw [List.find?_cons] at h
    by_cases hfits : needed ≤ first
    · rw [decide_eq_true hfits] at h
      cases h
      rcases List.mem_cons.mp hc with rfl | hc
      · exact UInt32.le_refl _
      · exact hfirst c hc
    · rw [decide_eq_false hfits] at h
      rcases List.mem_cons.mp hc with rfl | hc
      · exact absurd hneeded hfits
      · exact ih hrest hc h

theorem layerBucket_le {n : ℕ} (h : n + 4 ≤ 1024 * 1024) : (layerBucket n).toNat ≤ 1024 * 1024 := by
  have hneeded : UInt32.ofNat n + 4 ≤ 1024 * 1024 := by
    rw [UInt32.le_iff_toNat_le, toNat_needed (by omega)]
    exact h
  have hmem : (1024 * 1024 : UInt32) ∈ layerSizeClasses := by decide
  unfold layerBucket
  dsimp only
  cases hclass : layerSizeClasses.find? fun sc => decide (UInt32.ofNat n + 4 ≤ sc) with
  | some sc =>
    have hle := find_class_le (by decide) hmem hneeded hclass
    exact UInt32.le_iff_toNat_le.mp hle
  | none =>
    have hnone := List.find?_eq_none.mp hclass (1024 * 1024) hmem
    exact absurd (decide_eq_true hneeded) hnone

theorem lt_layerBucket {n : ℕ} (h : 1024 * 1024 < n + 4)
    (hmax : n + 4 + (1024 * 1024 - 1) < 2 ^ 32) :
    4 * 1024 * 1024 ≤ (layerBucket n).toNat := by
  have hneeded := @toNat_needed n (by omega)
  have hjump : ∀ sc ∈ layerSizeClasses, 1024 * 1024 < sc → 4 * 1024 * 1024 ≤ sc := by
    have hall : layerSizeClasses.all (fun sc => decide (1024 * 1024 < sc → 4 * 1024 * 1024 ≤ sc)) =
        true := rfl
    exact fun sc hsc => of_decide_eq_true (List.all_eq_true.mp hall sc hsc)
  have hbucket := length_le_layerBucket hmax
  cases hclass : layerSizeClasses.find? fun sc => decide (UInt32.ofNat n + 4 ≤ sc) with
  | some sc =>
    have hle := List.find?_some hclass
    rw [decide_eq_true_iff] at hle
    have hlt : 1024 * 1024 < sc := by
      rw [UInt32.lt_iff_toNat_lt]
      rw [UInt32.le_iff_toNat_le, hneeded] at hle
      exact lt_of_lt_of_le h hle
    have hfour := hjump sc (List.mem_of_find?_eq_some hclass) hlt
    unfold layerBucket
    dsimp only
    rw [hclass]
    exact UInt32.le_iff_toNat_le.mp hfour
  | none =>
    have hnone := List.find?_eq_none.mp hclass (36 * 1024 * 1024) (by decide)
    rw [decide_eq_true_iff, UInt32.le_iff_toNat_le, hneeded] at hnone
    change ¬ n + 4 ≤ 36 * 1024 * 1024 at hnone
    omega

end Classes

section Bounds

theorem framed_le_add {num : ℕ} (hnum : num < 16) {b : Bytes} (hb : b.length < 128 ^ 4) :
    framed num b ≤ b.length + 5 := by
  have htag : (varint (8 * num + 2)).length ≤ 0 + 1 := length_varint_le (by omega)
  have hlength : (varint b.length).length ≤ 3 + 1 := length_varint_le hb
  unfold framed
  omega

theorem length_bytes_le_add {num : ℕ} (hnum : num < 16) {b : Bytes} (hb : b.length < 128 ^ 4) :
    (encode (bytes num b)).length ≤ b.length + 5 := by
  rw [length_encode_bytes]
  split
  · exact Nat.zero_le _
  · exact framed_le_add hnum hb

theorem length_ttl_le (ttl : Int64) : (encode (int 2 ttl.toUInt64.toNat)).length ≤ 11 := by
  have hlt := ttl.toUInt64.toNat_lt
  have hsize : (varint ttl.toUInt64.toNat).length ≤ 9 + 1 :=
    length_varint_le (lt_trans hlt (by norm_num))
  have hone : (varint (8 * 2)).length ≤ 0 + 1 := length_varint_le (by norm_num)
  rw [length_encode_int]
  split
  · exact Nat.zero_le _
  · omega

theorem length_forwardLayer_le {peerID : String} {ttl : Int64} {pkt : Pb.OnionPacket} {n : ℕ}
    (hpeer : (utf8 peerID).length ≤ 2 ^ 16) (hpkt : pkt.marshal.length ≤ n) (hn : n < 128 ^ 4) :
    (Pb.OnionLayer.marshal ⟨peerID, ttl, some pkt, []⟩).length ≤ n + 2 ^ 16 + 21 := by
  have hhop : (encode (bytes 1 (utf8 peerID))).length ≤ (utf8 peerID).length + 5 :=
    length_bytes_le_add (by decide) (lt_of_le_of_lt hpeer (by norm_num))
  have httl := length_ttl_le ttl
  have hinner : framed 3 pkt.marshal ≤ pkt.marshal.length + 5 :=
    framed_le_add (by decide) (lt_of_le_of_lt hpkt hn)
  have hempty : (encode (bytes 4 [])).length = 0 := rfl
  rw [Pb.OnionLayer.marshal, Pb.OnionLayer.fields]
  simp only [length_encode_append, Option.toList_some, List.map_singleton, length_encode_repeated,
    List.sum_singleton, hempty]
  omega

theorem length_le_deliverLayer (delivery : Bytes) (ttl : Time) :
    delivery.length ≤ (deliverLayer delivery ttl).marshal.length := by
  have hdelivery := length_le_bytes 4 delivery
  rw [Pb.OnionLayer.marshal, Pb.OnionLayer.fields, deliverLayer]
  simp only [length_encode_append]
  omega

theorem length_deliverLayer_le {delivery : Bytes} (ttl : Time)
    (h : delivery.length ≤ 36 * 1024 * 1024) :
    (deliverLayer delivery ttl).marshal.length ≤ delivery.length + 100 := by
  have hhop : (encode (bytes 1 (utf8 deliverHop))).length ≤ 4 * 7 + 5 := by
    have hutf8 : (utf8 deliverHop).length ≤ 4 * 7 := length_utf8_le deliverHop
    exact (length_bytes_le_add (by decide) (lt_of_le_of_lt hutf8 (by norm_num))).trans (by omega)
  have httl := length_ttl_le ttl.unix
  have hdelivery : (encode (bytes 4 delivery)).length ≤ delivery.length + 5 :=
    length_bytes_le_add (by decide) (lt_of_le_of_lt h (by norm_num))
  have hnone : (encode (repeated 3 [])).length = 0 := rfl
  rw [Pb.OnionLayer.marshal, Pb.OnionLayer.fields, deliverLayer]
  simp only [length_encode_append, Option.toList_none, List.map_nil, hnone]
  omega

theorem writeMessage_forwardRequest {pkt : Pb.OnionPacket} :
    (∃ frame, writeMessage (forwardRequest pkt) = .ok frame) ↔ (forwardRequest pkt).length ≤
      maxMessageSize := by
  unfold writeMessage
  split
  · next h => simp [h]
  · next h => simpa using h

theorem length_forwardRequest_le {pkt : Pb.OnionPacket} (h : pkt.marshal.length + 10 < 128 ^ 4) :
    (forwardRequest pkt).length ≤ pkt.marshal.length + 10 := by
  have hpacket : framed 1 pkt.marshal ≤ pkt.marshal.length + 5 :=
    framed_le_add (by decide) (by omega)
  have hrequest : framed 8 (encode (message 1 pkt.marshal)) ≤
      (encode (message 1 pkt.marshal)).length + 5 := by
    apply framed_le_add (by decide)
    rw [length_encode_message]
    omega
  rw [length_encode_message] at hrequest
  rw [forwardRequest, length_encode_message]
  omega

theorem length_le_forwardRequest (pkt : Pb.OnionPacket) :
    pkt.marshal.length ≤ (forwardRequest pkt).length := by
  have hpacket := length_le_framed 1 pkt.marshal
  have hrequest := length_le_framed 8 (encode (message 1 pkt.marshal))
  rw [length_encode_message] at hrequest
  rw [forwardRequest, length_encode_message]
  omega

end Bounds

section Travel

variable {p : Primitives} (hp : p.Lawful) (hgrows : Grows p 0) {delivery : Bytes} {ttl : Time}

include hp hgrows

theorem buildOnion_small (hsmall : (deliverLayer delivery ttl).marshal.length + 4 ≤ 1024 * 1024)
    (draws : ℕ → Draw) {route : List (KeyedHop p)} (hroute : route ≠ [])
    (hlength : route.length ≤ defaultHops)
    (hpeers : ∀ k ∈ route, (utf8 k.hop.peerID).length ≤ 2 ^ 16) :
    ∃ pkt, buildOnion p draws delivery ttl (route.map KeyedHop.hop) = some pkt ∧
      pkt.marshal.length ≤ 1024 * 1024 + route.length * (2 ^ 16 + 100) := by
  induction route generalizing draws with
  | nil => exact absurd rfl hroute
  | cons k route ih =>
    cases route with
    | nil =>
      have hfits : FrameFits (deliverLayer delivery ttl).marshal true := by
        unfold FrameFits
        rw [if_pos rfl]
        omega
      obtain ⟨pkt, hsealed⟩ := sealOnionLayer_isSome hp (draws 0) k.public_eq hfits
      obtain ⟨frame, hframe, hmarshal, henc⟩ := sealOnionLayer_sizes hgrows hsealed
      have hbucket := layerBucket_le hsmall
      have hsize := (length_frameLayer hframe).1
      rw [if_pos rfl] at hsize
      have hframed : framed 5 pkt.encryptedLayer ≤ pkt.encryptedLayer.length + 5 :=
        framed_le_add (by decide) (by omega)
      refine ⟨pkt, hsealed, ?_⟩
      rw [List.length_singleton]
      omega
    | cons next route =>
      rw [List.length_cons] at hlength
      obtain ⟨inner, hbuilt, hinner⟩ :=
        ih (fun i => draws (i + 1)) (by simp) (Nat.le_of_succ_le hlength)
        fun k hk => hpeers k (List.mem_cons_of_mem _ hk)
      have hpeer := hpeers next (List.mem_cons_of_mem _ (List.mem_cons_self ..))
      have hhops : (next :: route).length ≤ 2 := Nat.le_of_lt_succ hlength
      have hbound : 1024 * 1024 + (next :: route).length * (2 ^ 16 + 100) ≤ 1024 * 1024 + 2 *
          (2 ^ 16 + 100) :=
        Nat.add_le_add_left (Nat.mul_le_mul_right _ hhops) _
      have hlayer := @length_forwardLayer_le next.hop.peerID ttl.unix inner _ hpeer hinner
        (lt_of_le_of_lt hbound (by norm_num))
      have hfits : FrameFits (Pb.OnionLayer.marshal ⟨next.hop.peerID, ttl.unix, some inner, []⟩)
          false := by
        unfold FrameFits
        rw [if_neg Bool.false_ne_true]
        omega
      obtain ⟨pkt, hsealed⟩ := sealOnionLayer_isSome hp (draws 0) k.public_eq hfits
      obtain ⟨frame, hframe, hmarshal, henc⟩ := sealOnionLayer_sizes hgrows hsealed
      have hsize := (length_frameLayer hframe).1
      rw [if_neg Bool.false_ne_true, toNat_needed (by omega)] at hsize
      have hframed : framed 5 pkt.encryptedLayer ≤ pkt.encryptedLayer.length + 5 :=
        framed_le_add (by decide) (by omega)
      refine ⟨pkt, ?_, ?_⟩
      · rw [List.map_cons, List.map_cons, buildOnion, ← List.map_cons, hbuilt]
        exact hsealed
      · rw [List.length_cons, Nat.succ_mul]
        omega

theorem travels_of_small (hsmall : (deliverLayer delivery ttl).marshal.length + 4 ≤ 1024 * 1024)
    (draws : ℕ → Draw) {route : List (KeyedHop p)} (hlength : route.length ≤ defaultHops)
    (hpeers : ∀ k ∈ route, (utf8 k.hop.peerID).length ≤ 2 ^ 16) :
    Travels p delivery ttl draws (route.map KeyedHop.hop) := by
  induction route generalizing draws with
  | nil => trivial
  | cons k route ih =>
    obtain ⟨pkt, hbuilt, hsize⟩ := buildOnion_small hp hgrows hsmall draws (by simp) hlength hpeers
    have hbound : (k :: route).length * (2 ^ 16 + 100) ≤ 3 * (2 ^ 16 + 100) :=
      Nat.mul_le_mul_right _ hlength
    have hrequest := @length_forwardRequest_le pkt (by omega)
    have hfits : (forwardRequest pkt).length ≤ maxMessageSize := by
      unfold maxMessageSize
      omega
    obtain ⟨frame, hframe⟩ := writeMessage_forwardRequest.mpr hfits
    refine ⟨⟨pkt, frame, hbuilt, hframe⟩, ?_⟩
    rw [List.length_cons] at hlength
    exact ih _ (Nat.le_of_succ_le hlength) fun k hk => hpeers k (List.mem_cons_of_mem _ hk)

omit hp in
theorem small_of_travels (hsize : delivery.length ≤ 36 * 1024 * 1024) {draws : ℕ → Draw}
    {route : List Hop} (hroute : route ≠ []) (h : Travels p delivery ttl draws route) :
    (deliverLayer delivery ttl).marshal.length + 4 ≤ 1024 * 1024 := by
  induction route generalizing draws with
  | nil => exact absurd rfl hroute
  | cons hop route ih =>
    cases route with
    | cons next route => exact ih (by simp) h.2
    | nil =>
      obtain ⟨⟨pkt, frame, hbuilt, hframe⟩, -⟩ := h
      obtain ⟨framed', hframed', hmarshal, henc⟩ := sealOnionLayer_sizes hgrows hbuilt
      have hrequest := writeMessage_forwardRequest.mp ⟨frame, hframe⟩
      have hpacket := length_le_forwardRequest pkt
      have hlayer := length_le_framed 5 pkt.encryptedLayer
      have hlength := (length_frameLayer hframed').1
      rw [if_pos rfl] at hlength
      have hmax := length_deliverLayer_le ttl hsize
      by_contra hlarge
      have hbucket :=
        @lt_layerBucket (deliverLayer delivery ttl).marshal.length (by omega) (by omega)
      change framed'.length = (layerBucket (deliverLayer delivery ttl).marshal.length).toNat
        at hlength
      unfold maxMessageSize at hrequest
      omega

/-- A message travels by onion exactly if its layer, with the length before it, fits the class of 1
MB. -/
theorem travels_iff (draws : ℕ → Draw) (ttl : Time) {route : List (KeyedHop p)}
    (hlength : route.length = defaultHops)
    (hpeers : ∀ k ∈ route, (utf8 k.hop.peerID).length ≤ 2 ^ 16) {req : Pb.StoreRequest}
    (hsize : req.marshal.length ≤ 36 * 1024 * 1024) :
    Travels p req.marshal ttl draws (route.map KeyedHop.hop) ↔
      (deliverLayer req.marshal ttl).marshal.length + 4 ≤ 1024 * 1024 := by
  have hroute : route.map KeyedHop.hop ≠ [] := by
    intro hnil
    rw [List.map_eq_nil_iff.mp hnil] at hlength
    cases hlength
  exact ⟨small_of_travels hgrows hsize hroute, fun hsmall =>
    travels_of_small hp hgrows hsmall draws hlength.le hpeers⟩

end Travel

namespace Large

def barePrimitives : Primitives where
  x25519 a b := some ⟨List.zipWith (· + ·) a.val b.val, length_zipWith_add a b⟩
  basepoint := .zero 32
  hkdf _ _ info n := (Fixed.copy n info).val
  gcmSeal _ _ plaintext _ := plaintext ++ List.replicate 16 0
  gcmOpen _ _ sealed _ := some (sealed.take (sealed.length - 16))

theorem public_bare (a : Fixed 32) : Crypto.x25519PublicFromPrivate barePrimitives a = some a :=
  public_plain a

theorem barePrimitives_lawful : barePrimitives.Lawful where
  generates a := ⟨a, public_bare a⟩
  agrees := plainPrimitives_ideal.agrees
  length_hkdf _ _ _ n := Fixed.length_val _
  tagged key nonce plaintext aad := by simp [barePrimitives, Crypto.aesGCMTagSize]
  opens key nonce plaintext aad := by simp [barePrimitives]

theorem grows_bare : Grows barePrimitives 0 := by
  intro key nonce plaintext _ _
  simp [barePrimitives, Crypto.aesGCMTagSize]

def keyed (peerID : String) (b : UInt8) : KeyedHop barePrimitives :=
  ⟨⟨peerID, Fixed.copy 32 [b]⟩, Fixed.copy 32 [b], public_bare _⟩

def route : List (KeyedHop barePrimitives) := [keyed "entry" 1, keyed "middle" 2, keyed "exit" 3]

theorem length_peerID {k : KeyedHop barePrimitives} (h : k ∈ route) :
    (utf8 k.hop.peerID).length ≤ 2 ^ 16 := by
  have hchars : k.hop.peerID.toList.length ≤ 6 := by
    simp only [route, List.mem_cons, List.not_mem_nil, or_false] at h
    rcases h with rfl | rfl | rfl
    · decide
    · decide
    · decide
  exact (length_utf8_le _).trans (by omega)

def header : Bytes := List.replicate 2097152 0

theorem length_header : header.length = 128 ^ 3 := List.length_replicate

theorem length_large : 1024 * 1024 < (Oversized.request header).marshal.length ∧
    (Oversized.request header).marshal.length ≤ 36 * 1024 * 1024 := by
  have hheader := length_header
  generalize header = h at hheader ⊢
  have hlength := @Oversized.length_request h hheader.ge (by omega)
  rw [Pb.RelayRequest.marshal, length_encode_message] at hlength
  have hle := length_le_framed 1 (Oversized.request h).marshal
  have hframed : framed 1 (Oversized.request h).marshal ≤ (Oversized.request h).marshal.length +
      5 :=
    framed_le_add (by decide) (by omega)
  omega

/-- A message of 2 MB, far below the ceiling, does not travel. -/
theorem large_does_not_travel :
    (Oversized.request header).marshal.length ≤ 36 * 1024 * 1024 ∧
      ¬ Travels barePrimitives (Oversized.request header).marshal (Time.ofUnix 0) Sample.draws
        (route.map KeyedHop.hop) := by
  refine ⟨length_large.2, fun htravels => ?_⟩
  have hsmall := small_of_travels grows_bare length_large.2 (by simp [route]) htravels
  have hlayer := length_le_deliverLayer (Oversized.request header).marshal (Time.ofUnix 0)
  have hlarge := length_large.1
  omega

def small : Pb.StoreRequest := ⟨"a@b", [], none⟩

theorem length_small : small.marshal.length = 5 := by
  have hmarshal : small.marshal = encode (bytes 1 (utf8 "a@b")) := by
    change encode (bytes 1 (utf8 "a@b") ++ [] ++ []) = _
    rw [List.append_nil, List.append_nil]
  rw [hmarshal, Oversized.length_sender]

theorem small_travels :
    Travels barePrimitives small.marshal (Time.ofUnix 0) Sample.draws (route.map KeyedHop.hop) := by
  apply (travels_iff barePrimitives_lawful grows_bare Sample.draws (Time.ofUnix 0) rfl
    (fun k => length_peerID)
    (by rw [length_small]; decide)).mpr
  have hlayer :=
    @length_deliverLayer_le small.marshal (Time.ofUnix 0) (by rw [length_small]; decide)
  rw [length_small] at hlayer
  omega

end Large

end Onion

end Dmcn
