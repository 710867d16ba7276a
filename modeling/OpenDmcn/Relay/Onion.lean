import OpenDmcn.Onion.Packet
import OpenDmcn.Relay.SenderBudget

/-! A relay on an onion route (`relay/onion.go`): it peels its layer, remembers the packet, and
passes it on or stores the delivery. A packet that it remembers is acknowledged without being looked
at again. -/

namespace Dmcn.Pb

open Go Protobuf

namespace EncryptedEnvelope

def read (fs : List Field) : Option EncryptedEnvelope := do
  let recipients ← (getRepeated 3 fs).mapM Protobuf.decode
  return {
    version := UInt32.ofNat (getInt 1 fs)
    messageId := getBytes 2 fs
    recipients := recipients.map RecipientRecord.read
    encryptedPayload := getBytes 4 fs
    payloadNonce := getBytes 5 fs
    payloadTag := getBytes 6 fs
    payloadSizeClass := UInt32.ofNat (getInt 7 fs)
    createdAt := (UInt64.ofNat (getInt 8 fs)).toInt64
    ratchetPubKey := getBytes 9 fs
    encryptedHeader := getBytes 10 fs
    headerNonce := getBytes 11 fs
    headerTag := getBytes 12 fs
    headerSizeClass := UInt32.ofNat (getInt 13 fs)
    encryptedBody := getBytes 14 fs
    bodyNonce := getBytes 15 fs
    bodyTag := getBytes 16 fs
    bodySizeClass := UInt32.ofNat (getInt 17 fs)
    bodyContentAddress := getBytes 18 fs }

theorem read_fields (e : EncryptedEnvelope) : read e.fields = some e := by
  have hrecords : ∀ rs : List RecipientRecord,
      (rs.map RecipientRecord.fields).map RecipientRecord.read = rs := by
    intro rs
    rw [List.map_map]
    exact List.map_id'' RecipientRecord.read_fields rs
  have hrecipients : getRepeated 3 e.fields = e.recipients.map RecipientRecord.marshal := by
    delta fields
    simp [getRepeated, asBytes_int, asBytes_bytes, asBytes_repeated]
  unfold read
  rw [hrecipients, MailboxEntry.mapM_decode_marshal]
  delta fields
  simp [getBytes, getInt, asInt_int, asInt_bytes, asInt_repeated, asBytes_int, asBytes_bytes,
    asBytes_repeated, getD_ite_int, getD_ite_bytes, hrecords]

end EncryptedEnvelope

namespace StoreRequest

def readEnvelope (fs : List Field) : Option (Option EncryptedEnvelope) :=
  match getRepeated 3 fs with
  | [] => some none
  | parts => ((Protobuf.decode parts.flatten).bind EncryptedEnvelope.read).map some

def read (fs : List Field) : Option StoreRequest := do
  let senderAddress ← readUtf8 (getBytes 1 fs)
  let envelope ← readEnvelope fs
  return ⟨senderAddress, getBytes 2 fs, envelope⟩

def unmarshal (b : Bytes) : Option StoreRequest := (Protobuf.decode b).bind read

theorem unmarshal_marshal (r : StoreRequest) : unmarshal r.marshal = some r := by
  obtain ⟨senderAddress, senderSignature, envelope⟩ := r
  have hfields : StoreRequest.marshal ⟨senderAddress, senderSignature, envelope⟩ =
      encode (bytes 1 (utf8 senderAddress) ++ bytes 2 senderSignature ++
        repeated 3 (envelope.toList.map EncryptedEnvelope.marshal)) := by
    cases envelope with
    | none => rfl
    | some e => rfl
  have henvelope : readEnvelope (bytes 1 (utf8 senderAddress) ++ bytes 2 senderSignature ++
      repeated 3 (envelope.toList.map EncryptedEnvelope.marshal)) = some envelope := by
    have hparts : getRepeated 3 (bytes 1 (utf8 senderAddress) ++ bytes 2 senderSignature ++
        repeated 3 (envelope.toList.map EncryptedEnvelope.marshal)) =
          envelope.toList.map EncryptedEnvelope.marshal := by
      simp [getRepeated, asBytes_bytes, asBytes_repeated]
    unfold readEnvelope
    rw [hparts]
    cases envelope with
    | none => rfl
    | some e =>
      dsimp only [Option.toList_some, List.map_singleton]
      rw [List.flatten_singleton, EncryptedEnvelope.marshal, decode_encode, Option.bind_some,
        EncryptedEnvelope.read_fields, Option.map_some]
  unfold unmarshal
  rw [hfields, decode_encode, Option.bind_some, read, henvelope]
  simp [getBytes, asBytes_bytes, asBytes_repeated, getD_ite_bytes]

end StoreRequest

end Dmcn.Pb

namespace Dmcn

open Go

def onionSeenTTL : Duration := 10 * Duration.minute

structure OnionConfig where
  relay : RelayConfig
  primitives : Primitives
  onionEnabled : Bool
  onionPriv : Fixed 32

structure OnionRelay where
  state : RelayState
  /-- When each packet hash that is remembered was seen. -/
  onionSeen : Fixed 32 → Option Time

structure OnionSurroundings where
  store : Surroundings
  /-- The clock at the check of the expiry, and when the packet is remembered. -/
  checkedAt : Time
  markedAt : Time
  /-- The packet comes from a relay, or no one can tell. -/
  relayPeer : Bool
  /-- `peer.Decode` accepts the name of the hop. -/
  decodes : String → Bool
  /-- `ClientOnionForward`: the hop answers that it has accepted the packet. -/
  forwards : String → Pb.OnionPacket → Bool

inductive OnionRefusal where
  | disabled | missingPacket | peel | expired | deliver | forward | store (e : StoreRefusal)
  deriving DecidableEq

def onionAlreadySeen (r : OnionRelay) (hash : Fixed 32) : Bool := (r.onionSeen hash).isSome

section Handle

variable (cfg : OnionConfig)

def packetHash (pkt : Pb.OnionPacket) : Fixed 32 := Fixed.copy 32 (cfg.relay.rt.sha256 pkt.marshal)

def markOnionSeen (seen : Fixed 32 → Option Time) (now : Time) (hash : Fixed 32) : Fixed 32 →
    Option Time :=
  Function.update (fun h => (seen h).filter fun at' => now.sub at' ≤ onionSeenTTL) hash (some now)

def onionDeliver (w : OnionSurroundings) (s : RelayState) (delivery : Bytes) :
    RelayState × Except OnionRefusal Unit :=
  if delivery.length = 0 then (s, .error .deliver)
  else
    match Pb.StoreRequest.unmarshal delivery with
    | none => (s, .error .deliver)
    | some sr =>
      match sr.envelope with
      | none => (s, .error .deliver)
      | some pb =>
        match EncryptedEnvelope.fromProto pb with
        | .error _ => (s, .error .deliver)
        | .ok env =>
          let (s', answer) :=
            acceptEnvelope cfg.relay w.store s w.relayPeer sr.senderAddress sr.senderSignature env
            (envelopeHash cfg.relay pb)
          match answer with
          | .error e => (s', .error (.store e))
          | .ok _ => (s', .ok ())

def onionForward (w : OnionSurroundings) (nextHop : String) (inner : Option Pb.OnionPacket) :
    Except OnionRefusal Unit :=
  match inner with
  | none => .error .forward
  | some pkt =>
    if w.decodes nextHop = false then .error .forward
    else if w.forwards nextHop pkt = false then .error .forward
    else .ok ()

def passOn (w : OnionSurroundings) (s : RelayState) (layer : Pb.OnionLayer) :
    RelayState × Except OnionRefusal Unit :=
  if layer.nextHop = Onion.deliverHop then onionDeliver cfg w s layer.delivery
  else (s, onionForward w layer.nextHop layer.inner)

def handleOnion (w : OnionSurroundings) (r : OnionRelay) (packet : Option Pb.OnionPacket) :
    OnionRelay × Except OnionRefusal Unit :=
  if cfg.onionEnabled = false then (r, .error .disabled)
  else
    match packet with
    | none => (r, .error .missingPacket)
    | some pkt =>
      -- a packet that is remembered is acknowledged, however the first attempt ended
      if onionAlreadySeen r (packetHash cfg pkt) then (r, .ok ())
      else
        match Onion.peelOnion cfg.primitives cfg.onionPriv pkt with
        | .error _ => (r, .error .peel)
        | .ok layer =>
          if layer.ttlUnix ≠ 0 ∧ w.checkedAt.unix > layer.ttlUnix then (r, .error .expired)
          else
            let (state, answer) := passOn cfg w r.state layer
            (⟨state, markOnionSeen r.onionSeen w.markedAt (packetHash cfg pkt)⟩, answer)

end Handle

structure OnionCall where
  w : OnionSurroundings
  packet : Option Pb.OnionPacket

/-- A run of the relay, with the packets that got further: the next hop accepted what was in them,
or the delivery was stored. -/
structure OnionRun where
  relay : OnionRelay
  passed : List Pb.OnionPacket

section Run

variable (cfg : OnionConfig)

def Remembered (r : OnionRelay) (pkt : Pb.OnionPacket) : Prop :=
  onionAlreadySeen r (packetHash cfg pkt) = true

instance (r : OnionRelay) (pkt : Pb.OnionPacket) : Decidable (Remembered cfg r pkt) :=
  inferInstanceAs (Decidable (_ = _))

def Succeeds (w : OnionSurroundings) (r : OnionRelay) (pkt : Pb.OnionPacket) : Prop :=
  ∃ layer, Onion.peelOnion cfg.primitives cfg.onionPriv pkt = .ok layer ∧
    ¬ (layer.ttlUnix ≠ 0 ∧ w.checkedAt.unix > layer.ttlUnix) ∧ (passOn cfg w r.state layer).2 =
      .ok ()

open Classical in
/-- One packet is handled; it counts as passed if it was attempted and the attempt got it
further. -/
noncomputable def OnionRun.handle (s : OnionRun) (call : OnionCall) : OnionRun where
  relay := (handleOnion cfg call.w s.relay call.packet).1
  passed :=
    match call.packet with
    | none => s.passed
    | some pkt =>
      if cfg.onionEnabled = true ∧ ¬ Remembered cfg s.relay pkt ∧ Succeeds cfg call.w s.relay pkt
        then pkt :: s.passed
      else s.passed

def AckIsProgress (s : OnionRun) (call : OnionCall) : Prop :=
  ∀ pkt, call.packet = some pkt → (handleOnion cfg call.w s.relay call.packet).2 = .ok () →
    pkt ∈ (s.handle cfg call).passed

def RetrySettled (s : OnionRun) (call : OnionCall) : Prop :=
  cfg.onionEnabled = true → ∀ pkt, call.packet = some pkt → Remembered cfg s.relay pkt →
    pkt ∈ s.passed

variable {cfg}

theorem handleOnion_eq_ok {w : OnionSurroundings} {r : OnionRelay} {pkt : Pb.OnionPacket} :
    (handleOnion cfg w r (some pkt)).2 = .ok () ↔
      cfg.onionEnabled = true ∧
      (Remembered cfg r pkt ∨ ¬ Remembered cfg r pkt ∧ Succeeds cfg w r pkt) := by
  unfold handleOnion
  cases henabled : cfg.onionEnabled with
  | false => simp
  | true =>
    rw [if_neg (by simp)]
    dsimp only
    by_cases hseen : Remembered cfg r pkt
    · rw [if_pos (show onionAlreadySeen r (packetHash cfg pkt) = true from hseen)]
      simp [hseen]
    · rw [if_neg (show ¬ onionAlreadySeen r (packetHash cfg pkt) = true from hseen)]
      simp only [hseen, not_false_eq_true, true_and, false_or]
      unfold Succeeds
      cases hpeel : Onion.peelOnion cfg.primitives cfg.onionPriv pkt with
      | error e => simp
      | ok layer =>
        dsimp only
        by_cases hexpired : layer.ttlUnix ≠ 0 ∧ w.checkedAt.unix > layer.ttlUnix
        · rw [if_pos hexpired]
          simp [hexpired]
        · rw [if_neg hexpired]
          constructor
          · intro h
            exact ⟨layer, rfl, hexpired, h⟩
          · rintro ⟨layer', hlayer, -, h⟩
            cases hlayer
            exact h

theorem passed_handle {s : OnionRun} {w : OnionSurroundings} {pkt : Pb.OnionPacket} :
    pkt ∈ (s.handle cfg ⟨w, some pkt⟩).passed ↔
      pkt ∈ s.passed ∨ cfg.onionEnabled = true ∧ ¬ Remembered cfg s.relay pkt ∧
      Succeeds cfg w s.relay pkt := by
  unfold OnionRun.handle
  dsimp only
  split
  · next h => simp [h]
  · next h => simp [h]

theorem ackIsProgress_iff (s : OnionRun) (call : OnionCall) : AckIsProgress cfg s call ↔
    RetrySettled cfg s call := by
  obtain ⟨w, packet⟩ := call
  cases packet with
  | none =>
    constructor
    · intro _ _ pkt hpkt
      cases hpkt
    · intro _ pkt hpkt
      cases hpkt
  | some pkt =>
    unfold AckIsProgress RetrySettled
    simp only [Option.some.injEq, forall_eq', handleOnion_eq_ok, passed_handle]
    constructor
    · intro h henabled hseen
      rcases h ⟨henabled, .inl hseen⟩ with hpassed | ⟨-, hnew, -⟩
      · exact hpassed
      · exact absurd hseen hnew
    · rintro h ⟨henabled, hseen | ⟨hnew, hsucceeds⟩⟩
      · exact .inl (h henabled hseen)
      · exact .inr ⟨henabled, hnew, hsucceeds⟩

end Run

/-- Over a whole run, acknowledgements mean progress exactly if no packet comes again while the
relay remembers it from an attempt that got nowhere. -/
theorem onion_acks_mean_progress_iff (cfg : OnionConfig) (s : OnionRun) (calls : List OnionCall) :
    Machine.Along (OnionRun.handle cfg) (AckIsProgress cfg) s calls ↔
      Machine.Along (OnionRun.handle cfg) (RetrySettled cfg) s calls :=
  ⟨Machine.Along.imp fun s call => (ackIsProgress_iff s call).mp,
    Machine.Along.imp fun s call => (ackIsProgress_iff s call).mpr⟩

namespace LostOnion

open Onion.Sample Protobuf

noncomputable def cfg : OnionConfig := ⟨Oversized.cfg₀, plainPrimitives, true, (keyed "a" 1).priv⟩

def w (up : Bool) : OnionSurroundings :=
  ⟨Oversized.w₀, Time.ofUnix 7, Time.ofUnix 7, true, fun _ => true, fun _ _ => up⟩

def r₀ : OnionRun := ⟨⟨Oversized.s₀, fun _ => none⟩, []⟩

def layer : Pb.OnionLayer := ⟨"b", 0, some default, []⟩

theorem frameFits_layer : Onion.FrameFits layer.marshal false := by
  have hbytes : utf8 "b" = [98] := by
    rw [utf8_eq]
    decide
  have hempty : Pb.OnionPacket.marshal default = [] := by decide
  have hfields : layer.fields = bytes 1 [98] ++ message 3 [] := by
    unfold Pb.OnionLayer.fields layer
    rw [hbytes]
    simp [hempty, int, bytes, repeated, message, show (Int64.toUInt64 0).toNat = 0 from rfl]
  have hlength : layer.marshal.length = 5 := by
    rw [Pb.OnionLayer.marshal, hfields, length_encode_append, length_encode_message,
      length_encode_bytes, if_neg (by simp), framed_small (by decide) (by decide),
        framed_small (by decide) (by decide)]
    rfl
  unfold Onion.FrameFits
  rw [hlength]
  decide

/-- The next hop is down at the first attempt; the retry is acknowledged though it was never
made. -/
theorem retry_acknowledged_without_attempt :
    ∃ pkt, Onion.peelOnion cfg.primitives cfg.onionPriv pkt = .ok layer ∧
      (handleOnion cfg (w false) r₀.relay (some pkt)).2 = .error .forward ∧
      (handleOnion cfg (w true) (handleOnion cfg (w false) r₀.relay (some pkt)).1 (some pkt)).2 =
      .ok () ∧
      (Machine.run (OnionRun.handle cfg) r₀ [⟨w false, some pkt⟩, ⟨w true, some pkt⟩]).passed =
      [] := by
  obtain ⟨pkt, -, hpeel, -⟩ :=
    Onion.peelOnion_sealOnionLayer plainPrimitives_ideal (draws 0) (keyed "a" 1).public_eq
    frameFits_layer
  have hnew : ¬ Remembered cfg r₀.relay pkt := by simp [Remembered, onionAlreadySeen, r₀]
  have hpeel' : Onion.peelOnion cfg.primitives cfg.onionPriv pkt = .ok layer := hpeel
  have hforward : passOn cfg (w false) r₀.relay.state layer =
      (r₀.relay.state, .error .forward) := by
    unfold passOn
    rw [if_neg (by decide)]
    rfl
  have hfirst : handleOnion cfg (w false) r₀.relay (some pkt) =
      (⟨r₀.relay.state, markOnionSeen r₀.relay.onionSeen (Time.ofUnix 7) (packetHash cfg pkt)⟩,
        .error .forward) := by
    unfold handleOnion
    rw [if_neg (show ¬ cfg.onionEnabled = false by simp [cfg])]
    dsimp only
    rw [if_neg (show ¬ onionAlreadySeen r₀.relay (packetHash cfg pkt) = true from hnew), hpeel']
    dsimp only
    rw [if_neg (by simp [layer]), hforward]
    rfl
  have hremembered : Remembered cfg (handleOnion cfg (w false) r₀.relay (some pkt)).1 pkt := by
    rw [hfirst]
    simp [Remembered, onionAlreadySeen, markOnionSeen]
  have hfails : ¬ Succeeds cfg (w false) r₀.relay pkt := by
    rintro ⟨layer', hlayer, -, hok⟩
    rw [hpeel'] at hlayer
    cases hlayer
    rw [hforward] at hok
    cases hok
  refine ⟨pkt, hpeel', by rw [hfirst], ?_, ?_⟩
  · exact handleOnion_eq_ok.mpr ⟨rfl, .inl hremembered⟩
  · have hnone : (r₀.handle cfg ⟨w false, some pkt⟩).passed = [] := by
      unfold OnionRun.handle
      dsimp only
      rw [if_neg fun h => hfails h.2.2]
      rfl
    change ((r₀.handle cfg ⟨w false, some pkt⟩).handle cfg ⟨w true, some pkt⟩).passed = []
    unfold OnionRun.handle
    dsimp only
    rw [if_neg fun h => h.2.1 hremembered]
    exact hnone

end LostOnion

end Dmcn
