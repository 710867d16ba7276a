import OpenDmcn.Node.OnionSend
import OpenDmcn.Onion.Sizes

/-! A send by onion from end to end: the sender's packet goes from relay to relay, each peels its
layer and answers what the next one answers, and the exit stores what is in the last. -/

namespace Dmcn

open Go Onion

section Peel

variable {p : Primitives} (hp : p.Lawful)

include hp

theorem peelOnion_of_sealed {draw : Draw} {relayPriv relayPub : Fixed 32}
    (hpub : Crypto.x25519PublicFromPrivate p relayPriv = some relayPub) {layer : Pb.OnionLayer}
    {bucket : Bool} (hfits : FrameFits layer.marshal bucket) {pkt : Pb.OnionPacket}
    (h : sealOnionLayer p draw relayPub layer bucket = some pkt) : peelOnion p relayPriv pkt =
    .ok layer := by
  obtain ⟨framed, hframed, hunpad⟩ := unpadLayer_frameLayer hfits
  obtain ⟨ephPub, shared, ciphertext, tag, hshared, hencrypt, hsealed⟩ :=
    sealLayer_eq_some hp draw hpub framed
  have htag : (Fixed.copy 16 tag).val = tag := Fixed.val_copy_of_length (length_tag hp hencrypt)
  have hpacket :
      pkt = ⟨onionVersion, ephPub.val, draw.nonce.val, (Fixed.copy 16 tag).val, ciphertext⟩ := by
    simp only [sealOnionLayer, hframed, hsealed, Option.bind_eq_bind, Option.bind_some,
      Option.pure_def, Option.some.injEq] at h
    exact h.symm
  have hopen :
      openLayer p relayPriv ⟨ephPub, draw.nonce, ciphertext, Fixed.copy 16 tag⟩ onionVersion =
        some framed := by
    have hdecrypt := decrypt_encrypt hp hencrypt
    simpa [openLayer, hpub, hshared, layerInfo, onionVersion, Crypto.deriveKey,
      Crypto.aesGCMDecrypt, htag, show Crypto.aes256KeySize ≠ 0 by decide] using hdecrypt
  rw [hpacket]
  unfold peelOnion
  dsimp only
  rw [if_neg (by simp), Fixed.copy_val, Fixed.copy_val, Fixed.copy_val, hopen]
  dsimp only
  rw [hunpad]
  dsimp only
  rw [Pb.OnionLayer.unmarshal_marshal]

end Peel

/-- A relay that runs the code, in whatever state it is when the packet comes to it. -/
structure Station (p : Primitives) where
  hop : KeyedHop p
  cfg : OnionConfig
  w : OnionSurroundings
  r : OnionRelay
  primitives_eq : cfg.primitives = p
  priv_eq : cfg.onionPriv = hop.priv

namespace Station

variable {p : Primitives}

/-- The relay forwards onion packets, its clock has not passed the expiry, and it can decode the
next hop's name. -/
structure Ready (k : Station p) (ttl : Time) : Prop where
  enabled : k.cfg.onionEnabled = true
  live : ¬ (ttl.unix ≠ 0 ∧ k.w.checkedAt.unix > ttl.unix)
  named : k.hop.hop.peerID ≠ deliverHop
  short : (utf8 k.hop.hop.peerID).length ≤ 2 ^ 16

def asking (k : Station p) (forwards : PeerID → Pb.OnionPacket → Bool) : OnionSurroundings :=
  ⟨k.w.store, k.w.checkedAt, k.w.markedAt, k.w.relayPeer, k.w.decodes, forwards⟩

def acks : List (Station p) → Pb.OnionPacket → Bool
  | [], _ => false
  | k :: rest, pkt =>
    let w := k.asking fun peer inner => (rest.head?.any fun next => next.hop.hop.peerID = peer) &&
      acks rest inner
    (handleOnion k.cfg w k.r (some pkt)).2.toBool

def New : List (Station p) → Pb.OnionPacket → Prop
  | [], _ => True
  | k :: rest, pkt => ¬ Remembered k.cfg k.r pkt ∧
    (∀ next ∈ rest.head?, k.w.decodes next.hop.hop.peerID = true) ∧
      ∀ layer inner, peelOnion k.cfg.primitives k.cfg.onionPriv pkt = .ok layer →
        layer.inner = some inner →
        New rest inner

def Accepts (k : Station p) (senderAddr : String) (senderSig : Bytes) (env : EncryptedEnvelope) :
    Prop :=
  (acceptEnvelope k.cfg.relay k.w.store k.r.state k.w.relayPeer senderAddr senderSig env.reread
    (envelopeHash k.cfg.relay env.toProto)).2.toBool = true

end Station

open Protobuf in
theorem deliveryOf_ne_nil (senderAddr : String) (senderSig : Bytes) (env : EncryptedEnvelope) :
    OnionNode.deliveryOf senderAddr senderSig env ≠ [] := by
  intro hnil
  have hdecode : Protobuf.decode (OnionNode.deliveryOf senderAddr senderSig env) =
      some (bytes 1 (utf8 senderAddr) ++ bytes 2 senderSig ++ message 3 env.toProto.marshal) :=
        Protobuf.decode_encode _
  have hempty : Protobuf.decode [] = some [] := Protobuf.decode_encode []
  rw [hnil, hempty] at hdecode
  have hfields := Option.some.inj hdecode
  simp [message] at hfields

namespace Station

variable {p : Primitives} {k : Station p} {senderAddr : String} {senderSig : Bytes}
  {env : EncryptedEnvelope}

theorem onionDeliver_deliveryOf (forwards : PeerID → Pb.OnionPacket → Bool) :
    (onionDeliver k.cfg (k.asking forwards) k.r.state
      (OnionNode.deliveryOf senderAddr senderSig env)).2 = .ok () ↔
      k.Accepts senderAddr senderSig env := by
  have hlength : ¬ (OnionNode.deliveryOf senderAddr senderSig env).length = 0 := fun h =>
    deliveryOf_ne_nil senderAddr senderSig env (List.eq_nil_of_length_eq_zero h)
  have hread : Pb.StoreRequest.unmarshal (OnionNode.deliveryOf senderAddr senderSig env) =
      some ⟨senderAddr, senderSig, some env.toProto⟩ := Pb.StoreRequest.unmarshal_marshal _
  unfold onionDeliver Accepts asking
  rw [if_neg hlength, hread]
  dsimp only
  rw [EncryptedEnvelope.fromProto_toProto]
  dsimp only
  cases (acceptEnvelope k.cfg.relay k.w.store k.r.state k.w.relayPeer senderAddr senderSig
    env.reread
    (envelopeHash k.cfg.relay env.toProto)).2 with
  | ok hash => simp [Except.toBool]
  | error e => simp [Except.toBool]

theorem handleOnion_layer (forwards : PeerID → Pb.OnionPacket → Bool) {ttl : Time}
    (hready : k.Ready ttl) {pkt : Pb.OnionPacket} (hnew : ¬ Remembered k.cfg k.r pkt)
    {layer : Pb.OnionLayer} (hpeel : peelOnion k.cfg.primitives k.cfg.onionPriv pkt = .ok layer)
    (httl : layer.ttlUnix = ttl.unix) :
    (handleOnion k.cfg (k.asking forwards) k.r (some pkt)).2.toBool = true ↔
      (passOn k.cfg (k.asking forwards) k.r.state layer).2 = .ok () := by
  have hlive : ¬ (layer.ttlUnix ≠ 0 ∧ k.w.checkedAt.unix > layer.ttlUnix) := by
    rw [httl]
    exact hready.live
  have hbool : (handleOnion k.cfg (k.asking forwards) k.r (some pkt)).2.toBool = true ↔
      (handleOnion k.cfg (k.asking forwards) k.r (some pkt)).2 = .ok () := by
    cases (handleOnion k.cfg (k.asking forwards) k.r (some pkt)).2 with
    | ok u => simp [Except.toBool]
    | error e => simp [Except.toBool]
  rw [hbool, handleOnion_eq_ok]
  constructor
  · rintro ⟨-, hseen | ⟨-, layer', hlayer', -, hpassed⟩⟩
    · exact absurd hseen hnew
    · rw [hpeel] at hlayer'
      rw [Except.ok.inj hlayer']
      exact hpassed
  · intro hpassed
    exact ⟨hready.enabled, .inr ⟨hnew, layer, hpeel, hlive, hpassed⟩⟩

section Chain

variable (hp : p.Lawful) (hgrows : Grows p 0) {ttl : Time}
  (hsmall : (deliverLayer (OnionNode.deliveryOf senderAddr senderSig env) ttl).marshal.length + 4 ≤
    1024 * 1024)

include hp hgrows hsmall

theorem frameFits_forward {draws : ℕ → Draw} {next : Station p} {rest : List (Station p)}
    (hlength : (next :: rest).length ≤ 2)
    (hready : ∀ k ∈ next :: rest, k.Ready ttl) {inner : Pb.OnionPacket}
    (hbuilt : buildOnion p draws (OnionNode.deliveryOf senderAddr senderSig env) ttl
      ((next :: rest).map fun k => k.hop.hop) = some inner) :
    FrameFits (Pb.OnionLayer.marshal ⟨next.hop.hop.peerID, ttl.unix, some inner, []⟩) false := by
  have hkeyed : (next :: rest).map (fun k => k.hop.hop) = ((next :: rest).map Station.hop).map
      KeyedHop.hop := by
    rw [List.map_map]
    rfl
  rw [hkeyed] at hbuilt
  obtain ⟨pkt, hpkt, hsize⟩ := buildOnion_small hp hgrows hsmall draws
    (show (next :: rest).map Station.hop ≠ [] by simp)
      (by rw [List.length_map]; exact hlength.trans (by decide))
    (by
      intro h hmem
      obtain ⟨k, hk, rfl⟩ := List.mem_map.mp hmem
      exact (hready k hk).short)
  rw [hbuilt] at hpkt
  cases hpkt
  rw [List.length_map] at hsize
  have hbound : 1024 * 1024 + (next :: rest).length * (2 ^ 16 + 100) ≤ 1024 * 1024 + 2 *
      (2 ^ 16 + 100) :=
    Nat.add_le_add_left (Nat.mul_le_mul_right _ hlength) _
  have hlayer := @length_forwardLayer_le next.hop.hop.peerID ttl.unix inner _
    (hready next (List.mem_cons_self ..)).short hsize (lt_of_le_of_lt hbound (by norm_num))
  unfold FrameFits
  rw [if_neg Bool.false_ne_true]
  omega

theorem acks_iff {draws : ℕ → Draw} {sts : List (Station p)} (hsts : sts ≠ [])
    (hlength : sts.length ≤ 3) (hready : ∀ k ∈ sts, k.Ready ttl) {pkt : Pb.OnionPacket}
    (hbuilt : buildOnion p draws (OnionNode.deliveryOf senderAddr senderSig env) ttl
      (sts.map fun k => k.hop.hop) = some pkt)
    (hnew : New sts pkt) :
    acks sts pkt = true ↔ ∃ k ∈ sts.getLast?, k.Accepts senderAddr senderSig env := by
  -- induction on the relays still to come; each layer is the one that the builder sealed to the
  -- relay
  induction sts generalizing draws pkt with
  | nil => exact absurd rfl hsts
  | cons k rest ih =>
    obtain ⟨hfresh, hnames, hinner⟩ := hnew
    have hk := hready k (List.mem_cons_self ..)
    have hpub : Crypto.x25519PublicFromPrivate p k.hop.priv = some k.hop.hop.x25519Pub :=
      k.hop.public_eq
    cases rest with
    | nil =>
      have hfits : FrameFits
          (deliverLayer (OnionNode.deliveryOf senderAddr senderSig env) ttl).marshal true := by
        unfold FrameFits
        rw [if_pos rfl]
        omega
      have hpeel : peelOnion k.cfg.primitives k.cfg.onionPriv pkt =
          .ok (deliverLayer (OnionNode.deliveryOf senderAddr senderSig env) ttl) := by
        rw [k.primitives_eq, k.priv_eq]
        exact peelOnion_of_sealed hp hpub hfits hbuilt
      have hname : (deliverLayer (OnionNode.deliveryOf senderAddr senderSig env) ttl).nextHop =
          deliverHop := rfl
      rw [acks, handleOnion_layer _ hk hfresh hpeel rfl, passOn, if_pos hname]
      have hexit : (∃ k' ∈ [k].getLast?, k'.Accepts senderAddr senderSig env) ↔
          k.Accepts senderAddr senderSig env := by
        simp
      rw [hexit]
      exact onionDeliver_deliveryOf _
    | cons next rest =>
      rw [List.map_cons, List.map_cons, buildOnion,
        ← List.map_cons (f := fun k : Station p => k.hop.hop)] at hbuilt
      obtain ⟨inner, hinnerBuilt, hsealed⟩ := Option.bind_eq_some_iff.mp hbuilt
      have hrest : ∀ k' ∈ next :: rest, k'.Ready ttl :=
        fun k' hk' => hready k' (List.mem_cons_of_mem _ hk')
      have hshort : (next :: rest).length ≤ 2 := Nat.le_of_succ_le_succ hlength
      have hpeel : peelOnion k.cfg.primitives k.cfg.onionPriv pkt =
          .ok ⟨next.hop.hop.peerID, ttl.unix, some inner, []⟩ := by
        rw [k.primitives_eq, k.priv_eq]
        exact peelOnion_of_sealed hp hpub
          (frameFits_forward hp hgrows hsmall hshort hrest hinnerBuilt) hsealed
      have hnext :=
        ih (by simp) (hshort.trans (by decide)) hrest hinnerBuilt (hinner _ inner hpeel rfl)
      have hnamed : next.hop.hop.peerID ≠ deliverHop := (hrest next (List.mem_cons_self ..)).named
      have hdecodes : k.w.decodes next.hop.hop.peerID = true := hnames next rfl
      rw [acks, handleOnion_layer _ hk hfresh hpeel rfl, passOn, if_neg hnamed,
        List.getLast?_cons_cons, ← hnext]
      simp [onionForward, asking, hdecodes]

end Chain

end Station

/-- A packet that relays carry which run the code: they answer as the entry among them does, each is
ready for it and none has seen it. -/
structure CarriedPacket (n : OnionNode) (h : Handed) (sts : List (Station n.primitives)) :
    Prop where
  hops : sts.map (fun k => k.hop.hop) = h.route.map RelayDescriptor.hop
  acked : h.accepted = Station.acks sts h.packet
  ready : ∀ k ∈ sts, k.Ready (h.attempt.now.add onionPacketTTL)
  fresh : Station.New sts h.packet

namespace OnionNode

/-- Over relays that run the code an onion send is answered as a STORE with the exit is: it succeeds
just if the last exit took the envelope, and none took it before, so that it is stored once or not
at all. -/
theorem onion_send_acknowledged_iff (n : OnionNode) (hp : n.primitives.Lawful)
    (hgrows : Grows n.primitives 0) (now : Time) (attempts : Fin 3 → OnionAttempt)
    (senderAddr : String) (senderSig : Bytes) (relayHints : List String)
    (env : EncryptedEnvelope) (relaxed : Bool) (stations : Handed → List (Station n.primitives))
    (hcarried : ∀ h ∈
      (n.sendOnionPreSigned now attempts senderAddr senderSig relayHints env relaxed).1,
      CarriedPacket n h (stations h))
    (hsmall : ∀ h ∈
      (n.sendOnionPreSigned now attempts senderAddr senderSig relayHints env relaxed).1,
      (deliverLayer (deliveryOf senderAddr senderSig env)
        (h.attempt.now.add onionPacketTTL)).marshal.length + 4 ≤
        1024 * 1024) :
    let sent := n.sendOnionPreSigned now attempts senderAddr senderSig relayHints env relaxed
    (sent.2 = .ok (Fixed.copy 32 (n.join.rt.sha256 env.toProto.marshal)) ↔
      ∃ h ∈ sent.1.getLast?, ∃ k ∈ (stations h).getLast?, k.Accepts senderAddr senderSig env) ∧
    ∀ h ∈ sent.1.dropLast, ∀ k ∈ (stations h).getLast?, ¬ k.Accepts senderAddr senderSig env := by
  intro sent
  obtain ⟨-, ⟨hlast, hearlier⟩, hhanded⟩ :=
    n.sendOnionPreSigned_spec now attempts senderAddr senderSig relayHints env relaxed
  have hexit : ∀ h ∈ sent.1,
      (h.accepted = true ↔ ∃ k ∈ (stations h).getLast?, k.Accepts senderAddr senderSig env) := by
    intro h hh
    obtain ⟨hhops, hacked, hready, hfresh⟩ := hcarried h hh
    obtain ⟨-, exitID, candidates, -, hselected, hbuilt, -⟩ := hhanded h hh
    obtain ⟨front, exit, hroute, htwo, -⟩ := selectRelays_leads hselected
    have hthree : (stations h).length = 3 := by
      have hlengths := congrArg List.length hhops
      rwa [List.length_map, List.length_map, hroute, List.length_append, htwo] at hlengths
    have hsts : stations h ≠ [] := fun hnil => by simp [hnil] at hthree
    rw [← hhops] at hbuilt
    rw [hacked]
    exact Station.acks_iff hp hgrows (hsmall h hh) hsts hthree.le hready hbuilt hfresh
  refine ⟨?_, ?_⟩
  · rw [hlast]
    refine exists_congr fun h => and_congr_right fun hh => hexit h (List.mem_of_getLast? hh)
  · intro h hh k hk haccepts
    have hrefused := hearlier h hh
    have haccepted := (hexit h (List.dropLast_subset _ hh)).mpr ⟨k, hk, haccepts⟩
    rw [hrefused] at haccepted
    exact Bool.false_ne_true haccepted

end OnionNode

namespace SmallOnion

open Large (barePrimitives keyed)
open Protobuf

noncomputable def station (peerID : String) (b : UInt8) : Station barePrimitives where
  hop := keyed peerID b
  cfg := ⟨Oversized.cfg₀, barePrimitives, true, (keyed peerID b).priv⟩
  w := ⟨Oversized.w₀, Time.ofUnix 7, Time.ofUnix 7, true, fun _ => true, fun _ _ => false⟩
  r := ⟨Oversized.s₀, fun _ => none⟩
  primitives_eq := rfl
  priv_eq := rfl

noncomputable def stations : List (Station barePrimitives) :=
  [station "entry" 1, station "middle" 2, station "exit" 3]

def advertised (peerID : String) (b : UInt8) : Advertised :=
  ⟨⟨peerID, Fixed.copy 32 [b], [], ""⟩, Time.ofUnix 0, 1, [], none⟩

noncomputable def node : OnionNode where
  join := .lone
  primitives := barePrimitives
  ip4 := fun _ => none
  credentialDAR := none
  blockedDomains := []
  hostPeers := ["entry", "middle", "exit"]
  peers := []
  parseRelayHint := some
  decodes := fun _ => true
  selfValid := fun _ => true
  fetchDescriptor := fun _ peer =>
    if peer = "entry" then some (advertised peer 1)
    else if peer = "middle" then some (advertised peer 2)
    else some (advertised peer 3)

noncomputable def attempt : OnionAttempt :=
  ⟨id, Sample.draws, Time.ofUnix 0, fun _ pkt => Station.acks stations pkt⟩

noncomputable def sent : List Handed × Except SendOnionError (Fixed 32) :=
  node.sendOnionPreSigned (Time.ofUnix 0) (fun _ => attempt) "a@b" Oversized.signature ["exit"]
    (Oversized.envelope []) true

theorem new_stations (sts : List (Station barePrimitives)) (hsts : sts ⊆ stations)
    (pkt : Pb.OnionPacket) :
    Station.New sts pkt := by
  induction sts generalizing pkt with
  | nil => trivial
  | cons k rest ih =>
    obtain ⟨hk, hrest⟩ := List.cons_subset.mp hsts
    have hempty : k.r.onionSeen = (fun _ => none) ∧ ∀ name, k.w.decodes name = true := by
      simp only [stations, List.mem_cons, List.not_mem_nil, or_false] at hk
      rcases hk with rfl | rfl | rfl
      · exact ⟨rfl, fun _ => rfl⟩
      · exact ⟨rfl, fun _ => rfl⟩
      · exact ⟨rfl, fun _ => rfl⟩
    refine ⟨?_, fun next _ => hempty.2 _, fun layer inner _ _ => ih hrest inner⟩
    simp [Remembered, onionAlreadySeen, hempty.1]

theorem ready_stations {k : Station barePrimitives} (hk : k ∈ stations) :
    k.Ready ((Time.ofUnix 0).add onionPacketTTL) := by
  have hshort : k.hop ∈ Large.route → (utf8 k.hop.hop.peerID).length ≤ 2 ^ 16 :=
    fun h => Large.length_peerID h
  simp only [stations, List.mem_cons, List.not_mem_nil, or_false] at hk
  rcases hk with rfl | rfl | rfl
  · exact ⟨rfl, by decide, by decide, hshort (by simp [Large.route, station])⟩
  · exact ⟨rfl, by decide, by decide, hshort (by simp [Large.route, station])⟩
  · exact ⟨rfl, by decide, by decide, hshort (by simp [Large.route, station])⟩

def candidates : List Advertised :=
  [advertised "entry" 1, advertised "middle" 2, advertised "exit" 3]

theorem directory_node : node.relayDirectory (Time.ofUnix 0) = candidates := rfl

theorem chooseExit_node :
    node.chooseExit (Time.ofUnix 0) (node.relayDirectory (Time.ofUnix 0)) ["exit"] =
      some ("exit", candidates) := by
  rw [directory_node]
  rfl

theorem selected : selectRelays node.ip4 attempt.shuffle (candidates.map Advertised.relay) "exit"
    ⟨0, true, ""⟩ =
    .ok (candidates.map Advertised.relay) := rfl

theorem length_delivery :
    (OnionNode.deliveryOf "a@b" Oversized.signature (Oversized.envelope [])).length ≤ 1200 := by
  have henvelope : (Oversized.envelope []).toProto.marshal.length ≤ 1000 := by decide +kernel
  have hsig : (encode (bytes 2 Oversized.signature)).length = 66 :=
    length_bytes_fixed (show 2 < 16 by decide) (Fixed.zero 64) (by decide) (by decide)
  have hframed := framed_le_add (show 3 < 16 by decide) (lt_of_le_of_lt henvelope (by norm_num))
  rw [OnionNode.deliveryOf, Pb.StoreRequest.marshal]
  simp only [length_encode_append, Option.elim_some, Oversized.length_sender, hsig,
    length_encode_message]
  omega

theorem small_layer (ttl : Time) :
    (deliverLayer (OnionNode.deliveryOf "a@b" Oversized.signature (Oversized.envelope []))
      ttl).marshal.length + 4 ≤
      1024 * 1024 := by
  have hdelivery := length_delivery
  have hlayer := length_deliverLayer_le ttl (hdelivery.trans (by norm_num))
  omega

theorem carried_sent (h : Handed) (hh : h ∈ sent.1) : CarriedPacket node h stations := by
  obtain ⟨-, -, hhanded⟩ := node.sendOnionPreSigned_spec (Time.ofUnix 0) (fun _ => attempt) "a@b"
    Oversized.signature ["exit"] (Oversized.envelope []) true
  obtain ⟨⟨-, hattempt⟩, exitID, candidates', hchoice, hselected, -, entry, -, haccepted⟩ :=
    hhanded h hh
  rw [chooseExit_node] at hchoice
  cases hchoice
  rw [← hattempt, selected] at hselected
  have hroute : h.route = candidates.map Advertised.relay := (Except.ok.inj hselected).symm
  refine ⟨by rw [hroute]; rfl, by rw [haccepted, ← hattempt]; rfl, ?_,
    new_stations stations (fun _ hk => hk) h.packet⟩
  intro k hk
  rw [← hattempt]
  exact ready_stations hk

theorem sent_ne_nil : sent.1 ≠ [] := by
  have hroute : (candidates.map Advertised.relay).map RelayDescriptor.hop =
      Large.route.map KeyedHop.hop := rfl
  obtain ⟨pkt, hbuilt, -⟩ := buildOnion_small Large.barePrimitives_lawful Large.grows_bare
    (small_layer ((Time.ofUnix 0).add onionPacketTTL)) Sample.draws
      (show Large.route ≠ [] by simp [Large.route]) le_rfl
    fun k => Large.length_peerID
  unfold sent OnionNode.sendOnionPreSigned
  rw [if_neg (by decide), chooseExit_node]
  dsimp only
  rw [List.ofFn_succ]
  exact OnionNode.sendLoop_ne_nil selected rfl (hroute ▸ hbuilt)

/-- The exit named by the one hint takes a message of the only sender it knows. -/
theorem onion_send_acknowledged_iff_exit : sent.1 ≠ [] ∧
    (sent.2 = .ok (Fixed.copy 32 (node.join.rt.sha256 (Oversized.envelope []).toProto.marshal)) ↔
      ∃ h ∈ sent.1.getLast?, ∃ k ∈ stations.getLast?,
        k.Accepts "a@b" Oversized.signature (Oversized.envelope [])) ∧
    ∀ h ∈ sent.1.dropLast, ∀ k ∈ stations.getLast?,
      ¬ k.Accepts "a@b" Oversized.signature (Oversized.envelope []) :=
  ⟨sent_ne_nil, node.onion_send_acknowledged_iff Large.barePrimitives_lawful Large.grows_bare
    (Time.ofUnix 0)
    (fun _ => attempt) "a@b" Oversized.signature ["exit"] (Oversized.envelope []) true
      (fun _ => stations) carried_sent
    fun _ _ => small_layer _⟩

end SmallOnion

end Dmcn
