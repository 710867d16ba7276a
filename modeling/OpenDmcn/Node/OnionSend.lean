import OpenDmcn.Node.Join
import OpenDmcn.Onion.Route
import OpenDmcn.Relay.Onion

/-! Sending by onion (`onionsend.go`): the relays that may be on a route are gathered from the peers
of the node, each behind the gate of its node credential; the exit is the recipient's relay; and the
packet goes to the entry, over a fresh route after each failure. -/

namespace Dmcn

open Go Guard

structure Advertised where
  relay : RelayDescriptor
  createdAt : Time
  revision : UInt64
  signature : Bytes
  credential : Option Credential

structure OnionNode where
  join : JoinNode
  primitives : Primitives
  ip4 : String → Option String
  credentialDAR : Option DomainAuthorityRecord
  blockedDomains : List String
  /-- `n.host.Network().Peers()` -/
  hostPeers : List PeerID
  /-- the configured peers, as relay hints -/
  peers : List String
  parseRelayHint : String → Option PeerID
  /-- `peer.Decode` accepts the name -/
  decodes : PeerID → Bool
  /-- the signature of a descriptor under the key of the peer ID that it names -/
  selfValid : Advertised → Bool
  /-- the descriptor that a peer hands out when asked for its own -/
  fetchDescriptor : Time → PeerID → Option Advertised

namespace OnionNode

variable (n : OnionNode)

/-- `ResolveRelayDescriptor` for another peer; the branch for the node's own, which reads its store,
is left out. Whether the descriptor names the peer that was asked is not looked at. -/
def resolveRelayDescriptor (now : Time) (peer : PeerID) : Option Advertised :=
  if n.decodes peer then (n.fetchDescriptor now peer).filter n.selfValid else none

def relayCredentialValid (now : Time) (d : Advertised) : Bool :=
  match d.credential with
  | none => false
  | some cred =>
    if !cred.hasRole roleNode then false
    else if !n.decodes d.relay.peerID then false
    else if n.join.extractPublicKey d.relay.peerID ≠ some cred.subject then false
    else if n.join.operatorPub.length = Crypto.ed25519PublicKeySize ∧
      cred.issuerPub = n.join.operatorPub then
      (verifyFleetCredential n.join.rt cred n.join.operatorPub now).toBool
    else
      match n.credentialDAR with
      | some dar =>
        if cred.domain = dar.domain
          then (n.join.registry.verifyCredentialWithDAR n.join.rt now cred dar).toBool
        else (n.join.registry.verifyCredential n.join.rt now cred).1.toBool
      | none => (n.join.registry.verifyCredential n.join.rt now cred).1.toBool

def trusts (now : Time) (d : Advertised) : Bool :=
  n.join.credential.isNone || n.relayCredentialValid now d && !d.credential.any fun c =>
    n.blockedDomains.contains (Strings.toLower n.join.rt.unicode c.domain)

def directoryPeers : List PeerID :=
  ((n.hostPeers ++ n.peers.filterMap n.parseRelayHint).foldl
    (fun seen id => if id = "" ∨ id ∈ seen then seen else id :: seen) []).reverse

def relayDirectory (now : Time) : List Advertised :=
  (n.directoryPeers.filterMap (n.resolveRelayDescriptor now)).filter (n.trusts now)

/-- The exit: the first hint of the recipient with a descriptor. A relay that is not in the
directory is asked for its own, and joins the candidates without the gate. -/
def chooseExit (now : Time) (candidates : List Advertised) : List String →
    Option (PeerID × List Advertised)
  | [] => none
  | hint :: hints =>
    match n.parseRelayHint hint with
    | none => chooseExit now candidates hints
    | some pid =>
      if candidates.any fun d => d.relay.peerID = pid then some (pid, candidates)
      else
        match n.resolveRelayDescriptor now pid with
        | none => chooseExit now candidates hints
        | some d => some (pid, candidates ++ [d])

end OnionNode

inductive SendOnionError where
  | noRelayHints | noExit | route (e : RouteError) | build | retries
  deriving DecidableEq

structure OnionAttempt where
  shuffle : ℕ → ℕ
  layers : ℕ → Onion.Draw
  now : Time
  /-- `ClientOnionForward` ends without an error -/
  forwards : PeerID → Pb.OnionPacket → Bool

def onionPacketTTL : Duration := 5 * Duration.minute

structure Handed where
  attempt : OnionAttempt
  route : List RelayDescriptor
  packet : Pb.OnionPacket
  accepted : Bool

namespace OnionNode

variable (n : OnionNode)

def sendLoop (candidates : List RelayDescriptor) (exitID : PeerID) (relaxed : Bool)
    (delivery : Bytes) (hash : Fixed 32) : List OnionAttempt →
    List Handed × Except SendOnionError (Fixed 32)
  | [] => ([], .error .retries)
  | a :: attempts =>
    match selectRelays n.ip4 a.shuffle candidates exitID ⟨0, relaxed, ""⟩ with
    | .error e => ([], .error (.route e))
    | .ok route =>
      match route with
      | [] => ([], .error .build)
      | entry :: _ =>
        if !n.decodes entry.peerID then sendLoop candidates exitID relaxed delivery hash attempts
        else
          match Onion.buildOnion n.primitives a.layers delivery (a.now.add onionPacketTTL)
              (route.map RelayDescriptor.hop) with
          | none => ([], .error .build)
          | some pkt =>
            if a.forwards entry.peerID pkt then ([⟨a, route, pkt, true⟩], .ok hash)
            else
              let (log, answer) := sendLoop candidates exitID relaxed delivery hash attempts
              (⟨a, route, pkt, false⟩ :: log, answer)

def deliveryOf (senderAddr : String) (senderSig : Bytes) (env : EncryptedEnvelope) : Bytes :=
  Pb.StoreRequest.marshal ⟨senderAddr, senderSig, some env.toProto⟩

def sendOnionPreSigned (now : Time) (attempts : Fin 3 → OnionAttempt) (senderAddr : String)
    (senderSig : Bytes) (relayHints : List String) (env : EncryptedEnvelope) (relaxed : Bool) :
    List Handed × Except SendOnionError (Fixed 32) :=
  if relayHints.isEmpty then ([], .error .noRelayHints)
  else
    match n.chooseExit now (n.relayDirectory now) relayHints with
    | none => ([], .error .noExit)
    | some (exitID, candidates) =>
      n.sendLoop (candidates.map Advertised.relay) exitID relaxed
        (deliveryOf senderAddr senderSig env)
        (Fixed.copy 32 (n.join.rt.sha256 env.toProto.marshal)) (List.ofFn attempts)

end OnionNode

/-! The relays of a route without a guard. -/

section Fill

variable {ip4 : String → Option String}

theorem fillHops_subset {relaxed : Bool} {left : ℕ} {u : Used} {pool : List RelayDescriptor} :
    fillHops ip4 relaxed left u pool ⊆ pool := by
  induction pool generalizing left u with
  | nil => simp [fillHops]
  | cons c pool ih =>
    cases left with
    | zero => simp [fillHops]
    | succ left =>
      unfold fillHops
      split
      · exact List.cons_subset_cons _ ih
      · exact List.subset_cons_of_subset _ ih

theorem admits_peer {u : Used} {relaxed : Bool} {c : RelayDescriptor}
    (h : u.admits ip4 relaxed c = true) :
    c.peerID ∉ u.peers := by
  unfold Used.admits at h
  simpa using (Bool.and_eq_true_iff.mp h).1

theorem fillHops_peers {relaxed : Bool} {left : ℕ} {u : Used} {pool : List RelayDescriptor} :
    ((fillHops ip4 relaxed left u pool).map RelayDescriptor.peerID).Nodup ∧
      ∀ d ∈ fillHops ip4 relaxed left u pool, d.peerID ∉ u.peers := by
  induction pool generalizing left u with
  | nil => simp [fillHops]
  | cons c pool ih =>
    cases left with
    | zero => simp [fillHops]
    | succ left =>
      unfold fillHops
      split
      · next hadmits =>
        obtain ⟨hnodup, hfresh⟩ := @ih left (u.reserve ip4 c)
        have hother : ∀ d ∈ fillHops ip4 relaxed left (u.reserve ip4 c) pool,
            d.peerID ≠ c.peerID ∧ d.peerID ∉ u.peers := by
          intro d hd
          have hnot := hfresh d hd
          simp only [Used.reserve, List.mem_cons, not_or] at hnot
          exact hnot
        rw [List.map_cons, List.nodup_cons]
        refine ⟨⟨?_, hnodup⟩, ?_⟩
        · intro hmem
          obtain ⟨d, hd, heq⟩ := List.mem_map.mp hmem
          exact (hother d hd).1 heq
        · intro d hd
          rcases List.mem_cons.mp hd with rfl | hd
          · exact admits_peer hadmits
          · exact (hother d hd).2
      · exact ih

theorem length_fillHops_le {relaxed : Bool} {left : ℕ} {u : Used} {pool : List RelayDescriptor} :
    (fillHops ip4 relaxed left u pool).length ≤ left := by
  induction pool generalizing left u with
  | nil => simp [fillHops]
  | cons c pool ih =>
    cases left with
    | zero => simp [fillHops]
    | succ left =>
      unfold fillHops
      split
      · exact Nat.succ_le_succ ih
      · exact ih

structure Leads (candidates : List RelayDescriptor) (exitID : PeerID)
    (route front : List RelayDescriptor) (exit : RelayDescriptor) : Prop where
  eq_append : route = front ++ [exit]
  hops : front.length = 2
  exitMem : exit ∈ candidates
  exitPeer : exit.peerID = exitID
  pool : front ⊆ poolOf candidates exitID
  peers : (route.map RelayDescriptor.peerID).Nodup

theorem selectRelays_leads {draw : ℕ → ℕ} {candidates route : List RelayDescriptor}
    {exitID : PeerID} {relaxed : Bool}
    (h : selectRelays ip4 draw candidates exitID ⟨0, relaxed, ""⟩ = .ok route) :
    ∃ front exit, Leads candidates exitID route front exit := by
  have hlength : RouteOptions.length ⟨0, relaxed, ""⟩ = 3 := rfl
  have hpin : ∀ pool, pinGuard ⟨0, relaxed, ""⟩ exitID pool = ([], pool) :=
    fun pool => by simp [pinGuard]
  unfold selectRelays at h
  dsimp only at h
  rw [hpin, hlength] at h
  simp only [need_bind, unit_bind, refuse_eq_ok, pure_eq_ok, List.nil_append, List.length_nil,
    Nat.sub_zero, Nat.reduceSub, not_lt] at h
  obtain ⟨exit, hexit, -, hfull, rfl⟩ := h
  obtain ⟨hmem, hpeer⟩ := exitOf_spec hexit
  set front := fillHops ip4 relaxed 2 ([exit].foldl (Used.reserve ip4) ⟨[], [], []⟩)
    (Shuffle.shuffle draw (poolOf candidates exitID)) with hfront
  have hpool : front ⊆ poolOf candidates exitID := fun d hd =>
    (Shuffle.shuffle_perm draw (poolOf candidates exitID)).subset (fillHops_subset hd)
  obtain ⟨hnodup, hother⟩ :=
    @fillHops_peers ip4 relaxed 2 ([exit].foldl (Used.reserve ip4) ⟨[], [], []⟩)
    (Shuffle.shuffle draw (poolOf candidates exitID))
  refine ⟨front, exit, rfl, le_antisymm length_fillHops_le hfull, hmem, hpeer, hpool, ?_⟩
  rw [List.map_append, List.nodup_append]
  refine ⟨hnodup, List.nodup_singleton _, ?_⟩
  intro a ha b hb
  obtain ⟨d, hd, rfl⟩ := List.mem_map.mp ha
  rw [List.map_singleton, List.mem_singleton] at hb
  rw [hb, hpeer]
  exact (mem_poolOf.mp (hpool hd)).2

end Fill

namespace OnionNode

variable {n : OnionNode} {candidates : List RelayDescriptor} {exitID : PeerID} {relaxed : Bool}
  {delivery : Bytes}
  {hash : Fixed 32}

/-- What was handed over went over a route to the exit, as the packet built for it, and was answered
by its entry. -/
structure HandedOver (n : OnionNode) (candidates : List RelayDescriptor) (exitID : PeerID)
    (relaxed : Bool) (delivery : Bytes) (h : Handed) : Prop where
  selected : selectRelays n.ip4 h.attempt.shuffle candidates exitID ⟨0, relaxed, ""⟩ = .ok h.route
  built : Onion.buildOnion n.primitives h.attempt.layers delivery (h.attempt.now.add onionPacketTTL)
    (h.route.map RelayDescriptor.hop) = some h.packet
  answered : ∃ entry ∈ h.route.head?, h.accepted = h.attempt.forwards entry.peerID h.packet

structure Answered (log : List Handed) (ok : Prop) : Prop where
  last : ok ↔ ∃ h ∈ log.getLast?, h.accepted = true
  earlier : ∀ h ∈ log.dropLast, h.accepted = false

theorem Answered.cons {log : List Handed} {ok : Prop} (h : Answered log ok) {x : Handed}
    (hx : x.accepted = false) :
    Answered (x :: log) ok := by
  obtain ⟨hlast, hearlier⟩ := h
  cases log with
  | nil => exact ⟨by simp [hlast, hx], by simp⟩
  | cons y log =>
    refine ⟨by rw [List.getLast?_cons_cons, hlast], ?_⟩
    intro z hz
    rw [List.dropLast_cons_cons] at hz
    rcases List.mem_cons.mp hz with rfl | hz
    · exact hx
    · exact hearlier z hz

theorem sendLoop_spec (n : OnionNode) (candidates : List RelayDescriptor) (exitID : PeerID)
    (relaxed : Bool) (delivery : Bytes) (hash : Fixed 32) (attempts : List OnionAttempt) :
    (∀ h ∈ (n.sendLoop candidates exitID relaxed delivery hash attempts).1,
      h.attempt ∈ attempts ∧ HandedOver n candidates exitID relaxed delivery h) ∧
    Answered (n.sendLoop candidates exitID relaxed delivery hash attempts).1
      ((n.sendLoop candidates exitID relaxed delivery hash attempts).2 = .ok hash) ∧
    (n.sendLoop candidates exitID relaxed delivery hash attempts).1.length ≤ attempts.length := by
  induction attempts with
  | nil => exact ⟨by simp [sendLoop], ⟨by simp [sendLoop], by simp [sendLoop]⟩, by simp [sendLoop]⟩
  | cons a attempts ih =>
    obtain ⟨hsound, hanswer, hlength⟩ := ih
    have hlater : ∀ h ∈ (n.sendLoop candidates exitID relaxed delivery hash attempts).1,
        h.attempt ∈ a :: attempts ∧ HandedOver n candidates exitID relaxed delivery h := fun h hh =>
      ⟨List.mem_cons_of_mem _ (hsound h hh).1, (hsound h hh).2⟩
    have hnone (e : SendOnionError) :
        Answered [] ((Except.error e : Except SendOnionError (Fixed 32)) = .ok hash) :=
      ⟨by simp, by simp⟩
    unfold sendLoop
    split
    · exact ⟨by simp, hnone _, by simp⟩
    · next route hroute =>
      split
      · exact ⟨by simp, hnone _, by simp⟩
      · next entry rest =>
        split
        · exact ⟨hlater, hanswer, Nat.le_succ_of_le hlength⟩
        · split
          · exact ⟨by simp, hnone _, by simp⟩
          · next pkt hpkt =>
            split
            · next haccepted =>
              refine ⟨?_, ⟨by simp, by simp⟩, by simp⟩
              intro h hh
              rw [List.mem_singleton.mp hh]
              exact ⟨List.mem_cons_self .., hroute, hpkt, entry, rfl, haccepted.symm⟩
            · next hrefused =>
              refine ⟨?_, hanswer.cons rfl, Nat.succ_le_succ hlength⟩
              intro h hh
              rcases List.mem_cons.mp hh with rfl | hh
              · exact ⟨List.mem_cons_self .., hroute, hpkt, entry, rfl,
                  (Bool.eq_false_iff.mpr hrefused).symm⟩
              · exact hlater h hh

theorem sendLoop_ne_nil {a : OnionAttempt} {attempts : List OnionAttempt} {entry : RelayDescriptor}
    {rest : List RelayDescriptor} {pkt : Pb.OnionPacket}
    (hselected : selectRelays n.ip4 a.shuffle candidates exitID ⟨0, relaxed, ""⟩ =
      .ok (entry :: rest))
    (hdecodes : n.decodes entry.peerID = true)
    (hbuilt : Onion.buildOnion n.primitives a.layers delivery (a.now.add onionPacketTTL)
      ((entry :: rest).map RelayDescriptor.hop) = some pkt) :
    (n.sendLoop candidates exitID relaxed delivery hash (a :: attempts)).1 ≠ [] := by
  rw [sendLoop, hselected]
  dsimp only
  rw [if_neg (by simp [hdecodes]), hbuilt]
  dsimp only
  split
  · exact List.cons_ne_nil _ _
  · exact List.cons_ne_nil _ _

/-- The exit is named by a hint of the recipient; what joins the directory for it is the one
descriptor it gave, where the directory has none of its name. -/
theorem chooseExit_spec {now : Time} {directory : List Advertised} {hints : List String}
    {exitID : PeerID} {candidates : List Advertised}
    (h : n.chooseExit now directory hints = some (exitID, candidates)) :
    (∃ hint ∈ hints, n.parseRelayHint hint = some exitID) ∧
      (candidates = directory ∨
        (∀ d ∈ directory, d.relay.peerID ≠ exitID) ∧
          ∃ d, n.resolveRelayDescriptor now exitID = some d ∧ candidates = directory ++ [d]) := by
  induction hints with
  | nil => cases h
  | cons hint hints ih =>
    have hskip (hrest : n.chooseExit now directory hints = some (exitID, candidates)) :
        (∃ hint' ∈ hint :: hints, n.parseRelayHint hint' = some exitID) ∧
          (candidates = directory ∨
            (∀ d ∈ directory, d.relay.peerID ≠ exitID) ∧
              ∃ d, n.resolveRelayDescriptor now exitID = some d ∧ candidates = directory ++
                [d]) := by
      obtain ⟨⟨hint', hmem, hparse⟩, hcandidates⟩ := ih hrest
      exact ⟨⟨hint', List.mem_cons_of_mem _ hmem, hparse⟩, hcandidates⟩
    unfold chooseExit at h
    split at h
    · exact hskip h
    · next pid hparse =>
      split at h
      · cases h
        exact ⟨⟨hint, List.mem_cons_self .., hparse⟩, .inl rfl⟩
      · next hnone =>
        split at h
        · exact hskip h
        · next d hd =>
          cases h
          refine ⟨⟨hint, List.mem_cons_self .., hparse⟩, .inr ⟨?_, d, hd, rfl⟩⟩
          intro other hother hpeer
          apply hnone
          exact List.any_eq_true.mpr ⟨other, hother, by simpa using hpeer⟩

theorem mem_relayDirectory {now : Time} {d : Advertised} :
    d ∈ n.relayDirectory now ↔
      (∃ id ∈ n.directoryPeers, n.resolveRelayDescriptor now id = some d) ∧
      n.trusts now d = true := by
  unfold relayDirectory
  rw [List.mem_filter, List.mem_filterMap]

theorem selfValid_of_resolve {now : Time} {id : PeerID} {d : Advertised}
    (h : n.resolveRelayDescriptor now id = some d) : n.selfValid d = true := by
  unfold resolveRelayDescriptor at h
  split at h
  · exact (Option.filter_eq_some_iff.mp h).2
  · cases h

/-- A relay of the pool comes from the directory: what joined it for the exit has the exit's name,
or there is no exit of that name and no route. -/
theorem pool_subset_directory {now : Time} {hints : List String} {exitID : PeerID}
    {candidates : List Advertised} (h : n.chooseExit now (n.relayDirectory now) hints =
      some (exitID, candidates)) {exit : RelayDescriptor}
    (hexit : exit ∈ candidates.map Advertised.relay) (hpeer : exit.peerID = exitID)
    {d : RelayDescriptor} (hd : d ∈ poolOf (candidates.map Advertised.relay) exitID) :
    ∃ a ∈ n.relayDirectory now, a.relay = d := by
  obtain ⟨hmem, hother⟩ := mem_poolOf.mp hd
  obtain ⟨a, ha, rfl⟩ := List.mem_map.mp hmem
  obtain ⟨b, hb, rfl⟩ := List.mem_map.mp hexit
  obtain ⟨-, rfl | ⟨habsent, own, -, rfl⟩⟩ := chooseExit_spec h
  · exact ⟨a, ha, rfl⟩
  · have hown : b = own := by
      rcases List.mem_append.mp hb with hb | hb
      · exact absurd hpeer (habsent b hb)
      · exact List.mem_singleton.mp hb
    rcases List.mem_append.mp ha with ha | ha
    · exact ⟨a, ha, rfl⟩
    · rw [List.mem_singleton.mp ha, ← hown] at hother
      exact absurd hpeer hother

theorem sendOnionPreSigned_spec (now : Time) (attempts : Fin 3 → OnionAttempt) (senderAddr : String)
    (senderSig : Bytes) (relayHints : List String) (env : EncryptedEnvelope) (relaxed : Bool) :
    let sent := n.sendOnionPreSigned now attempts senderAddr senderSig relayHints env relaxed
    sent.1.length ≤ 3 ∧
      Answered sent.1 (sent.2 = .ok (Fixed.copy 32 (n.join.rt.sha256 env.toProto.marshal))) ∧
      ∀ h ∈ sent.1, (∃ i, attempts i = h.attempt) ∧
        ∃ exitID candidates, n.chooseExit now (n.relayDirectory now) relayHints =
          some (exitID, candidates) ∧
          HandedOver n (candidates.map Advertised.relay) exitID relaxed
            (deliveryOf senderAddr senderSig env) h := by
  intro sent
  have hsent : sent = n.sendOnionPreSigned now attempts senderAddr senderSig relayHints env
      relaxed := rfl
  unfold sendOnionPreSigned at hsent
  split at hsent
  · rw [hsent]
    exact ⟨by simp, ⟨by simp, by simp⟩, by simp⟩
  · split at hsent
    · rw [hsent]
      exact ⟨by simp, ⟨by simp, by simp⟩, by simp⟩
    · next exitID candidates hchoice =>
      obtain ⟨hlogged, hanswer, hlength⟩ :=
        n.sendLoop_spec (candidates.map Advertised.relay) exitID relaxed
        (deliveryOf senderAddr senderSig env) (Fixed.copy 32 (n.join.rt.sha256 env.toProto.marshal))
        (List.ofFn attempts)
      rw [List.length_ofFn] at hlength
      rw [hsent]
      refine ⟨hlength, hanswer, ?_⟩
      intro h hh
      obtain ⟨hattempt, hhanded⟩ := hlogged h hh
      exact ⟨List.mem_ofFn.mp hattempt, exitID, candidates, hchoice, hhanded⟩

/-- Whatever the peers answer and however the draws fall, a packet goes out only over two trusted
relays that stand in front of an exit the recipient named, no relay twice; there are at most three
packets, only the last may have been accepted, and the send succeeds just if it was. -/
theorem onion_packets_guarded (n : OnionNode) (now : Time) (attempts : Fin 3 → OnionAttempt)
    (senderAddr : String) (senderSig : Bytes) (relayHints : List String) (env : EncryptedEnvelope)
    (relaxed : Bool) :
    let sent := n.sendOnionPreSigned now attempts senderAddr senderSig relayHints env relaxed
    sent.1.length ≤ 3 ∧
      (sent.2 = .ok (Fixed.copy 32 (n.join.rt.sha256 env.toProto.marshal)) ↔ ∃ h ∈ sent.1.getLast?,
        h.accepted = true) ∧
      (∀ h ∈ sent.1.dropLast, h.accepted = false) ∧
      ∀ h ∈ sent.1, ∃ first second exit, h.route = [first, second, exit] ∧
        (∃ i, attempts i = h.attempt) ∧
        (h.route.map RelayDescriptor.peerID).Nodup ∧
        (∃ hint ∈ relayHints, n.parseRelayHint hint = some exit.peerID) ∧
        (∀ d ∈ [first, second], ∃ a ∈ n.relayDirectory now,
          a.relay = d ∧ n.selfValid a = true ∧ n.trusts now a = true) ∧
        Onion.buildOnion n.primitives h.attempt.layers (deliveryOf senderAddr senderSig env)
          (h.attempt.now.add onionPacketTTL) (h.route.map RelayDescriptor.hop) = some h.packet ∧
        h.accepted = h.attempt.forwards first.peerID h.packet := by
  intro sent
  obtain ⟨hlength, hanswer, hhanded⟩ :=
    n.sendOnionPreSigned_spec now attempts senderAddr senderSig relayHints env relaxed
  refine ⟨hlength, hanswer.last, hanswer.earlier, ?_⟩
  intro h hh
  obtain ⟨hattempt, exitID, candidates, hchoice, hselected, hbuilt, entry, hentry, haccepted⟩ :=
    hhanded h hh
  obtain ⟨front, exit, hroute, hhops, hexit, hpeer, hpool, hnodup⟩ := selectRelays_leads hselected
  obtain ⟨first, second, rfl⟩ := List.length_eq_two.mp hhops
  rw [hroute] at hentry
  have hfirst : first = entry := Option.some.inj hentry
  rw [← hfirst] at haccepted
  obtain ⟨hhint, -⟩ := chooseExit_spec hchoice
  refine ⟨first, second, exit, hroute, hattempt, hnodup, hpeer ▸ hhint, ?_, hbuilt, haccepted⟩
  intro d hd
  obtain ⟨a, ha, rfl⟩ := pool_subset_directory hchoice hexit hpeer (hpool hd)
  obtain ⟨⟨id, -, hresolved⟩, htrusts⟩ := mem_relayDirectory.mp ha
  exact ⟨a, ha, rfl, selfValid_of_resolve hresolved, htrusts⟩

end OnionNode

end Dmcn
