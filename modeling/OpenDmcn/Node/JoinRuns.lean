import OpenDmcn.Node.Join
import OpenDmcn.Relay.SenderBudget

/-! A node among its peers: connections that come and go, handshakes that overlap, and requests that
the relay gates by what the handshakes left (`join.go`, `handleStream` of `relay.go`). A handshake
verifies its pairs one after the other and looks each up in the DNS, so that anything may happen
between reading a message, verifying a pair and recording it. -/

namespace Dmcn

open Go Guard

/-- A call of `admitJoin`: what is still to be verified, and the credential verified and not yet
recorded. -/
structure JoinJob where
  peer : PeerID
  observed : Option String
  responder : Bool
  pairs : List CredentialBundle
  verified : Option Admission
  admitted : ℕ
  lastErr : Option AdmitError

inductive RelayOp where
  | store | storeInit | fetchInit | ping | ack | onionForward | getIdentity | getDar
  | getFleetRoster | getRemoval
  | getHistory | getBlocklist | putRecord | getRelayDescriptor | unknown
  deriving DecidableEq

def RelayOp.federated : RelayOp → Bool
  | .ack | .onionForward => true
  | _ => false

/-- What `handleStream` made of a stream, and then of the request on it. `stranger`: the throttle
for those not admitted counted it. -/
inductive Handling where
  | throttled (now : Time)
  | heard (now : Time) (stranger : Bool)
  | unreadable
  | unauthorized (op : RelayOp)
  | ran (op : RelayOp)
  deriving DecidableEq

inductive JoinNote where
  | kept (peer : PeerID) (adm : Admission)
  | dropped (peer : PeerID)
  | answered (peer : PeerID) (resp : JoinResponse)
  | handled (peer : PeerID) (h : Handling)

structure JoinState where
  set : CredentialSet
  conns : PeerID → ℕ
  /-- closed connections of which `Disconnected` is still to be told -/
  notices : PeerID → ℕ
  /-- requests sent and not yet answered -/
  awaiting : List PeerID
  jobs : List JoinJob
  peerLimiter : RateLimiter
  /-- streams past the throttle, of which the request is still to be read -/
  streams : List PeerID
  history : List JoinNote

inductive JoinEvent where
  | opened (p : PeerID)
  | closed (p : PeerID)
  | disconnected (p : PeerID)
  | initiateJoin (p : PeerID)
  | request (p : PeerID) (observed : Option String) (offer : JoinOffer)
  | response (p : PeerID) (observed : Option String) (offer : JoinOffer)
  | noResponse (p : PeerID)
  | verify (i : ℕ) (now : Time)
  | record (i : ℕ) (now : Time)
  | finish (i : ℕ)
  | stream (p : PeerID) (now : Time)
  | requestRead (i : ℕ) (op : Option RelayOp)

namespace JoinNode

variable (n : JoinNode)

def start (peerLimiter : RateLimiter) : JoinState :=
  ⟨.new, fun _ => 0, fun _ => 0, [], [], peerLimiter, [], []⟩

def newJob (p : PeerID) (observed : Option String) (responder : Bool) (offer : JoinOffer) :
    JoinJob :=
  ⟨p, observed, responder, offer.pairs, none, 0, none⟩

def handleStream (s : JoinState) (caller : PeerID) (now : Time) : RateLimiter × Handling :=
  let stranger := !n.allowPeer s.set caller
  let (limiter, allowed) :=
    if stranger then s.peerLimiter.allow now caller else (s.peerLimiter, true)
  (limiter, if allowed then .heard now stranger else .throttled now)

def handleRequest (s : JoinState) (caller : PeerID) : Option RelayOp → Handling
  | none => .unreadable
  | some op => if op.federated && !n.allowPeer s.set caller then .unauthorized op else .ran op

def verifyNext (now : Time) (j : JoinJob) : JoinJob :=
  match j.verified, j.pairs with
  | none, b :: rest =>
    match n.admitPresented now j.peer j.observed b with
    | .ok adm => { j with pairs := rest, verified := some adm }
    | .error e => { j with pairs := rest, lastErr := some e }
  | _, _ => j

def answer (j : JoinJob) : JoinResponse :=
  ⟨0 < j.admitted, if 0 < j.admitted then none else j.lastErr, n.ownOffer⟩

def step (s : JoinState) : JoinEvent → JoinState
  | .opened p => { s with conns := Function.update s.conns p (s.conns p + 1) }
  | .closed p =>
    if s.conns p = 0 then s
    else
      { s with
        conns := Function.update s.conns p (s.conns p - 1)
        notices := Function.update s.notices p (s.notices p + 1) }
  | .disconnected p =>
    if s.notices p = 0 then s
    else
      let s := { s with notices := Function.update s.notices p (s.notices p - 1) }
      -- another connection to the peer may have been opened since
      if s.conns p = 0 then { s with set := s.set.remove p, history := s.history ++ [.dropped p] }
        else s
  | .initiateJoin p => if n.credential.isNone || s.set.has p then s
    else { s with awaiting := p :: s.awaiting }
  | .request p observed offer =>
    if s.conns p = 0 then s else { s with jobs := s.jobs ++ [newJob p observed true offer] }
  | .response p observed offer =>
    if s.conns p = 0 ∨ p ∉ s.awaiting then s
    else
      let s := { s with awaiting := s.awaiting.erase p }
      if offer.credential.isSome || !offer.bundles.isEmpty then
        { s with jobs := s.jobs ++ [newJob p observed false offer] }
      else s
  | .noResponse p => { s with awaiting := s.awaiting.erase p }
  | .verify i now => { s with jobs := s.jobs.modify i (n.verifyNext now) }
  | .record i now =>
    match s.jobs[i]? with
    | some j =>
      match j.verified with
      | some adm =>
        { s with
          set := n.keep s.set j.peer now adm
          jobs := s.jobs.set i { j with verified := none, admitted := j.admitted + 1 }
          history := s.history ++ [.kept j.peer adm] }
      | none => s
    | none => s
  | .finish i =>
    match s.jobs[i]? with
    | some j =>
      if j.pairs.isEmpty && j.verified.isNone then
        { s with
          jobs := s.jobs.eraseIdx i
          history := if j.responder then s.history ++ [.answered j.peer (n.answer j)]
            else s.history }
      else s
    | none => s
  | .stream p now =>
    let (limiter, h) := n.handleStream s p now
    let streams := match h with
      | .heard _ _ => s.streams ++ [p]
      | _ => s.streams
    { s with peerLimiter := limiter, streams := streams, history := s.history ++ [.handled p h] }
  | .requestRead i op =>
    match s.streams[i]? with
    | some p =>
      { s with
        streams := s.streams.eraseIdx i
        history := s.history ++ [.handled p (n.handleRequest s p op)] }
    | none => s

end JoinNode

/-! What a run leaves in the set, told by what the node did. -/

namespace Admission

def asFleet : Admission → Option Credential
  | .fleet c => some c
  | .domain _ => none

end Admission

section Standing

def onRecordStep (p : PeerID) (adms : List Admission) : JoinNote → List Admission
  | .kept q adm => if q = p then adm :: adms else adms
  | .dropped q => if q = p then [] else adms
  | .answered _ _ => adms
  | .handled _ _ => adms

def onRecord (p : PeerID) (history : List JoinNote) : List Admission :=
  history.foldl (onRecordStep p) []

def fleetOf (adms : List Admission) : Option Credential := adms.findSome? Admission.asFleet

def domainsOf (rt : Runtime) : List Admission → List Credential
  | [] => []
  | .domain c :: older => c :: (domainsOf rt older).filter fun d =>
      Strings.toLower rt.unicode d.domain ≠ Strings.toLower rt.unicode c.domain
  | .fleet _ :: older => domainsOf rt older

@[simp] theorem onRecord_nil (p : PeerID) : onRecord p [] = [] := rfl

theorem onRecord_append (p : PeerID) (h : List JoinNote) (note : JoinNote) :
    onRecord p (h ++ [note]) = onRecordStep p (onRecord p h) note := List.foldl_append

@[simp] theorem fleetOf_fleet (c : Credential) (adms : List Admission) :
    fleetOf (.fleet c :: adms) = some c := rfl

@[simp] theorem fleetOf_domain (c : Credential) (adms : List Admission) :
    fleetOf (.domain c :: adms) = fleetOf adms := rfl

theorem domainsOf_eq_nil {rt : Runtime} {adms : List Admission} (hfleet : fleetOf adms = none)
    (hdomains : domainsOf rt adms = []) : adms = [] := by
  cases adms with
  | nil => rfl
  | cons adm older =>
    cases adm with
    | fleet c => cases hfleet
    | domain c => cases hdomains

end Standing

namespace JoinNode

variable {n : JoinNode}

structure Books (n : JoinNode) (set : CredentialSet) (history : List JoinNote) : Prop where
  fleet : ∀ p, (set.fleet p).map CredEntry.cred = fleetOf (onRecord p history)
  domains : ∀ p, (set.m p).map (fun e => (e.1, e.2.cred)) =
    (domainsOf n.rt (onRecord p history)).map fun c => (Strings.toLower n.rt.unicode c.domain, c)

theorem Books.new : Books n .new [] := ⟨fun _ => rfl, fun _ => rfl⟩

def Quiet (note : JoinNote) : Prop := ∀ p adms, onRecordStep p adms note = adms

variable {set : CredentialSet} {history : List JoinNote}

theorem Books.quiet {note : JoinNote} (h : Books n set history) (hquiet : Quiet note)
    : Books n set (history ++ [note]) := by
  constructor
  · intro p
    rw [onRecord_append, hquiet, h.fleet p]
  · intro p
    rw [onRecord_append, hquiet, h.domains p]

theorem Books.drop (h : Books n set history) (q : PeerID) :
    Books n (set.remove q) (history ++ [.dropped q]) := by
  constructor
  · intro p
    rw [onRecord_append]
    by_cases hp : q = p
    · subst hp
      simp [CredentialSet.remove, onRecordStep, fleetOf]
    · simpa [CredentialSet.remove, onRecordStep, hp, Function.update_of_ne (Ne.symm hp)]
        using h.fleet p
  · intro p
    rw [onRecord_append]
    by_cases hp : q = p
    · subst hp
      simp [CredentialSet.remove, onRecordStep, domainsOf]
    · simpa [CredentialSet.remove, onRecordStep, hp, Function.update_of_ne (Ne.symm hp)]
        using h.domains p

theorem Books.keepFleet (h : Books n set history) (q : PeerID) (c : Credential) (now : Time) :
    Books n (set.addFleet q c now) (history ++ [.kept q (.fleet c)]) := by
  constructor
  · intro p
    rw [onRecord_append]
    by_cases hp : q = p
    · subst hp
      simp [CredentialSet.addFleet, onRecordStep]
    · simpa [CredentialSet.addFleet, onRecordStep, hp, Function.update_of_ne (Ne.symm hp)]
        using h.fleet p
  · intro p
    rw [onRecord_append]
    by_cases hp : q = p
    · subst hp
      simpa [CredentialSet.addFleet, onRecordStep, domainsOf] using h.domains q
    · simpa [CredentialSet.addFleet, onRecordStep, hp] using h.domains p

theorem Books.keepDomain (h : Books n set history) (q : PeerID) (c : Credential) (now : Time) :
    Books n (set.add n.rt q c now) (history ++ [.kept q (.domain c)]) := by
  constructor
  · intro p
    rw [onRecord_append]
    by_cases hp : q = p
    · subst hp
      simpa [CredentialSet.add, onRecordStep] using h.fleet q
    · simpa [CredentialSet.add, onRecordStep, hp] using h.fleet p
  · intro p
    rw [onRecord_append]
    by_cases hp : q = p
    · subst hp
      -- the entry under the domain gives way to the new one, in the set as in the history
      have hrest := congrArg (List.filter fun e : String × Credential =>
        e.1 ≠ Strings.toLower n.rt.unicode c.domain)
        (h.domains q)
      rw [List.filter_map, List.filter_map] at hrest
      simp only [CredentialSet.add, Function.update_self, List.map_cons, onRecordStep, if_true,
        domainsOf]
      exact congrArg (_ :: ·) hrest
    · simpa [CredentialSet.add, onRecordStep, hp, Function.update_of_ne (Ne.symm hp)]
        using h.domains p

inductive Changes (n : JoinNode) (s s' : JoinState) (e : JoinEvent) : Prop
  | none (hset : s'.set = s.set) (hhistory : s'.history = s.history)
    (hstreams : s'.streams = s.streams)
  | answered {p : PeerID} {resp : JoinResponse} (hset : s'.set = s.set)
      (hhistory : s'.history = s.history ++ [.answered p resp]) (hstreams : s'.streams = s.streams)
  | stream {p : PeerID} {now : Time} (he : e = .stream p now) (hset : s'.set = s.set)
      (hhistory : s'.history = s.history ++ [.handled p (n.handleStream s p now).2])
      (hstreams : ∀ q ∈ s'.streams, q ∈ s.streams ∨
        q = p ∧ ∃ t stranger, (n.handleStream s p now).2 = .heard t stranger)
  | request {i : ℕ} {p : PeerID} {op : Option RelayOp} (he : e = .requestRead i op)
      (hp : s.streams[i]? = some p) (hset : s'.set = s.set)
      (hhistory : s'.history = s.history ++ [.handled p (n.handleRequest s p op)])
      (hstreams : s'.streams = s.streams.eraseIdx i)
  | kept {i : ℕ} {now : Time} {j : JoinJob} {adm : Admission} (he : e = .record i now)
      (hj : s.jobs[i]? = some j) (hadm : j.verified = some adm)
      (hset : s'.set = n.keep s.set j.peer now adm)
      (hhistory : s'.history = s.history ++ [.kept j.peer adm]) (hstreams : s'.streams = s.streams)
  | dropped {p : PeerID} (he : e = .disconnected p) (hconns : s.conns p = 0)
      (hset : s'.set = s.set.remove p) (hhistory : s'.history = s.history ++ [.dropped p])
      (hstreams : s'.streams = s.streams)

variable {s : JoinState}

theorem heard_of_mem {p q : PeerID} {now : Time} (h : q ∈ (n.step s (.stream p now)).streams)
    : q ∈ s.streams ∨
      q = p ∧ ∃ t stranger, (n.handleStream s p now).2 = .heard t stranger := by
  unfold step at h
  dsimp only at h
  cases hh : (n.handleStream s p now).2 with
  | heard t stranger =>
    rw [hh] at h
    rcases List.mem_append.mp h with hold | hnew
    · exact .inl hold
    · exact .inr ⟨List.mem_singleton.mp hnew, t, stranger, rfl⟩
  | throttled t => exact .inl (by rwa [hh] at h)
  | unreadable => exact .inl (by rwa [hh] at h)
  | unauthorized op => exact .inl (by rwa [hh] at h)
  | ran op => exact .inl (by rwa [hh] at h)

theorem step_changes (s : JoinState) (e : JoinEvent) : Changes n s (n.step s e) e := by
  cases e with
  | opened p => exact .none rfl rfl rfl
  | closed p =>
    simp only [step]
    split
    · exact .none rfl rfl rfl
    · exact .none rfl rfl rfl
  | disconnected p =>
    simp only [step]
    split
    · exact .none rfl rfl rfl
    · split
      · next hconns => exact .dropped rfl hconns rfl rfl rfl
      · exact .none rfl rfl rfl
  | initiateJoin p =>
    simp only [step]
    split
    · exact .none rfl rfl rfl
    · exact .none rfl rfl rfl
  | request p observed offer =>
    simp only [step]
    split
    · exact .none rfl rfl rfl
    · exact .none rfl rfl rfl
  | response p observed offer =>
    simp only [step]
    split
    · exact .none rfl rfl rfl
    · split
      · exact .none rfl rfl rfl
      · exact .none rfl rfl rfl
  | noResponse p => exact .none rfl rfl rfl
  | verify i now => exact .none rfl rfl rfl
  | record i now =>
    simp only [step]
    split
    · next j hj =>
      split
      · next adm hadm => exact .kept rfl hj hadm rfl rfl rfl
      · exact .none rfl rfl rfl
    · exact .none rfl rfl rfl
  | finish i =>
    simp only [step]
    split
    · split
      · split
        · exact .answered rfl rfl rfl
        · exact .none rfl rfl rfl
      · exact .none rfl rfl rfl
    · exact .none rfl rfl rfl
  | stream p now => exact .stream rfl rfl rfl fun _ => heard_of_mem
  | requestRead i op =>
    simp only [step]
    split
    · next p hp => exact .request rfl hp rfl rfl rfl
    · exact .none rfl rfl rfl

theorem Books.step (h : Books n s.set s.history) (e : JoinEvent) :
    Books n (n.step s e).set (n.step s e).history := by
  cases step_changes (n := n) s e with
  | none hset hhistory hstreams => rwa [hset, hhistory]
  | answered hset hhistory hstreams =>
    rw [hset, hhistory]
    exact h.quiet fun _ _ => rfl
  | stream he hset hhistory hstreams =>
    rw [hset, hhistory]
    exact h.quiet fun _ _ => rfl
  | request he hp hset hhistory hstreams =>
    rw [hset, hhistory]
    exact h.quiet fun _ _ => rfl
  | @kept i now j adm he hj hadm hset hhistory hstreams =>
    rw [hset, hhistory]
    cases adm with
    | fleet c => exact h.keepFleet j.peer c now
    | domain c => exact h.keepDomain j.peer c now
  | dropped he hconns hset hhistory hstreams =>
    rw [hset, hhistory]
    exact h.drop _

variable (n) in
def after (peerLimiter : RateLimiter) (es : List JoinEvent) : JoinState :=
  Machine.run n.step (start peerLimiter) es

theorem after_append (peerLimiter : RateLimiter) (es : List JoinEvent) (e : JoinEvent) :
    n.after peerLimiter (es ++ [e]) = n.step (n.after peerLimiter es) e := Machine.run_append ..

theorem books_after (peerLimiter : RateLimiter) (es : List JoinEvent) :
    Books n (n.after peerLimiter es).set (n.after peerLimiter es).history := by
  -- induction on the events, from the last one
  induction es using List.reverseRecOn with
  | nil => exact Books.new
  | append_singleton es e ih =>
    rw [after_append]
    exact ih.step e

/-! The gates. -/

/-- The peer is in the allow-set, or one of its credentials was recorded since it was last
dropped. -/
def Admitted (n : JoinNode) (p : PeerID) (history : List JoinNote) : Prop :=
  n.static.any (· p) = true ∨ onRecord p history ≠ []

def Judged (admitted heard : Prop) : Handling → Prop
  | .throttled _ => ¬ admitted
  | .heard _ stranger => stranger = true ↔ ¬ admitted
  | .unreadable => heard
  | .unauthorized op => heard ∧ op.federated = true ∧ ¬ admitted
  | .ran op => heard ∧ (op.federated = true → admitted)

def Heard (p : PeerID) (history : List JoinNote) : Prop :=
  ∃ now stranger, JoinNote.handled p (.heard now stranger) ∈ history

theorem Books.has_iff (h : Books n set history) (p : PeerID) :
    set.has p = true ↔ onRecord p history ≠ [] := by
  have hfleet := h.fleet p
  have hdomains := congrArg List.length (h.domains p)
  rw [List.length_map, List.length_map] at hdomains
  constructor
  · intro hhas hnil
    rw [hnil] at hfleet hdomains
    have hm : set.m p = [] := List.eq_nil_of_length_eq_zero hdomains
    have hnone : set.fleet p = none := Option.map_eq_none_iff.mp hfleet
    simp [CredentialSet.has, hm, hnone] at hhas
  · intro hstanding
    by_contra hhas
    simp only [CredentialSet.has, Bool.or_eq_true, Bool.not_eq_true', List.isEmpty_eq_false_iff,
      not_or, not_not, Option.isSome_iff_ne_none] at hhas
    rw [hhas.1, List.length_nil] at hdomains
    rw [hhas.2, Option.map_none] at hfleet
    exact hstanding (domainsOf_eq_nil hfleet.symm (List.eq_nil_of_length_eq_zero hdomains.symm))

theorem Books.allowPeer_iff (h : Books n set history) (p : PeerID) :
    n.allowPeer set p = true ↔ n.Admitted p history := by
  rw [allowPeer, Bool.or_eq_true, h.has_iff]
  rfl

theorem Books.any_fleet (h : Books n set history) (p : PeerID) (test : Credential → Bool) :
    (set.fleet p).any (fun e => test e.cred) = true ↔ ∃ c, fleetOf (onRecord p history) = some c ∧
      test c = true := by
  rw [← h.fleet p]
  cases set.fleet p with
  | none => simp
  | some e => simp

theorem Books.any_domain (h : Books n set history) (p : PeerID) (test : Credential → Bool) :
    (set.m p).any (fun e => test e.2.cred) = true ↔ ∃ c ∈ domainsOf n.rt (onRecord p history),
      test c = true := by
  have hany := congrArg (List.any · fun e => test e.2) (h.domains p)
  simp only [List.any_map] at hany
  have hsame : (set.m p).any (fun e => test e.2.cred) = (domainsOf n.rt (onRecord p history)).any
      test := hany
  rw [hsame, List.any_eq_true]

theorem judged_handleStream (h : Books n s.set s.history) (p : PeerID) (now : Time) (heard : Prop)
    : Judged (n.Admitted p s.history) heard (n.handleStream s p now).2 := by
  have hallow := h.allowPeer_iff p
  unfold handleStream
  cases hallowed : n.allowPeer s.set p with
  | true =>
    have hadmitted : n.Admitted p s.history := hallow.mp hallowed
    simpa [Judged] using hadmitted
  | false =>
    have hstranger : ¬ n.Admitted p s.history := fun hadmitted =>
      Bool.false_ne_true (hallowed.symm.trans (hallow.mpr hadmitted))
    cases hlimit : (s.peerLimiter.allow now p).2 with
    | false => simpa [Judged, hlimit] using hstranger
    | true => simpa [Judged, hlimit] using hstranger

theorem judged_handleRequest (h : Books n s.set s.history) (p : PeerID) (op : Option RelayOp)
    {heard : Prop} (hheard : heard) :
    Judged (n.Admitted p s.history) heard (n.handleRequest s p op) := by
  have hallow := h.allowPeer_iff p
  cases op with
  | none => exact hheard
  | some op =>
    unfold handleRequest
    dsimp only
    split
    · next hrefused =>
      obtain ⟨hfederated, hstranger⟩ := Bool.and_eq_true_iff.mp hrefused
      refine ⟨hheard, hfederated, fun hadmitted => ?_⟩
      rw [hallow.mpr hadmitted] at hstranger
      cases hstranger
    · next hpassed =>
      refine ⟨hheard, fun hfederated => hallow.mp ?_⟩
      simpa [hfederated] using hpassed

/-- Every stream was judged as the peer stood when it was opened, and every request as the peer
stood when it had been read. -/
def AllJudged (n : JoinNode) (history : List JoinNote) : Prop :=
  ∀ before p h later, history = before ++ .handled p h :: later →
    Judged (n.Admitted p before) (Heard p before) h

theorem AllJudged.append {note : JoinNote} (h : n.AllJudged history)
    (hnote : ∀ p hd, note = .handled p hd → Judged (n.Admitted p history) (Heard p history) hd) :
    n.AllJudged (history ++ [note]) := by
  intro before p hd later heq
  rcases List.eq_nil_or_concat later with rfl | ⟨later, last, rfl⟩
  · obtain ⟨rfl, hlast⟩ := List.append_inj' heq rfl
    exact hnote p hd (List.singleton_inj.mp hlast)
  · have hassoc : history ++ [note] = (before ++ .handled p hd :: later) ++ [last] := by
      rw [heq, List.concat_eq_append, List.append_assoc, List.cons_append]
    exact h before p hd later (List.append_inj' hassoc rfl).1

def StreamsHeard (s : JoinState) : Prop := ∀ p ∈ s.streams, Heard p s.history

theorem Heard.later {p : PeerID} (h : Heard p history) (note : JoinNote) :
    Heard p (history ++ [note]) := by
  obtain ⟨now, stranger, hmem⟩ := h
  exact ⟨now, stranger, List.mem_append_left _ hmem⟩

theorem streamsHeard_step (h : StreamsHeard s) (e : JoinEvent) :
    StreamsHeard (n.step s e) := by
  intro p hp
  cases step_changes (n := n) s e with
  | none hset hhistory hstreams =>
    rw [hstreams] at hp
    rw [hhistory]
    exact h p hp
  | answered hset hhistory hstreams =>
    rw [hstreams] at hp
    rw [hhistory]
    exact (h p hp).later _
  | stream he hset hhistory hstreams =>
    rw [hhistory]
    rcases hstreams p hp with hold | ⟨rfl, t, stranger, hheard⟩
    · exact (h p hold).later _
    · exact ⟨t, stranger, List.mem_append_right _ (by rw [hheard]; exact List.mem_singleton_self _)⟩
  | request he hi hset hhistory hstreams =>
    rw [hstreams] at hp
    rw [hhistory]
    exact (h p (List.mem_of_mem_eraseIdx hp)).later _
  | kept he hj hadm hset hhistory hstreams =>
    rw [hstreams] at hp
    rw [hhistory]
    exact (h p hp).later _
  | dropped he hconns hset hhistory hstreams =>
    rw [hstreams] at hp
    rw [hhistory]
    exact (h p hp).later _

theorem allJudged_step (hbooks : Books n s.set s.history) (hheard : StreamsHeard s)
    (h : n.AllJudged s.history) (e : JoinEvent) : n.AllJudged (n.step s e).history := by
  cases step_changes (n := n) s e with
  | none hset hhistory hstreams => rwa [hhistory]
  | answered hset hhistory hstreams =>
    rw [hhistory]
    exact h.append fun _ _ heq => JoinNote.noConfusion heq
  | @stream p now he hset hhistory hstreams =>
    rw [hhistory]
    refine h.append ?_
    intro p' hd heq
    cases heq
    exact judged_handleStream hbooks p now _
  | @request i p op he hi hset hhistory hstreams =>
    rw [hhistory]
    refine h.append ?_
    intro p' hd heq
    cases heq
    exact judged_handleRequest hbooks p op (hheard p (List.mem_of_getElem? hi))
  | kept he hj hadm hset hhistory hstreams =>
    rw [hhistory]
    exact h.append fun _ _ heq => JoinNote.noConfusion heq
  | dropped he hconns hset hhistory hstreams =>
    rw [hhistory]
    exact h.append fun _ _ heq => JoinNote.noConfusion heq

theorem allJudged_after (peerLimiter : RateLimiter) (es : List JoinEvent) :
    StreamsHeard (n.after peerLimiter es) ∧ n.AllJudged (n.after peerLimiter es).history := by
  -- induction on the events, from the last one
  induction es using List.reverseRecOn with
  | nil =>
    refine ⟨fun p hp => (List.not_mem_nil hp).elim, ?_⟩
    intro before p h later heq
    cases before with
    | nil => cases heq
    | cons note before => cases heq
  | append_singleton es e ih =>
    rw [after_append]
    exact ⟨streamsHeard_step ih.1 e, allJudged_step (books_after peerLimiter es) ih.1 ih.2 e⟩

/-- Whatever peers connect, leave, present and ask for, and however their handshakes overlap: each
gate answers from what was recorded of the peer since it was last dropped, and the relay throttled
every stream and gated the request on it as the peer stood at the one moment and at the other. -/
theorem gates_follow_history (n : JoinNode) (peerLimiter : RateLimiter) (es : List JoinEvent) :
    (∀ p, n.allowPeer (n.after peerLimiter es).set p = true ↔
      n.Admitted p (n.after peerLimiter es).history) ∧
    (∀ p g, (n.after peerLimiter es).set.hasFleetGrant p g = true ↔
      ∃ c, fleetOf (onRecord p (n.after peerLimiter es).history) = some c ∧ c.hasGrant g = true) ∧
    (∀ p r, (n.after peerLimiter es).set.hasFleetRole p r = true ↔
      ∃ c, fleetOf (onRecord p (n.after peerLimiter es).history) = some c ∧ c.hasRole r = true) ∧
    (∀ p g d, (n.after peerLimiter es).set.hasGrant n.rt p g d = true ↔
      ∃ c ∈ domainsOf n.rt (onRecord p (n.after peerLimiter es).history),
        (c.hasGrant g && c.coversDomain n.rt d) = true) ∧
    n.AllJudged (n.after peerLimiter es).history := by
  have hbooks := books_after (n := n) peerLimiter es
  refine ⟨hbooks.allowPeer_iff, ?_, ?_, ?_, (allJudged_after peerLimiter es).2⟩
  · intro p g
    exact hbooks.any_fleet p fun c => c.hasGrant g
  · intro p r
    exact hbooks.any_fleet p fun c => c.hasRole r
  · intro p g d
    exact hbooks.any_domain p fun c => c.hasGrant g && c.coversDomain n.rt d

end JoinNode

end Dmcn
