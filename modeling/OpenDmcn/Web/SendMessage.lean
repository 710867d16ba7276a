import OpenDmcn.Relay.Onion
import OpenDmcn.Lib.Base64

/-! Sending a message from the web mail (`web/api/messages.go`): who the recipient is, which relays
the envelope is offered to, and what the sender is told. What the closures of the handler answer
during the call is arbitrary. -/

namespace Dmcn

open Go Guard

section Definitions

inductive StoreReply where
  | unreachable | refused | full | closed
  | accepted (hash : Fixed 32)
  deriving DecidableEq

def StoreReply.IsAccepted : StoreReply → Prop
  | .accepted _ => True
  | _ => False

instance : (r : StoreReply) → Decidable r.IsAccepted
  | .accepted _ => isTrue trivial
  | .unreachable | .refused | .full | .closed => isFalse id

/-- `RelayRouter`: `ConnectPeer` and `StorePreSignedOnPeer` for the `i`-th hint, and the onion
route. -/
structure RelayRouter where
  connectPeer : ℕ → String → Bool
  storePreSignedOnPeer : ℕ → String → String → Bytes → EncryptedEnvelope → StoreReply
  sendOnionPreSigned : String → Bytes → IdentityRecord → EncryptedEnvelope → Option (Fixed 32)

/-- `MessageHandler`. All closures but the first are optional; no bridge, or an error in resolving
one, is `none`. -/
structure MessageHandler where
  storePreSigned : String → Bytes → EncryptedEnvelope → Option (Fixed 32)
  registryLookup : Option (String → Except LookupError IdentityRecord)
  resolveBridge : Option (Option (Fixed 32 × String))
  relayRouter : Option RelayRouter
  replicates : Option (String → Bool)
  verifyRouting : Option (IdentityRecord → Bool)

structure SendRequest where
  senderAddress : String
  senderSignature : String
  envelope : String
  recipientAddress : String
  onion : Bool

inductive SendRefusal where
  | notAuthenticated | invalidBody | senderMismatch | envelopeEncoding | envelopeProtobuf
  | invalidEnvelope
  | signatureEncoding | recipientNotFound | noRelayHints | routingUnverified | onionFailed
  | mailboxFull | accountClosed
  | undelivered | storeFailed
  deriving DecidableEq

def SendRefusal.status : SendRefusal → ℕ
  | notAuthenticated => 401
  | senderMismatch => 403
  | routingUnverified | onionFailed | undelivered => 502
  | mailboxFull => 507
  | accountClosed => 410
  | storeFailed => 500
  | _ => 400

/-- Where an envelope is offered: to a relay hint of the recipient, to the exit of an onion route,
which is one of them, or to the daemon's own relay. -/
inductive Target where
  | hint (hint : String) | onionExit | ownRelay
  deriving DecidableEq

structure Attempt where
  target : Target
  reply : StoreReply

structure SendOutcome where
  answer : Except SendRefusal (Fixed 32)
  attempts : List Attempt

def SendOutcome.refuse (e : SendRefusal) : SendOutcome := ⟨.error e, []⟩

def SendOutcome.after (a : Attempt) (o : SendOutcome) : SendOutcome := ⟨o.answer, a :: o.attempts⟩

structure Outgoing where
  req : SendRequest
  env : EncryptedEnvelope
  sig : Bytes

def decodeSend (session : String) (body : Option SendRequest) : Except SendRefusal Outgoing := do
  refuse (session = "") .notAuthenticated
  let req ← need body .invalidBody
  require (req.senderAddress = session) .senderMismatch
  let envBytes ← need (Base64.decodeString req.envelope) .envelopeEncoding
  let pbEnv ← need ((Protobuf.decode envBytes).bind Pb.EncryptedEnvelope.read) .envelopeProtobuf
  let env ← need (EncryptedEnvelope.fromProto pbEnv).toOption .invalidEnvelope
  let sig ← need (Base64.decodeString req.senderSignature) .signatureEncoding
  return ⟨req, env, sig⟩

def RelayRouter.attempt (router : RelayRouter) (out : Outgoing) (i : ℕ) (hint : String) :
    StoreReply :=
  if router.connectPeer i hint then
    router.storePreSignedOnPeer i hint out.req.senderAddress out.sig out.env
  else .unreachable

def RelayRouter.replies (router : RelayRouter) (out : Outgoing) (hints : List String) :
    List Attempt :=
  hints.zipIdx.map fun (hint, i) => ⟨.hint hint, router.attempt out i hint⟩

namespace MessageHandler

variable (h : MessageHandler)

def legacyRecipient (address : String) : Option IdentityRecord := do
  let resolved ← h.resolveBridge
  let (xPub, multiaddr) ← resolved
  return { version := 0, address := address, ed25519Public := [], x25519Public := xPub, createdAt :=
    default
           expiresAt := default, relayHints := [multiaddr], verificationTier := tierUnverified
           requireOnion := false, revision := 0, selfSignature := .zero 64, addressCredential :=
             none
           routingCredential := none, operatorCredentials := [], rotationChain := []
           recoveryEd25519Public := [], forwardTo := "" }

/-- The recipient, and whether it is the bridge. Any failure of the lookup goes on to the bridge. -/
def recipient (lookup : String → Except LookupError IdentityRecord) (address : String) :
    Option (IdentityRecord × Bool) :=
  match lookup address with
  | .ok rec => some (rec, false)
  | .error _ => (h.legacyRecipient address).map fun rec => (rec, true)

def storeOnHints (replicate : Bool) : Option (Fixed 32) → List Attempt → SendOutcome
  | stored, [] => ⟨need stored .undelivered, []⟩
  | stored, a :: rest =>
    match a.reply with
    | .full => ⟨.error .mailboxFull, [a]⟩
    | .closed =>
      if stored.isNone then ⟨.error .accountClosed, [a]⟩
        else (storeOnHints replicate stored rest).after a
    | .accepted hash => if replicate then (storeOnHints replicate (some hash) rest).after a
      else ⟨.ok hash, [a]⟩
    | .unreachable | .refused => (storeOnHints replicate stored rest).after a

def sendTo (router : RelayRouter) (out : Outgoing) (rec : IdentityRecord) (legacy : Bool) :
    SendOutcome :=
  if rec.relayHints = [] then .refuse .noRelayHints
  else if h.verifyRouting.any (fun verify => !verify rec) && !legacy then .refuse .routingUnverified
  else if (out.req.onion || rec.requireOnion) && !legacy then
    match router.sendOnionPreSigned out.req.senderAddress out.sig rec out.env with
    | none => ⟨.error .onionFailed, [⟨.onionExit, .refused⟩]⟩
    | some hash => ⟨.ok hash, [⟨.onionExit, .accepted hash⟩]⟩
  else
    storeOnHints (h.replicates.any fun replicates => replicates out.req.recipientAddress) none
      (router.replies out rec.relayHints)

def routing (address : String) :
    Option ((String → Except LookupError IdentityRecord) × RelayRouter) :=
  if address = "" then none
  else do
    let lookup ← h.registryLookup
    let router ← h.relayRouter
    return (lookup, router)

def handleSend (session : String) (body : Option SendRequest) : SendOutcome :=
  match decodeSend session body with
  | .error e => .refuse e
  | .ok out =>
    match h.routing out.req.recipientAddress with
    | some (lookup, router) =>
      match h.recipient lookup out.req.recipientAddress with
      | none => .refuse .recipientNotFound
      | some (rec, legacy) => h.sendTo router out rec legacy
    | none =>
      match h.storePreSigned out.req.senderAddress out.sig out.env with
      | none => ⟨.error .storeFailed, [⟨.ownRelay, .refused⟩]⟩
      | some hash => ⟨.ok hash, [⟨.ownRelay, .accepted hash⟩]⟩

end MessageHandler

/-- The target is a relay that the recipient's record names, or the bridge of a legacy recipient;
where the request names no recipient, the daemon's own relay. -/
def Named (h : MessageHandler) (address : String) : Target → Prop
  | .hint hint => ∃ lookup router rec legacy, h.routing address = some (lookup, router) ∧
      h.recipient lookup address = some (rec, legacy) ∧ hint ∈ rec.relayHints
  | .onionExit => ∃ lookup router rec, h.routing address = some (lookup, router) ∧
    lookup address = .ok rec
  | .ownRelay => h.routing address = none

def OffersBridge (h : MessageHandler) (session : String) (body : Option SendRequest) : Prop :=
  ∃ out lookup router rec, decodeSend session body = .ok out ∧
    h.routing out.req.recipientAddress = some (lookup, router) ∧
    h.recipient lookup out.req.recipientAddress = some (rec, true) ∧
    ∃ a ∈ (h.handleSend session body).attempts, a.reply ≠ .unreachable

structure TruthfulSend (h : MessageHandler) (session : String) (body : Option SendRequest) :
    Prop where
  /-- The bridge is offered an envelope only where the lookup said that there is no identity. -/
  bridge : OffersBridge h session body → ∀ out lookup router, decodeSend session body = .ok out →
    h.routing out.req.recipientAddress = some (lookup, router) → lookup out.req.recipientAddress =
      .error .notFound
  success : ∀ hash, (h.handleSend session body).answer = .ok hash → ∀ out, decodeSend session body =
    .ok out →
    ∃ a ∈ (h.handleSend session body).attempts, a.reply.IsAccepted ∧
      Named h out.req.recipientAddress a.target
  failure : ∀ e, (h.handleSend session body).answer = .error e →
    ∀ a ∈ (h.handleSend session body).attempts, ¬ a.reply.IsAccepted

/-- The lookup failed without an answer, and the bridge is offered the envelope all the same. -/
def Misrouted (h : MessageHandler) (out : Outgoing)
    (lookup : String → Except LookupError IdentityRecord) (router : RelayRouter) : Prop :=
  lookup out.req.recipientAddress = .error .transient ∧
    ∃ xPub multiaddr, h.resolveBridge = some (some (xPub, multiaddr)) ∧
      router.attempt out 0 multiaddr ≠ .unreachable

/-- A relay takes a copy, with none before it that reports the account full or closed, and a later
one reports it full. -/
def FullAfterCopy (attempts : List Attempt) : Prop :=
  ∃ before a between f after, attempts = before ++ a :: (between ++ f :: after) ∧
    a.reply.IsAccepted ∧
    f.reply = .full ∧ ∀ b ∈ before, b.reply ≠ .full ∧ b.reply ≠ .closed

/-- The copies go to every relay, and the account is reported full after one of them was stored. -/
def Misreported (h : MessageHandler) (out : Outgoing)
    (lookup : String → Except LookupError IdentityRecord) (router : RelayRouter) : Prop :=
  ∃ rec, lookup out.req.recipientAddress = .ok rec ∧
    h.verifyRouting.all (fun verify => verify rec) = true ∧
    (out.req.onion || rec.requireOnion) = false ∧
    h.replicates.any (fun replicates => replicates out.req.recipientAddress) = true ∧
    FullAfterCopy (router.replies out rec.relayHints)

end Definitions

section Loop

open MessageHandler

variable {replicate : Bool} {stored : Option (Fixed 32)} {l : List Attempt} {a : Attempt}

theorem mem_after {o : SendOutcome} {b : Attempt} : b ∈ (o.after a).attempts ↔ b = a ∨
    b ∈ o.attempts := List.mem_cons

theorem storeOnHints_attempts (replicate : Bool) (stored : Option (Fixed 32)) (l : List Attempt) :
    ∀ a ∈ (storeOnHints replicate stored l).attempts, a ∈ l := by
  have hnext : ∀ {a : Attempt} {rest : List Attempt} {o : SendOutcome},
      (∀ b ∈ o.attempts, b ∈ rest) →
      ∀ b ∈ (o.after a).attempts, b ∈ a :: rest := by
    intro a rest o ih b hb
    rcases mem_after.mp hb with rfl | hb
    · exact List.mem_cons_self ..
    · exact List.mem_cons_of_mem a (ih b hb)
  fun_induction storeOnHints replicate stored l with
  | case1 => simp
  | case2 => simp
  | case3 => simp
  | case4 stored a rest _ _ ih => exact hnext ih
  | case5 stored a rest hash _ _ ih => exact hnext ih
  | case6 => simp
  | case7 stored a rest _ ih => exact hnext ih
  | case8 stored a rest _ ih => exact hnext ih

theorem storeOnHints_ok {hash : Fixed 32}
    (h : (storeOnHints replicate stored l).answer = .ok hash) :
    stored.isSome ∨ ∃ a ∈ (storeOnHints replicate stored l).attempts, a.reply.IsAccepted := by
  have hnext : ∀ {a : Attempt} {stored : Option (Fixed 32)} {o : SendOutcome},
      (stored.isSome ∨ ∃ b ∈ o.attempts, b.reply.IsAccepted) →
      stored.isSome ∨ ∃ b ∈ (o.after a).attempts, b.reply.IsAccepted := by
    rintro a stored o (hs | ⟨b, hb, haccepted⟩)
    · exact .inl hs
    · exact .inr ⟨b, mem_after.mpr (.inr hb), haccepted⟩
  fun_induction storeOnHints replicate stored l with
  | case1 stored => exact .inl (Option.isSome_iff_exists.mpr ⟨hash, need_eq_ok.mp h⟩)
  | case2 => cases h
  | case3 => cases h
  | case4 stored a rest _ _ ih => exact hnext (ih h)
  | case5 stored a rest hash' hreply _ ih =>
    exact .inr ⟨a, mem_after.mpr (.inl rfl), by rw [hreply]; trivial⟩
  | case6 stored a rest hash' hreply _ =>
    exact .inr ⟨a, List.mem_singleton.mpr rfl, by rw [hreply]; trivial⟩
  | case7 stored a rest _ ih => exact hnext (ih h)
  | case8 stored a rest _ ih => exact hnext (ih h)

theorem storeOnHints_error_of_stored (hr : replicate = true) (hs : stored.isSome = true) :
    (∃ e, (storeOnHints replicate stored l).answer = .error e) ↔ ∃ f ∈ l, f.reply = .full := by
  have hskip : ∀ {a : Attempt} {rest : List Attempt}, a.reply ≠ .full →
      ((∃ f ∈ a :: rest, f.reply = .full) ↔ ∃ f ∈ rest, f.reply = .full) := by
    intro a rest ha
    simp [ha]
  fun_induction storeOnHints replicate stored l with
  | case1 stored =>
    obtain ⟨hash, rfl⟩ := Option.isSome_iff_exists.mp hs
    simp [need]
  | case2 stored a rest hreply => simp [hreply]
  | case3 stored a rest _ hnone => simp [Option.isNone_iff_eq_none.mp hnone] at hs
  | case4 stored a rest hreply _ ih => exact (ih hs).trans (hskip (by simp [hreply])).symm
  | case5 stored a rest hash hreply _ ih => exact (ih rfl).trans (hskip (by simp [hreply])).symm
  | case6 stored a rest hash _ hno => exact absurd hr hno
  | case7 stored a rest hreply ih => exact (ih hs).trans (hskip (by simp [hreply])).symm
  | case8 stored a rest hreply ih => exact (ih hs).trans (hskip (by simp [hreply])).symm

theorem fullAfterCopy_of_accepted (ha : a.reply.IsAccepted) : FullAfterCopy (a :: l) ↔
    ∃ f ∈ l, f.reply = .full := by
  constructor
  · rintro ⟨before, b, between, f, after, heq, -, hfull, -⟩
    cases before with
    | nil =>
      obtain ⟨rfl, rfl⟩ := List.cons.inj heq
      exact ⟨f, by simp, hfull⟩
    | cons c before =>
      obtain ⟨rfl, rfl⟩ := List.cons.inj heq
      exact ⟨f, by simp, hfull⟩
  · rintro ⟨f, hf, hfull⟩
    obtain ⟨between, after, rfl⟩ := List.append_of_mem hf
    exact ⟨[], a, between, f, after, rfl, ha, hfull, by simp⟩

theorem fullAfterCopy_of_passed (haccepted : ¬ a.reply.IsAccepted) (hfull : a.reply ≠ .full)
    (hclosed : a.reply ≠ .closed) :
    FullAfterCopy (a :: l) ↔ FullAfterCopy l := by
  constructor
  · rintro ⟨before, b, between, f, after, heq, hb, hf, hbefore⟩
    cases before with
    | nil =>
      obtain ⟨rfl, -⟩ := List.cons.inj heq
      exact absurd hb haccepted
    | cons c before =>
      obtain ⟨rfl, rfl⟩ := List.cons.inj heq
      exact ⟨before, b, between, f, after, rfl, hb, hf, fun d hd =>
        hbefore d (List.mem_cons_of_mem _ hd)⟩
  · rintro ⟨before, b, between, f, after, rfl, hb, hf, hbefore⟩
    refine ⟨a :: before, b, between, f, after, rfl, hb, hf, fun d hd => ?_⟩
    rcases List.mem_cons.mp hd with rfl | hd
    · exact ⟨hfull, hclosed⟩
    · exact hbefore d hd

theorem not_fullAfterCopy_of_stopped (ha : a.reply = .full ∨ a.reply = .closed) : ¬ FullAfterCopy
    (a :: l) := by
  rintro ⟨before, b, between, f, after, heq, hb, -, hbefore⟩
  cases before with
  | nil =>
    obtain ⟨rfl, -⟩ := List.cons.inj heq
    rcases ha with ha | ha
    · rw [ha] at hb
      exact hb
    · rw [ha] at hb
      exact hb
  | cons c before =>
    obtain ⟨rfl, -⟩ := List.cons.inj heq
    obtain ⟨hfull, hclosed⟩ := hbefore a (List.mem_cons_self ..)
    exact ha.elim hfull hclosed

theorem storeOnHints_error_iff (hr : replicate = true) (hs : stored = none) :
    ((∃ e, (storeOnHints replicate stored l).answer = .error e) ∧
      ∃ a ∈ (storeOnHints replicate stored l).attempts, a.reply.IsAccepted) ↔ FullAfterCopy l := by
  have hpass : ∀ {a : Attempt} {rest : List Attempt} {o : SendOutcome}, ¬ a.reply.IsAccepted →
      a.reply ≠ .full →
      a.reply ≠ .closed → (((∃ e, o.answer = .error e) ∧ ∃ b ∈ o.attempts, b.reply.IsAccepted) ↔
        FullAfterCopy rest) →
      (((∃ e, (o.after a).answer = .error e) ∧ ∃ b ∈ (o.after a).attempts, b.reply.IsAccepted) ↔
        FullAfterCopy (a :: rest)) := by
    intro a rest o haccepted hfull hclosed ih
    rw [fullAfterCopy_of_passed haccepted hfull hclosed, ← ih]
    simp [SendOutcome.after, haccepted]
  fun_induction storeOnHints replicate stored l with
  | case1 stored =>
    simp only [List.not_mem_nil, false_and, exists_false, and_false, false_iff]
    rintro ⟨before, a, between, f, after, heq, -⟩
    simp at heq
  | case2 stored a rest hreply =>
    simp [not_fullAfterCopy_of_stopped (.inl hreply), hreply, StoreReply.IsAccepted]
  | case3 stored a rest hreply _ =>
    simp [not_fullAfterCopy_of_stopped (.inr hreply), hreply, StoreReply.IsAccepted]
  | case4 stored a rest _ hsome _ => simp [hs] at hsome
  | case5 stored a rest hash hreply _ ih =>
    have haccepted : a.reply.IsAccepted := by
      rw [hreply]
      trivial
    have hstored : (∃ e, (storeOnHints replicate (some hash) rest).answer = .error e) ↔ ∃ f ∈ rest,
        f.reply = .full :=
      storeOnHints_error_of_stored hr rfl
    rw [fullAfterCopy_of_accepted haccepted, ← hstored]
    simp [SendOutcome.after, haccepted]
  | case6 stored a rest hash _ hno => exact absurd hr hno
  | case7 stored a rest hreply ih =>
    exact hpass (by simp [hreply, StoreReply.IsAccepted]) (by simp [hreply]) (by simp [hreply])
      (ih hs)
  | case8 stored a rest hreply ih =>
    exact hpass (by simp [hreply, StoreReply.IsAccepted]) (by simp [hreply]) (by simp [hreply])
      (ih hs)

theorem storeOnHints_error_of_failover (hr : replicate = false) (hs : stored = none)
    {e : SendRefusal} (h : (storeOnHints replicate stored l).answer = .error e) :
    ∀ a ∈ (storeOnHints replicate stored l).attempts, ¬ a.reply.IsAccepted := by
  have hnext : ∀ {a : Attempt} {o : SendOutcome}, ¬ a.reply.IsAccepted →
      (∀ b ∈ o.attempts, ¬ b.reply.IsAccepted) →
      ∀ b ∈ (o.after a).attempts, ¬ b.reply.IsAccepted := by
    intro a o ha ih b hb
    rcases mem_after.mp hb with rfl | hb
    · exact ha
    · exact ih b hb
  fun_induction storeOnHints replicate stored l with
  | case1 => simp
  | case2 stored a rest hreply => simp [hreply, StoreReply.IsAccepted]
  | case3 stored a rest hreply _ => simp [hreply, StoreReply.IsAccepted]
  | case4 stored a rest _ hsome _ => simp [hs] at hsome
  | case5 stored a rest hash _ hyes _ => simp [hr] at hyes
  | case6 => cases h
  | case7 stored a rest hreply ih => exact hnext (by simp [hreply, StoreReply.IsAccepted]) (ih hs h)
  | case8 stored a rest hreply ih => exact hnext (by simp [hreply, StoreReply.IsAccepted]) (ih hs h)

theorem storeOnHints_singleton (replicate : Bool) (a : Attempt) :
    (storeOnHints replicate none [a]).attempts = [a] := by
  unfold storeOnHints
  split
  · rfl
  · rfl
  · split
    · rfl
    · rfl
  · rfl
  · rfl

end Loop

section Send

variable {h : MessageHandler} {session : String} {body : Option SendRequest} {out : Outgoing}
  {lookup : String → Except LookupError IdentityRecord} {router : RelayRouter}
    {rec : IdentityRecord} {legacy : Bool}

theorem handleSend_routed (hdec : decodeSend session body = .ok out)
    (hrouting : h.routing out.req.recipientAddress = some (lookup, router))
    (hrec : h.recipient lookup out.req.recipientAddress = some (rec, legacy)) :
    h.handleSend session body = h.sendTo router out rec legacy := by
  unfold MessageHandler.handleSend
  simp only [hdec, hrouting, hrec]

theorem recipient_legacy {address : String} (hrec : h.recipient lookup address = some (rec, true)) :
    (∃ e, lookup address = .error e) ∧
      ∃ xPub multiaddr, h.resolveBridge = some (some (xPub, multiaddr)) ∧
      rec.relayHints = [multiaddr] := by
  unfold MessageHandler.recipient at hrec
  split at hrec
  · simp at hrec
  · next e he =>
    obtain ⟨rec', hlegacy, heq⟩ := Option.map_eq_some_iff.mp hrec
    cases heq
    unfold MessageHandler.legacyRecipient at hlegacy
    simp only [Option.bind_eq_bind, Option.bind_eq_some_iff, Option.pure_def, Option.some.injEq]
      at hlegacy
    obtain ⟨resolved, hresolved, ⟨xPub, multiaddr⟩, rfl, rfl⟩ := hlegacy
    exact ⟨⟨e, he⟩, xPub, multiaddr, hresolved, rfl⟩

theorem recipient_native {address : String}
    (hrec : h.recipient lookup address = some (rec, false)) :
    lookup address = .ok rec := by
  unfold MessageHandler.recipient at hrec
  split at hrec
  · next rec' hlookup =>
    cases hrec
    exact hlookup
  · obtain ⟨rec', -, heq⟩ := Option.map_eq_some_iff.mp hrec
    cases heq

theorem sendTo_legacy {multiaddr : String} (hhints : rec.relayHints = [multiaddr]) :
    h.sendTo router out rec true =
      MessageHandler.storeOnHints
      (h.replicates.any fun replicates => replicates out.req.recipientAddress) none
        [⟨.hint multiaddr, router.attempt out 0 multiaddr⟩] := by
  unfold MessageHandler.sendTo
  simp [hhints, RelayRouter.replies]

theorem sendTo_direct (hhints : rec.relayHints ≠ [])
    (hverify : h.verifyRouting.all (fun verify => verify rec) = true)
    (honion : (out.req.onion || rec.requireOnion) = false) :
    h.sendTo router out rec false =
      MessageHandler.storeOnHints
      (h.replicates.any fun replicates => replicates out.req.recipientAddress) none
        (router.replies out rec.relayHints) := by
  have hvouched : h.verifyRouting.any (fun verify => !verify rec) = false := by
    cases hv : h.verifyRouting with
    | none => rfl
    | some verify => simpa [hv] using hverify
  unfold MessageHandler.sendTo
  simp [hhints, hvouched, honion]

theorem not_fullAfterCopy_singleton (a : Attempt) : ¬ FullAfterCopy [a] := by
  rintro ⟨before, b, between, f, after, heq, -⟩
  have hlen := congrArg List.length heq
  simp at hlen
  omega

theorem not_misrouted_of_truthful (ht : TruthfulSend h session body)
    (hdec : decodeSend session body = .ok out) (hrouting : h.routing out.req.recipientAddress =
      some (lookup, router)) : ¬ Misrouted h out lookup router := by
  rintro ⟨htransient, xPub, multiaddr, hbridge, hreached⟩
  obtain ⟨rec, hlegacy, hhints⟩ : ∃ rec, h.legacyRecipient out.req.recipientAddress = some rec ∧
      rec.relayHints = [multiaddr] := by
    unfold MessageHandler.legacyRecipient
    rw [hbridge]
    exact ⟨_, rfl, rfl⟩
  have hrec : h.recipient lookup out.req.recipientAddress = some (rec, true) := by
    unfold MessageHandler.recipient
    simp [htransient, hlegacy]
  have hattempts : (h.handleSend session body).attempts =
      [⟨.hint multiaddr, router.attempt out 0 multiaddr⟩] := by
    rw [handleSend_routed hdec hrouting hrec, sendTo_legacy hhints, storeOnHints_singleton]
  have hoffers : OffersBridge h session body := by
    refine ⟨out, lookup, router, rec, hdec, hrouting, hrec,
      ⟨.hint multiaddr, router.attempt out 0 multiaddr⟩, ?_, hreached⟩
    rw [hattempts]
    exact List.mem_singleton.mpr rfl
  have hnotFound := ht.bridge hoffers out lookup router hdec hrouting
  rw [htransient] at hnotFound
  cases hnotFound

theorem replies_nil : router.replies out [] = [] := rfl

theorem not_misreported_of_truthful (ht : TruthfulSend h session body)
    (hdec : decodeSend session body = .ok out) (hrouting : h.routing out.req.recipientAddress =
      some (lookup, router)) : ¬ Misreported h out lookup router := by
  rintro ⟨rec, hlookup, hverify, honion, hreplicate, hfull⟩
  have hrec : h.recipient lookup out.req.recipientAddress = some (rec, false) := by
    unfold MessageHandler.recipient
    rw [hlookup]
  have hhints : rec.relayHints ≠ [] := by
    intro hnil
    rw [hnil, replies_nil] at hfull
    obtain ⟨before, a, between, f, after, heq, -⟩ := hfull
    simp at heq
  obtain ⟨⟨e, he⟩, a, ha, haccepted⟩ := (storeOnHints_error_iff hreplicate rfl).mpr hfull
  rw [← sendTo_direct hhints hverify honion, ← handleSend_routed hdec hrouting hrec] at he ha
  exact ht.failure e he a ha haccepted

theorem handleSend_cases (hdec : decodeSend session body = .ok out)
    (hrouting : h.routing out.req.recipientAddress = some (lookup, router)) :
    (∃ e, h.handleSend session body = .refuse e) ∨
      ∃ rec legacy, h.recipient lookup out.req.recipientAddress = some (rec, legacy) ∧
        h.handleSend session body = h.sendTo router out rec legacy := by
  cases hrec : h.recipient lookup out.req.recipientAddress with
  | none =>
    refine .inl ⟨.recipientNotFound, ?_⟩
    unfold MessageHandler.handleSend
    simp only [hdec, hrouting, hrec]
  | some r => exact .inr ⟨r.1, r.2, rfl, handleSend_routed hdec hrouting hrec⟩

theorem sendTo_cases (router : RelayRouter) (out : Outgoing) (rec : IdentityRecord)
    (legacy : Bool) :
    (∃ e, h.sendTo router out rec legacy = .refuse e) ∨
    (legacy = false ∧
      ((h.sendTo router out rec legacy = ⟨.error .onionFailed, [⟨.onionExit, .refused⟩]⟩) ∨
      ∃ hash, h.sendTo router out rec legacy = ⟨.ok hash, [⟨.onionExit, .accepted hash⟩]⟩)) ∨
    ((legacy = false → h.verifyRouting.all (fun verify => verify rec) = true ∧
        (out.req.onion || rec.requireOnion) = false) ∧
      h.sendTo router out rec legacy =
        MessageHandler.storeOnHints
          (h.replicates.any fun replicates => replicates out.req.recipientAddress) none
          (router.replies out rec.relayHints)) := by
  unfold MessageHandler.sendTo
  split
  · exact .inl ⟨_, rfl⟩
  · split
    · exact .inl ⟨_, rfl⟩
    · next hvouched =>
      split
      · next honion =>
        have hnative : legacy = false := by
          simp only [Bool.and_eq_true, Bool.not_eq_true'] at honion
          exact honion.2
        split
        · exact .inr (.inl ⟨hnative, .inl rfl⟩)
        · exact .inr (.inl ⟨hnative, .inr ⟨_, rfl⟩⟩)
      · next honion =>
        refine .inr (.inr ⟨fun hnative => ?_, rfl⟩)
        subst hnative
        constructor
        · cases hv : h.verifyRouting with
          | none => rfl
          | some verify => simpa [hv] using hvouched
        · simpa using honion

theorem bridge_of_not_misrouted (hclear : ∀ out lookup router, decodeSend session body = .ok out →
      h.routing out.req.recipientAddress = some (lookup, router) → ¬ Misrouted h out lookup router)
    (hoffers : OffersBridge h session body) : ∀ out lookup router, decodeSend session body =
    .ok out →
      h.routing out.req.recipientAddress = some (lookup, router) →
      lookup out.req.recipientAddress = .error .notFound := by
  intro out lookup router hdec hrouting
  obtain ⟨out', lookup', router', rec, hdec', hrouting', hrec, a, ha, hreached⟩ := hoffers
  rw [hdec, Except.ok.injEq] at hdec'
  subst hdec'
  rw [hrouting, Option.some.injEq, Prod.mk.injEq] at hrouting'
  obtain ⟨rfl, rfl⟩ := hrouting'
  obtain ⟨⟨e, he⟩, xPub, multiaddr, hbridge, hhints⟩ := recipient_legacy hrec
  cases e with
  | notFound => exact he
  | transient =>
    rw [handleSend_routed hdec hrouting hrec, sendTo_legacy hhints] at ha
    obtain rfl := List.mem_singleton.mp (storeOnHints_attempts _ _ _ a ha)
    exact absurd ⟨he, xPub, multiaddr, hbridge, hreached⟩ (hclear out lookup router hdec hrouting)

theorem success_named {hash : Fixed 32} (hok : (h.handleSend session body).answer = .ok hash)
    (hdec : decodeSend session body = .ok out) :
    ∃ a ∈ (h.handleSend session body).attempts, a.reply.IsAccepted ∧
      Named h out.req.recipientAddress a.target := by
  cases hrouting : h.routing out.req.recipientAddress with
  | none =>
    unfold MessageHandler.handleSend at hok ⊢
    simp only [hdec, hrouting] at hok ⊢
    split at hok
    · cases hok
    · next hash' hstored =>
      dsimp only
      exact ⟨_, List.mem_singleton.mpr rfl, trivial, hrouting⟩
  | some r =>
    obtain ⟨lookup, router⟩ := r
    rcases handleSend_cases hdec hrouting with ⟨e, he⟩ | ⟨rec, legacy, hrec, hsend⟩
    · rw [he] at hok
      cases hok
    · rw [hsend] at hok ⊢
      rcases sendTo_cases (h := h) router out rec legacy with ⟨e, he⟩ | ⟨hnative, he | ⟨hash', he⟩⟩
        | ⟨-, he⟩
      · rw [he] at hok
        cases hok
      · rw [he] at hok
        cases hok
      · subst hnative
        rw [he]
        exact ⟨_, List.mem_singleton.mpr rfl, trivial, lookup, router, rec, hrouting,
          recipient_native hrec⟩
      · rw [he] at hok ⊢
        rcases storeOnHints_ok hok with hnone | ⟨a, ha, haccepted⟩
        · cases hnone
        · refine ⟨a, ha, haccepted, ?_⟩
          obtain ⟨⟨hint, i⟩, hmem, rfl⟩ := List.mem_map.mp (storeOnHints_attempts _ _ _ a ha)
          exact ⟨lookup, router, rec, legacy, hrouting, hrec, List.fst_mem_of_mem_zipIdx hmem⟩

theorem sendTo_failure (hrec : h.recipient lookup out.req.recipientAddress = some (rec, legacy))
    (hclear : ¬ Misreported h out lookup router) {e : SendRefusal}
    (he : (h.sendTo router out rec legacy).answer = .error e) :
    ∀ a ∈ (h.sendTo router out rec legacy).attempts, ¬ a.reply.IsAccepted := by
  rcases sendTo_cases (h := h) router out rec legacy with ⟨e', hsend⟩ | ⟨-, hsend | ⟨hash, hsend⟩⟩
    | ⟨hdirect, hsend⟩
  · rw [hsend]
    simp [SendOutcome.refuse]
  · rw [hsend]
    simp [StoreReply.IsAccepted]
  · rw [hsend] at he
    cases he
  · rw [hsend] at he ⊢
    cases hreplicate : h.replicates.any fun replicates => replicates out.req.recipientAddress with
    | false =>
      rw [hreplicate] at he
      exact storeOnHints_error_of_failover rfl rfl he
    | true =>
      rw [hreplicate] at he
      intro a ha haccepted
      have hfull := (storeOnHints_error_iff rfl rfl).mp ⟨⟨e, he⟩, a, ha, haccepted⟩
      cases legacy with
      | true =>
        -- the bridge is one relay, and one relay cannot both take a copy and be full
        obtain ⟨-, xPub, multiaddr, -, hhints⟩ := recipient_legacy hrec
        rw [hhints] at hfull
        exact not_fullAfterCopy_singleton _ hfull
      | false =>
        obtain ⟨hverify, honion⟩ := hdirect rfl
        exact hclear ⟨rec, recipient_native hrec, hverify, honion, hreplicate, hfull⟩

theorem failure_of_not_misreported
    (hclear : ∀ out lookup router, decodeSend session body = .ok out →
      h.routing out.req.recipientAddress = some (lookup, router) →
        ¬ Misreported h out lookup router)
    {e : SendRefusal} (he : (h.handleSend session body).answer = .error e) :
    ∀ a ∈ (h.handleSend session body).attempts, ¬ a.reply.IsAccepted := by
  cases hdec : decodeSend session body with
  | error e' =>
    unfold MessageHandler.handleSend
    simp [hdec, SendOutcome.refuse]
  | ok out =>
    cases hrouting : h.routing out.req.recipientAddress with
    | none =>
      unfold MessageHandler.handleSend at he ⊢
      simp only [hdec, hrouting] at he ⊢
      split at he
      · simp [StoreReply.IsAccepted]
      · cases he
    | some r =>
      obtain ⟨lookup, router⟩ := r
      rcases handleSend_cases hdec hrouting with ⟨e', hsend⟩ | ⟨rec, legacy, hrec, hsend⟩
      · rw [hsend]
        simp [SendOutcome.refuse]
      · rw [hsend] at he ⊢
        exact sendTo_failure hrec (hclear out lookup router hdec hrouting) he

/-- Every answer of a send is truthful, unless a lookup that failed without an answer leads to the
bridge, or a full account is reported after a first copy of a replicated send. -/
theorem send_truthful_iff (h : MessageHandler) (session : String) (body : Option SendRequest) :
    TruthfulSend h session body ↔ ∀ out lookup router, decodeSend session body = .ok out →
      h.routing out.req.recipientAddress = some (lookup, router) →
      ¬ Misrouted h out lookup router ∧ ¬ Misreported h out lookup router := by
  constructor
  · intro ht out lookup router hdec hrouting
    exact ⟨not_misrouted_of_truthful ht hdec hrouting, not_misreported_of_truthful ht hdec hrouting⟩
  · intro hclear
    refine ⟨bridge_of_not_misrouted fun out lookup router hdec hrouting =>
      (hclear out lookup router hdec hrouting).1, ?_, ?_⟩
    · exact fun hash hok out hdec => success_named hok hdec
    · intro e he
      exact failure_of_not_misreported (fun out lookup router hdec hrouting =>
        (hclear out lookup router hdec hrouting).2) he

end Send

/-! A send whose recipient cannot be looked up for the moment, and one to a domain that
replicates. -/
namespace Sends

def request : SendRequest := ⟨"alice@a.example", "", "", "bob@b.example", false⟩

def bob : IdentityRecord :=
  .ofMessage { (default : Pb.IdentityRecord) with relayHints := ["relay-1", "relay-2"] } []

def router : RelayRouter where
  connectPeer := fun _ _ => true
  storePreSignedOnPeer := fun i _ _ _ _ => if i = 0 then .accepted (.zero 32) else .full
  sendOnionPreSigned := fun _ _ _ _ => none

def handler (lookup : String → Except LookupError IdentityRecord) : MessageHandler where
  storePreSigned := fun _ _ _ => none
  registryLookup := some lookup
  resolveBridge := some (some (.zero 32, "bridge"))
  relayRouter := some router
  replicates := some fun _ => true
  verifyRouting := none

theorem decodeSend_request : ∃ env, decodeSend "alice@a.example"
    (some request) = .ok ⟨request, env, []⟩ := ⟨_, rfl⟩

/-- The bridge takes the envelope while nobody has said that there is no identity; and a stored copy
is reported as a full mailbox. -/
theorem untruthful_sends :
    ((handler fun _ => .error .transient).handleSend "alice@a.example" (some request)).answer =
      .ok (.zero 32) ∧
    ¬ TruthfulSend (handler fun _ => .error .transient) "alice@a.example" (some request) ∧
    ((handler fun _ => .ok bob).handleSend "alice@a.example" (some request)).answer =
      .error .mailboxFull ∧
    ¬ TruthfulSend (handler fun _ => .ok bob) "alice@a.example" (some request) := by
  obtain ⟨env, hdec⟩ := decodeSend_request
  refine ⟨rfl, fun ht => ?_, rfl, fun ht => ?_⟩
  · refine not_misrouted_of_truthful ht hdec rfl ⟨rfl, .zero 32, "bridge", rfl, ?_⟩
    exact fun hreply => by cases hreply
  · refine not_misreported_of_truthful ht hdec rfl ⟨bob, rfl, rfl, rfl, rfl, ?_⟩
    exact ⟨[], ⟨.hint "relay-1", .accepted (.zero 32)⟩, [], ⟨.hint "relay-2", .full⟩, [], rfl,
      trivial, rfl, by simp⟩

end Sends

end Dmcn
