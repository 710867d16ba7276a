import OpenDmcn.Bridge.Address
import OpenDmcn.Bridge.Types
import OpenDmcn.Relay.AcceptRecord

/-! Outbound mail (`bridge/outbound.go`): a message that was opened is bound to its sender, checked,
and handed to SMTP. What the bridge remembers of a message, while it retries it and once it has
delivered it, is kept under the ID of the message and its recipient. -/

namespace Dmcn.Bridge

open Go

def outboundDedupMax : ℕ := 4096

structure DeliveryKey where
  id : Fixed 16
  recipient : String
  deriving DecidableEq

def keyFor (u : Unicode) (id : Fixed 16) (recipient : String) : DeliveryKey :=
  ⟨id, Strings.toLower u (Strings.trimSpace u recipient)⟩

/-- What is remembered of a message while it is retried: whether the hourly limit has let it
through, and the key that its sender was verified with, which is empty until then. -/
structure RetryRecord where
  passed : Bool
  signer : Bytes

abbrev Retrying := AList fun _ : DeliveryKey => RetryRecord

namespace Retrying

def get (r : Retrying) (k : DeliveryKey) : RetryRecord := (r.lookup k).getD ⟨false, []⟩

def update (r : Retrying) (k : DeliveryKey) (change : RetryRecord → RetryRecord) : Retrying :=
  let recs : Retrying := if r.keys.length ≥ outboundDedupMax then ∅ else r
  recs.insert k (change (recs.get k))

def forget (r : Retrying) (k : DeliveryKey) : Retrying := r.erase k

end Retrying

def mark (seen : Finset DeliveryKey) (k : DeliveryKey) : Finset DeliveryKey :=
  insert k (if seen.card ≥ outboundDedupMax then ∅ else seen)

structure OutboundConfig where
  rt : Runtime
  receiptCodec : Codec Pb.BridgeDeliveryReceipt
  bridgePriv : Bytes
  bridgeAddr : String
  credential : Option Credential
  domains : DomainConfig

structure OutboundHandler where
  limiter : RateLimiter
  seen : Finset DeliveryKey
  retrying : Retrying

structure DeliverError where
  text : Bytes
  deferred : Bool

structure OutboundSurroundings where
  lookup : String → Option IdentityRecord
  /-- The clock at the limiter and at the receipt. -/
  limitedAt : Time
  receiptAt : Time
  /-- `Deliver` of the address the mail is from and the one it is to. -/
  deliver : String → String → PlaintextMessage → Audience → Option DeliverError

structure OpenedMessage where
  plaintext : PlaintextMessage
  audience : Audience

inductive OutboundError where
  | senderNotFound | senderKeyMismatch | senderNotAuthorized | notLegacyAddress
  | unsafeHeader (name : String)
  | rateLimited | delivery (e : DeliverError) | receipt | notSent | undecryptable | load

structure OutboundAttempt where
  plaintext : Option PlaintextMessage
  sender : Option IdentityRecord
  receipt : Option BridgeDeliveryReceipt
  err : Option OutboundError
  retry : Bool

structure SendResult where
  handler : OutboundHandler
  attempt : OutboundAttempt
  /-- The message that `Deliver` was called with, and its answer. -/
  delivered : Option (PlaintextMessage × Option DeliverError)
  audit : List AuditEvent

section Send

variable (cfg : OutboundConfig)

def OutboundConfig.key (pt : PlaintextMessage) : DeliveryKey :=
  keyFor cfg.rt.unicode pt.messageID pt.recipientAddress

def ed25519PrivateKeySize : ℕ := 64

def signReceipt (now : Time) (msgID : Fixed 16) (recipient : String) (success : Bool)
    (detail : Bytes) :
    Option BridgeDeliveryReceipt := do
  let detail ← readUtf8 detail
  let receipt : BridgeDeliveryReceipt :=
    ⟨msgID, recipient, cfg.bridgeAddr, now, success, detail, .zero 64, cfg.credential⟩
  if cfg.bridgePriv.length ≠ ed25519PrivateKeySize then none
  else
    some { receipt with
      bridgeSignature := Fixed.copy 64
        (cfg.rt.ed25519Sign cfg.bridgePriv (receipt.signableBytes cfg.receiptCodec)) }

def makeReceipt (now : Time) (msgID : Fixed 16) (recipient : String)
    (deliverErr : Option DeliverError) :
    Option BridgeDeliveryReceipt :=
  match deliverErr with
  | none => signReceipt cfg now msgID recipient true []
  | some e => signReceipt cfg now msgID recipient false e.text

def signedBySender (h : OutboundHandler) (senderRec : IdentityRecord) (pt : PlaintextMessage) :
    Bool :=
  if senderRec.ed25519Public = pt.senderPublicKey then true
  else
    let signer := (h.retrying.get (cfg.key pt)).signer
    signer ≠ [] ∧ signer = pt.senderPublicKey

def hasHeaderInjection (s : String) : Bool := s.toList.any fun c => c = '\r' ∨ c = '\n' ∨ c = '\x00'

def refusal (pt : PlaintextMessage) : Option (OutboundError × Option String) :=
  let u := cfg.rt.unicode
  if cfg.domains.senderAuthorized u pt.senderAddress = false then
    some (.senderNotAuthorized, "sender not authorized")
  else
    let (bridgeDomain, dmcnDomain) :=
      (cfg.domains.profileSet u).forDMCNDomain u (domainOf u pt.senderAddress)
    if isLegacyAddress u pt.recipientAddress bridgeDomain dmcnDomain = false then
      some (.notLegacyAddress, none)
    else if hasHeaderInjection (dmcnToSMTPFrom pt.senderAddress bridgeDomain) then
      some (.unsafeHeader "sender", "header injection in sender")
    else if hasHeaderInjection pt.recipientAddress then
      some (.unsafeHeader "recipient", "header injection in recipient")
    else if hasHeaderInjection pt.subject then
      some (.unsafeHeader "subject", "header injection in subject")
    else none

def fail (h : OutboundHandler) (pt : PlaintextMessage) (sender : Option IdentityRecord)
    (retry : Bool) (err : OutboundError) : OutboundHandler × OutboundAttempt :=
  let retrying :=
    if retry = false then h.retrying.forget (cfg.key pt)
    else
      match sender with
      | none => h.retrying
      | some _ => h.retrying.update (cfg.key pt) fun r => { r with signer := pt.senderPublicKey }
  ({ h with retrying := retrying }, ⟨some pt, sender, none, some err, retry⟩)

def event (pt : PlaintextMessage) (action : String) (success : Bool) (detail : Bytes) :
    AuditEvent :=
  ⟨default, utf8 action, utf8 pt.senderAddress, utf8 pt.recipientAddress, [], 0, success, detail⟩

def conclude (w : OutboundSurroundings) (h : OutboundHandler) (pt : PlaintextMessage)
    (sender : IdentityRecord) (deliverErr : Option DeliverError) :
    OutboundHandler × OutboundAttempt :=
  match makeReceipt cfg w.receiptAt pt.messageID pt.recipientAddress deliverErr with
  | none => fail cfg h pt (some sender) true .receipt
  | some receipt => (h, ⟨some pt, some sender, some receipt, deliverErr.map .delivery, false⟩)

def handToSMTP (w : OutboundSurroundings) (h : OutboundHandler) (o : OpenedMessage)
    (sender : IdentityRecord) :
    SendResult :=
  let pt := o.plaintext
  let answer := w.deliver (cfg.domains.smtpFrom cfg.rt.unicode pt.senderAddress) pt.recipientAddress
    pt o.audience
  match answer with
  | none =>
    let h' :=
      { h with retrying := h.retrying.forget (cfg.key pt), seen := mark h.seen (cfg.key pt) }
    let (h'', a) := conclude cfg w h' pt sender none
    ⟨h'', a, some (pt, none), [event pt "outbound.deliver" true []]⟩
  | some e =>
    if e.deferred then
      let (h', a) := fail cfg h pt (some sender) true (.delivery e)
      ⟨h', a, some (pt, some e), [event pt "outbound.deliver" false e.text]⟩
    else
      let (h', a) :=
        conclude cfg w { h with retrying := h.retrying.forget (cfg.key pt) } pt sender (some e)
      ⟨h', a, some (pt, some e), [event pt "outbound.deliver" false e.text]⟩

def sendLimited (w : OutboundSurroundings) (h : OutboundHandler) (o : OpenedMessage)
    (sender : IdentityRecord) :
    SendResult :=
  let pt := o.plaintext
  if (h.retrying.get (cfg.key pt)).passed then handToSMTP cfg w h o sender
  else
    let (limiter, allowed) := h.limiter.allow w.limitedAt pt.senderAddress
    if allowed = false then
      let (h', a) := fail cfg { h with limiter := limiter } pt (some sender) true .rateLimited
      ⟨h', a, none, []⟩
    else
      handToSMTP cfg w { h with
        limiter := limiter
        retrying := h.retrying.update (cfg.key pt) fun r => { r with passed := true } } o sender

def sendVerified (w : OutboundSurroundings) (h : OutboundHandler) (o : OpenedMessage)
    (sender : IdentityRecord) :
    SendResult :=
  let pt := o.plaintext
  match refusal cfg pt with
  | some (err, detail) =>
    let (h', a) := fail cfg h pt (some sender) false err
    ⟨h', a, none, (detail.map fun d => event pt "outbound.reject" false (utf8 d)).toList⟩
  | none =>
    if cfg.key pt ∈ h.seen then
      let (h', a) := conclude cfg w h pt sender none
      ⟨h', a, none, []⟩
    else sendLimited cfg w h o sender

def send (w : OutboundSurroundings) (h : OutboundHandler) (o : OpenedMessage) : SendResult :=
  let pt := o.plaintext
  match w.lookup pt.senderAddress with
  | none =>
    let (h', a) := fail cfg h pt none true .senderNotFound
    ⟨h', a, none, []⟩
  | some senderRec =>
    if signedBySender cfg h senderRec pt = false then
      let (h', a) := fail cfg h pt none true .senderKeyMismatch
      ⟨h', a, none,
        [event pt "outbound.reject" false (utf8 "sender key does not match registry record")]⟩
    else sendVerified cfg w h o senderRec

def expire (w : OutboundSurroundings) (h : OutboundHandler) (o : OpenedMessage) : OutboundAttempt :=
  let sender := (w.lookup o.plaintext.senderAddress).filter fun rec =>
    signedBySender cfg h rec o.plaintext
  ⟨some o.plaintext, sender, none, some .notSent, true⟩

def refusalNotice : Option OutboundError → String
  | some .senderNotAuthorized => "Your address is not one this service sends ordinary email for."
  | some .notLegacyAddress =>
    "That address belongs to this service, so the message has to be sent to it directly, not as ordinary email."
  | some (.unsafeHeader _) =>
    "The subject or an address contains characters that email does not allow."
  | _ => ""

def readableDuration (d : Duration) : String :=
  let day := 24 * Duration.hour
  if d = day then "1 day"
  else if d % day = 0 then toString (d / day).toInt ++ " days"
  else if d = Duration.hour then "1 hour"
  else if d % Duration.hour = 0 then toString (d / Duration.hour).toInt ++ " hours"
  else d.string

def abandon (now : Time) (h : OutboundHandler) (a : OutboundAttempt) (after : Duration) :
    OutboundHandler × Option BridgeDeliveryReceipt :=
  let notice :=
    if a.retry then "It still could not be sent after " ++ readableDuration after ++
      ", so we have stopped trying."
    else refusalNotice a.err
  match a.plaintext with
  | none => (h, none)
  | some pt =>
    let receipt :=
      if a.sender.isNone ∨ notice = "" then none
      else signReceipt cfg now pt.messageID pt.recipientAddress false (utf8 notice)
    ({ h with retrying := h.retrying.forget (cfg.key pt) }, receipt)

def shouldNotifySender : Option BridgeDeliveryReceipt → Bool
  | some r => !r.success
  | none => false

end Send

end Dmcn.Bridge
