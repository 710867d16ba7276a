import OpenDmcn.Bridge.Authenticate
import OpenDmcn.Bridge.Mime
import OpenDmcn.Message.SplitPath

/-! Mail that comes in (`bridge/inbound.go`, `bridge/loop.go`). A reader is shown the first address
that the `From` header lists; DMARC is evaluated for the domain of the header's one address, and for
none if it lists several. -/

namespace Dmcn.Pb

open Go

structure BridgeClassificationRecord where
  bridgeAddress : String
  bridgePublicKey : Bytes
  smtpFrom : String
  smtpSenderIp : String
  spfResult : Int32
  dkimResult : Int32
  dmarcResult : Int32
  reputationScore : Int32
  trustTier : Int32
  classifiedAt : Int64
  bridgeSignature : Bytes
  bridgeCredential : Option Pb.Credential
  deriving DecidableEq, Inhabited

deriving instance Countable for BridgeClassificationRecord

end Dmcn.Pb

namespace Dmcn.Bridge

open Go Guard

structure BridgeClassificationRecord where
  bridgeAddress : String
  bridgePublicKey : Bytes
  smtpFrom : String
  smtpSenderIP : String
  spfResult : SPFResult
  dkimResult : DKIMResult
  dmarcResult : DMARCResult
  reputationScore : Int32
  trustTier : BridgeTrustTier
  classifiedAt : Time
  bridgeSignature : Fixed 64
  bridgeCredential : Option Credential
  deriving DecidableEq

namespace BridgeClassificationRecord

def toProto (r : BridgeClassificationRecord) : Pb.BridgeClassificationRecord :=
  ⟨r.bridgeAddress, r.bridgePublicKey, r.smtpFrom, r.smtpSenderIP, Int32.ofNat r.spfResult.ctorIdx,
    Int32.ofNat r.dkimResult.ctorIdx, Int32.ofNat r.dmarcResult.ctorIdx, r.reputationScore,
    Int32.ofNat r.trustTier.ctorIdx, r.classifiedAt.unix, r.bridgeSignature.val,
      r.bridgeCredential.map
        Credential.toProto⟩

def signableBytes (codec : Codec Pb.BridgeClassificationRecord) (r : BridgeClassificationRecord) :
    Bytes :=
  codec.marshalDeterministic { r.toProto with bridgeSignature := [], bridgeCredential := none }

def sign (rt : Runtime) (codec : Codec Pb.BridgeClassificationRecord) (priv : Bytes)
    (r : BridgeClassificationRecord) :
    Option BridgeClassificationRecord :=
  if priv.length ≠ ed25519SeedAndKeySize then none
  else some { r with bridgeSignature := Fixed.copy 64 (rt.ed25519Sign priv (r.signableBytes codec))
    }

end BridgeClassificationRecord

def newClassificationRecord (bridgeAddr : String) (bridgePubKey : Bytes) (smtpFrom : String)
    (authResult : AuthResult) (tier : BridgeTrustTier) (now : Time) : BridgeClassificationRecord :=
  ⟨bridgeAddr, bridgePubKey, smtpFrom, authResult.senderIP, authResult.spf, authResult.dkim,
    authResult.dmarc, 0,
      tier, now,
    .zero 64, none⟩

def readText (t : Mail.Text) : String :=
  String.ofList (t.map fun r =>
    match r with
    | .char c => c
    | .byte _ => '\uFFFD')

section Sender

variable (rt : AuthRuntime)

def senderAddressForSMTP (from' : String) : String :=
  match Mail.parseSingleAddress rt.addr (.ofString from') with
  | some a => if a.address ≠ "" then a.address else from'
  | none => from'

def listedSender (h : Header) : Option Mail.Address :=
  match Mail.parseAddressList rt.addr (h.get "From") with
  | some (a :: _) => if a.address ≠ "" then some a else none
  | _ => none

def displayName (a : Mail.Address) : String :=
  let name := Strings.trimSpace rt.unicode (readText a.name)
  if Strings.equalFold rt.unicode name a.address ∨ '@' ∈ name.toList then "" else name

def inboundSender (hdr : Option Header) (from' : String) : String × String :=
  match hdr.bind (listedSender rt) with
  | some a => (a.address, displayName rt a)
  | none => (senderAddressForSMTP rt from', "")

def maxReceivedHops : ℕ := 25

def receivedHopCount (h : Header) : ℕ := (h "Received").length

def isAutoSubmitted (h : Header) : Bool :=
  let value (key : String) : String :=
    Strings.toLower rt.unicode (Strings.trimSpace rt.unicode (readText (h.get key)))
  (value "Auto-Submitted" ≠ "" && value "Auto-Submitted" ≠ "no") ||
    ["bulk", "list", "junk", "auto_reply"].contains (value "Precedence")

def isNullSender (from' : String) : Bool :=
  let f := Strings.trimSpace rt.unicode from'
  f = "" || f = "<>"

end Sender

structure InboundConfig where
  rt : Runtime
  primitives : Primitives
  codecs : MessageCodecs
  classificationCodec : Codec Pb.BridgeClassificationRecord
  auth : AuthRuntime
  mime : MimeRuntime
  bridgePub : Bytes
  bridgePriv : Bytes
  deviceID : Fixed 16
  bridgeAddr : String
  credential : Option Credential
  domains : DomainConfig
  lookup : String → Option IdentityRecord
  /-- Whether the relay of the recipient takes the envelope. -/
  deliver : IdentityRecord → EncryptedEnvelope → Bool

structure InboundRecipient where
  smtpAddr : String
  dmcnAddr : String
  record : Option IdentityRecord

structure InboundDraws where
  classifiedAt : Time
  messageID : Fixed 16
  threadID : Fixed 16
  sentAt : Time
  partIDs : ℕ → Fixed 16
  classificationID : Fixed 16
  originalID : Fixed 16
  copies : ℕ → Draws

inductive InboundError where
  | noRecipients | messageRejected | mailLoop | signClassification | split
  deriving DecidableEq

inductive CopyError where
  | recipientNotFound | recipientHasNoMailbox | encrypt | deliver
  deriving DecidableEq

structure Delivery where
  record : IdentityRecord
  header : SignedHeader
  content : MessageContent
  classification : BridgeClassificationRecord

structure Outcome where
  delivered : List Delivery
  failed : List (String × CopyError)
  sealed : List (Fixed 32)

def Outcome.accepted (out : Outcome) : Bool := out.failed.isEmpty || !out.delivered.isEmpty

namespace InboundConfig

variable (cfg : InboundConfig)

def lookupRecipient (dmcnAddr : String) : Except CopyError IdentityRecord :=
  match cfg.lookup dmcnAddr with
  | none => .error .recipientNotFound
  | some rec => if rec.relayHints.length = 0 then .error .recipientHasNoMailbox else .ok rec

def maxInboundAudience : ℕ := 100

def audienceFrom : ℕ → List Mail.Address → List String × ℕ
  | budget, [] => ([], budget)
  | 0, _ :: _ => ([], 0)
  | budget + 1, a :: addrs =>
    let addr := Strings.trimSpace cfg.auth.unicode a.address
    if addr = "" ∨ '\r' ∈ addr.toList ∨ '\n' ∈ addr.toList then audienceFrom (budget + 1) addrs
    else
      let d := domainOf cfg.auth.unicode addr
      let profiles := cfg.domains.profileSet cfg.auth.unicode
      let (bridgeDomain, dmcnDomain) := profiles.forBridgeDomain cfg.auth.unicode d
      let shown :=
        if profiles.servesBridgeDomain cfg.auth.unicode d then smtpToDMCN cfg.auth.unicode addr
          bridgeDomain dmcnDomain
        else addr
      let (out, left) := audienceFrom budget addrs
      (shown :: out, left)

def inboundAudience (hdr : Option Header) : List String × List String :=
  let addresses (field : String) : List Mail.Address :=
    (hdr.bind fun h => Mail.parseAddressList cfg.auth.addr (h.get field)).getD []
  let (to', budget) := cfg.audienceFrom maxInboundAudience (addresses "To")
  let (cc, _) := cfg.audienceFrom budget (addresses "Cc")
  (to', cc)

def attachment (id : Fixed 16) (filename contentType : String) (content : Bytes) :
    AttachmentRecord :=
  ⟨id, filename, contentType, UInt64.ofNat content.length, Fixed.copy 32 (cfg.rt.sha256 content),
    content, "", ""⟩

def classificationContentType : String := "application/x-dmcn-bridge-classification"

/-- The message that every recipient gets a copy of: what was parsed, with the verdict and the
original in front of its attachments. -/
def compose (draws : InboundDraws) (classBytes rawMsg : Bytes) (senderAddr senderDisplay : String) :
    PlaintextMessage :=
  let msg := bridged cfg.mime draws.messageID draws.threadID draws.sentAt senderAddr senderDisplay
    cfg.bridgePub rawMsg
    draws.partIDs
  let parsed : List AttachmentRecord :=
    match parseInboundMIME cfg.mime draws.partIDs rawMsg with
    | .error _ => []
    | .ok parsed => parsed.attachments
  { msg with
    attachments := cfg.attachment draws.classificationID "classification.bin"
      classificationContentType classBytes ::
      cfg.attachment draws.originalID "original.eml" "message/rfc822" rawMsg :: parsed }

def deliverTo (draws : InboundDraws) (sh : SignedHeader) (content : MessageContent)
    (classRec : BridgeClassificationRecord) (bounces : Bool) (out : Outcome)
    (r : InboundRecipient) : Outcome :=
  match r.record.elim (cfg.lookupRecipient r.dmcnAddr) .ok with
  | .error e => if bounces then out else { out with failed := out.failed ++ [(r.dmcnAddr, e)] }
  | .ok rec =>
    if rec.x25519Public ∈ out.sealed then out
    else
      let copyHdr : SignedHeader :=
        { sh with header := { sh.header with recipientAddress := r.dmcnAddr } }
      let copyDraws := draws.copies out.sealed.length
      let out := { out with sealed := out.sealed ++ [rec.x25519Public] }
      match encryptSplit cfg.rt cfg.primitives cfg.codecs copyDraws copyHdr content
        [⟨cfg.deviceID, rec.x25519Public⟩] cfg.bridgePriv with
      | none => { out with failed := out.failed ++ [(r.dmcnAddr, .encrypt)] }
      | some env =>
        if cfg.deliver rec env
          then { out with delivered := out.delivered ++ [⟨rec, copyHdr, content, classRec⟩] }
        else { out with failed := out.failed ++ [(r.dmcnAddr, .deliver)] }

def handle (draws : InboundDraws) (senderIP from' : String) (rcpts : List InboundRecipient)
    (rawMsg : Bytes) :
    Except InboundError Outcome := do
  refuse (rcpts = []) .noRecipients
  let authResult := verify cfg.auth senderIP from' rawMsg
  refuse (shouldReject authResult) .messageRejected
  let tier := classify authResult
  let hdr := cfg.auth.readMessage rawMsg
  refuse (hdr.elim 0 receivedHopCount > maxReceivedHops) .mailLoop
  let classRec :=
    newClassificationRecord cfg.bridgeAddr cfg.bridgePub from' authResult tier draws.classifiedAt
  let classRec ← need
      ({ classRec with bridgeCredential := cfg.credential }.sign cfg.rt cfg.classificationCodec
    cfg.bridgePriv) .signClassification
  let classBytes := cfg.classificationCodec.marshalDeterministic classRec.toProto
  let (senderAddr, senderDisplay) := inboundSender cfg.auth hdr from'
  let (sh, content)
      ← need (split cfg.rt cfg.codecs (cfg.compose draws classBytes rawMsg senderAddr senderDisplay)
    cfg.bridgePriv) .split
  let (to', cc) := cfg.inboundAudience hdr
  let sh : SignedHeader := { sh with header := { sh.header with toAddrs := to', cc := cc } }
  let bounces := isNullSender cfg.auth from' || hdr.elim false (isAutoSubmitted cfg.auth)
  return rcpts.foldl (cfg.deliverTo draws sh content classRec bounces) ⟨[], [], []⟩

section Delivered

variable {cfg : InboundConfig} {draws : InboundDraws} {senderIP from' : String}
  {rcpts : List InboundRecipient}
  {rawMsg : Bytes}

/-- What a transaction that is taken in has passed, and the header and the verdict that its copies
are made of. -/
structure TakenIn (cfg : InboundConfig) (senderIP from' : String) (rawMsg : Bytes)
    (sh : SignedHeader) (classRec : BridgeClassificationRecord) : Prop where
  passed : shouldReject (verify cfg.auth senderIP from' rawMsg) = false
  sender : sh.header.senderAddress = (inboundSender cfg.auth (cfg.auth.readMessage rawMsg) from').1
  tier : classRec.trustTier = classify (verify cfg.auth senderIP from' rawMsg)
  dmarc : classRec.dmarcResult = (verify cfg.auth senderIP from' rawMsg).dmarc

theorem senderAddress_bridged (rt : MimeRuntime) (messageID threadID : Fixed 16) (now : Time)
    (addr display : String) (pub raw : Bytes) (ids : ℕ → Fixed 16) :
    (bridged rt messageID threadID now addr display pub raw ids).senderAddress = addr := by
  unfold bridged takeIn
  cases parseInboundMIME rt ids raw with
  | error e => rfl
  | ok parsed =>
    dsimp only
    split_ifs <;> rfl

theorem sign_classification {rt : Runtime} {codec : Codec Pb.BridgeClassificationRecord}
    {priv : Bytes} {r signed : BridgeClassificationRecord}
    (h : r.sign rt codec priv = some signed) :
    signed.trustTier = r.trustTier ∧ signed.dmarcResult = r.dmarcResult := by
  unfold BridgeClassificationRecord.sign at h
  split at h
  · cases h
  · obtain rfl := Option.some.inj h
    exact ⟨rfl, rfl⟩

theorem senderAddress_split {rt : Runtime} {codecs : MessageCodecs} {msg : PlaintextMessage}
    {priv : Bytes} {sh : SignedHeader} {content : MessageContent}
    (h : split rt codecs msg priv = some (sh, content)) :
    sh.header.senderAddress = msg.senderAddress := by
  unfold split at h
  dsimp only at h
  split at h
  · cases h
  · obtain ⟨rfl, _⟩ := Prod.mk.inj (Option.some.inj h)
    rfl

theorem delivered_deliverTo (cfg : InboundConfig) (draws : InboundDraws) (sh : SignedHeader)
    (content : MessageContent) (classRec : BridgeClassificationRecord) (bounces : Bool)
    (out : Outcome) (r : InboundRecipient) :
    ∀ d ∈ (cfg.deliverTo draws sh content classRec bounces out r).delivered, d ∈ out.delivered ∨
      (d.header.header.senderAddress = sh.header.senderAddress ∧ d.classification = classRec) := by
  intro d hd
  unfold deliverTo at hd
  dsimp only at hd
  split at hd
  · split_ifs at hd
    · exact .inl hd
    · exact .inl hd
  · split_ifs at hd
    · exact .inl hd
    · split at hd
      · exact .inl hd
      · split_ifs at hd
        · rcases List.mem_append.mp hd with hd | hd
          · exact .inl hd
          · rw [List.mem_singleton.mp hd]
            exact .inr ⟨rfl, rfl⟩
        · exact .inl hd

theorem delivered_foldl (cfg : InboundConfig) (draws : InboundDraws) (sh : SignedHeader)
    (content : MessageContent) (classRec : BridgeClassificationRecord) (bounces : Bool)
    (rcpts : List InboundRecipient) (out : Outcome) :
    ∀ d ∈ (rcpts.foldl (cfg.deliverTo draws sh content classRec bounces) out).delivered,
      d ∈ out.delivered ∨
      (d.header.header.senderAddress = sh.header.senderAddress ∧ d.classification = classRec) := by
  induction rcpts generalizing out with
  | nil => exact fun d hd => .inl hd
  | cons r rcpts ih =>
    intro d hd
    rcases ih _ d hd with hout | hnew
    · exact delivered_deliverTo cfg draws sh content classRec bounces out r d hout
    · exact .inr hnew

def verdict (cfg : InboundConfig) (draws : InboundDraws) (senderIP from' : String)
    (rawMsg : Bytes) :
    BridgeClassificationRecord :=
  let authResult := verify cfg.auth senderIP from' rawMsg
  { newClassificationRecord cfg.bridgeAddr cfg.bridgePub from' authResult (classify authResult)
    draws.classifiedAt with
    bridgeCredential := cfg.credential }

theorem verdict_of_uncredentialed {cfg : InboundConfig} {draws : InboundDraws}
    {senderIP from' : String} {rawMsg : Bytes} (h : cfg.credential = none) :
    cfg.verdict draws senderIP from' rawMsg =
      newClassificationRecord cfg.bridgeAddr cfg.bridgePub from'
      (verify cfg.auth senderIP from' rawMsg)
        (classify (verify cfg.auth senderIP from' rawMsg)) draws.classifiedAt := by
  unfold verdict
  rw [h]
  rfl

def addressed (cfg : InboundConfig) (rawMsg : Bytes) (sh : SignedHeader) : SignedHeader :=
  let audience := cfg.inboundAudience (cfg.auth.readMessage rawMsg)
  { sh with header := { sh.header with toAddrs := audience.1, cc := audience.2 } }

def copyFor (r : InboundRecipient) (sh : SignedHeader) : SignedHeader :=
  { sh with header := { sh.header with recipientAddress := r.dmcnAddr } }

theorem handle_eq_ok {out : Outcome} : cfg.handle draws senderIP from' rcpts rawMsg = .ok out ↔
    rcpts ≠ [] ∧ shouldReject (verify cfg.auth senderIP from' rawMsg) = false ∧
      (cfg.auth.readMessage rawMsg).elim 0 receivedHopCount ≤ maxReceivedHops ∧
      ∃ classRec sh content, (cfg.verdict draws senderIP from' rawMsg).sign cfg.rt
      cfg.classificationCodec
          cfg.bridgePriv =
          some classRec ∧
        split cfg.rt cfg.codecs
        (cfg.compose draws (cfg.classificationCodec.marshalDeterministic classRec.toProto)
            rawMsg
          (inboundSender cfg.auth (cfg.auth.readMessage rawMsg) from').1
          (inboundSender cfg.auth (cfg.auth.readMessage rawMsg) from').2) cfg.bridgePriv =
          some (sh, content) ∧
        rcpts.foldl (cfg.deliverTo draws (cfg.addressed rawMsg sh) content classRec
          (isNullSender cfg.auth from' ||
          (cfg.auth.readMessage rawMsg).elim false (isAutoSubmitted cfg.auth))) ⟨[], [], []⟩ =
          out := by
  simp only [handle, unit_bind, need_bind, refuse_eq_ok, pure_eq_ok, Prod.exists, not_lt,
    Bool.not_eq_true, gt_iff_lt]
  constructor
  · rintro ⟨hne, hpassed, hhops, classRec, hsigned, sh, content, hsplit, hout⟩
    exact ⟨hne, hpassed, hhops, classRec, sh, content, hsigned, hsplit, hout⟩
  · rintro ⟨hne, hpassed, hhops, classRec, sh, content, hsigned, hsplit, hout⟩
    exact ⟨hne, hpassed, hhops, classRec, hsigned, sh, content, hsplit, hout⟩

theorem handle_singleton {r : InboundRecipient} {rec : IdentityRecord}
    {classRec : BridgeClassificationRecord} {sh : SignedHeader} {content : MessageContent}
    {env : EncryptedEnvelope}
    (hpassed : shouldReject (verify cfg.auth senderIP from' rawMsg) = false)
    (hhops : (cfg.auth.readMessage rawMsg).elim 0 receivedHopCount ≤ maxReceivedHops)
    (hsigned : (cfg.verdict draws senderIP from' rawMsg).sign cfg.rt cfg.classificationCodec
      cfg.bridgePriv = some
        classRec)
    (hsplit : split cfg.rt cfg.codecs
      (cfg.compose draws (cfg.classificationCodec.marshalDeterministic classRec.toProto)
      rawMsg (inboundSender cfg.auth (cfg.auth.readMessage rawMsg) from').1
      (inboundSender cfg.auth (cfg.auth.readMessage rawMsg) from').2) cfg.bridgePriv =
        some (sh, content))
    (hrec : r.record = some rec)
    (hseal : encryptSplit cfg.rt cfg.primitives cfg.codecs (draws.copies 0)
      (copyFor r (cfg.addressed rawMsg sh))
        content
      [⟨cfg.deviceID, rec.x25519Public⟩] cfg.bridgePriv = some env)
    (hdeliver : cfg.deliver rec env = true) :
    cfg.handle draws senderIP from' [r] rawMsg =
      .ok ⟨[⟨rec, copyFor r (cfg.addressed rawMsg sh), content, classRec⟩], [],
        [rec.x25519Public]⟩ := by
  rw [handle_eq_ok]
  refine ⟨List.cons_ne_nil _ _, hpassed, hhops, classRec, sh, content, hsigned, hsplit, ?_⟩
  unfold copyFor at hseal
  rw [List.foldl_cons, List.foldl_nil, deliverTo, hrec]
  simp only [Option.elim_some, List.not_mem_nil, if_false, List.length_nil, hseal, hdeliver,
    if_true, List.nil_append]
  rfl

theorem takenIn_of_delivered {out : Outcome}
    (h : cfg.handle draws senderIP from' rcpts rawMsg = .ok out)
    {d : Delivery} (hd : d ∈ out.delivered) :
    TakenIn cfg senderIP from' rawMsg d.header d.classification := by
  obtain ⟨_, hpassed, _, classRec, sh, content, hsigned, hsplit, rfl⟩ := handle_eq_ok.mp h
  rcases delivered_foldl _ _ _ _ _ _ _ _ d hd with hnil | ⟨hsender, hrec⟩
  · cases hnil
  · obtain ⟨htier, hdmarc⟩ := sign_classification hsigned
    refine ⟨hpassed, ?_, ?_, ?_⟩
    · rw [hsender]
      exact (senderAddress_split hsplit).trans (senderAddress_bridged ..)
    · rw [hrec]
      exact htier
    · rw [hrec]
      exact hdmarc

end Delivered

end InboundConfig

section Checked

variable {cfg : InboundConfig} {draws : InboundDraws} {senderIP from' : String}
  {rcpts : List InboundRecipient}
  {rawMsg : Bytes} {out : Outcome}

def ShownFrom (rt : AuthRuntime) (rawMsg : Bytes) (a : Mail.Address) : Prop :=
  (rt.readMessage rawMsg).bind (listedSender rt) = some a

/-- If the `From` header gives the address that is shown, then its domain is the one that DMARC was
evaluated for; so what that domain refuses is not delivered, and what is marked verified is aligned
with it. -/
structure ShownIsChecked (cfg : InboundConfig) (senderIP from' : String) (rawMsg : Bytes)
    (out : Outcome) : Prop where
  domain : ∀ a, ShownFrom cfg.auth rawMsg a → ∀ d ∈ out.delivered, d.header.header.senderAddress =
    a.address ∧
    domainOf cfg.auth.unicode a.address = headerFromDomain cfg.auth rawMsg
  refused : ∀ a, ShownFrom cfg.auth rawMsg a →
    ∀ rec, Publishes cfg.auth (domainOf cfg.auth.unicode a.address) rec →
    mapDMARCPolicy rec.policy = .reject →
    ¬ AlignedWith cfg.auth senderIP from' rawMsg (domainOf cfg.auth.unicode a.address) rec →
      out.delivered = []
  verified : ∀ a, ShownFrom cfg.auth rawMsg a → ∀ d ∈ out.delivered, d.classification.trustTier =
    .verifiedLegacy →
    ∃ rec, Publishes cfg.auth (domainOf cfg.auth.unicode a.address) rec ∧
      AlignedWith cfg.auth senderIP from' rawMsg (domainOf cfg.auth.unicode a.address) rec

def OneSender (rt : AuthRuntime) (rawMsg : Bytes) : Prop :=
  ∀ h, rt.readMessage rawMsg = some h → ∀ a, listedSender rt h = some a →
    domainOf rt.unicode a.address ≠ "" →
    (Mail.parseSingleAddress rt.addr (h.get "From")).isSome = true

theorem listedSender_of_single {rt : AuthRuntime} {h : Header} {a b : Mail.Address}
    (hsingle : Mail.parseSingleAddress rt.addr (h.get "From") = some b)
    (hlisted : listedSender rt h = some a) : a = b
        := by
  unfold listedSender at hlisted
  rw [Mail.parseAddressList_of_single hsingle] at hlisted
  dsimp only at hlisted
  split at hlisted
  · exact (Option.some.inj hlisted).symm
  · cases hlisted

theorem headerFromDomain_of_read {rt : AuthRuntime} {h : Header}
    (hread : rt.readMessage rawMsg = some h) :
    headerFromDomain rt rawMsg =
      (Mail.parseSingleAddress rt.addr (h.get "From")).elim "" fun a =>
      domainOf rt.unicode a.address := by
  unfold headerFromDomain
  rw [hread]
  dsimp only
  split
  · next hnone => rw [hnone, Option.elim_none]
  · next a hsome => rw [hsome, Option.elim_some]

/-- The two readings of the `From` header come to one domain exactly if it holds one address, or an
address without one. -/
theorem domain_iff {rt : AuthRuntime} :
    (∀ a, ShownFrom rt rawMsg a → domainOf rt.unicode a.address = headerFromDomain
    rt rawMsg) ↔
    OneSender rt rawMsg := by
  constructor
  · intro hsame h hread a hlisted hdomain
    have hshown : ShownFrom rt rawMsg a := by
      unfold ShownFrom
      rw [hread]
      exact hlisted
    have heq := hsame a hshown
    rw [headerFromDomain_of_read hread] at heq
    cases hsingle : Mail.parseSingleAddress rt.addr (h.get "From") with
    | none =>
      rw [hsingle, Option.elim_none] at heq
      exact absurd heq hdomain
    | some b => exact Option.isSome_some
  · intro hone a hshown
    obtain ⟨h, hread, hlisted⟩ := Option.bind_eq_some_iff.mp hshown
    rw [headerFromDomain_of_read hread]
    cases hsingle : Mail.parseSingleAddress rt.addr (h.get "From") with
    | some b => rw [listedSender_of_single hsingle hlisted, Option.elim_some]
    | none =>
      by_contra hdomain
      have hsome := hone h hread a hlisted hdomain
      rw [hsingle] at hsome
      cases hsome

theorem sender_of_shown {a : Mail.Address} (h : ShownFrom cfg.auth rawMsg a) :
    (inboundSender cfg.auth (cfg.auth.readMessage rawMsg) from').1 = a.address := by
  unfold inboundSender
  rw [h]

theorem shownIsChecked_of_one (h : cfg.handle draws senderIP from' rcpts rawMsg = .ok out)
    (hone : OneSender cfg.auth rawMsg) : ShownIsChecked cfg senderIP from' rawMsg out := by
  have hdomain := domain_iff.mpr hone
  constructor
  · intro a hshown d hd
    exact ⟨(InboundConfig.takenIn_of_delivered h hd).sender.trans (sender_of_shown hshown),
      hdomain a hshown⟩
  · intro a hshown rec hpub hpolicy hfails
    rw [hdomain a hshown] at hpub hfails
    have hrejects := shouldReject_of_publishes hpub hpolicy hfails
    rw [List.eq_nil_iff_forall_not_mem]
    intro d hd
    rw [(InboundConfig.takenIn_of_delivered h hd).passed] at hrejects
    cases hrejects
  · intro a hshown d hd htier
    rw [(InboundConfig.takenIn_of_delivered h hd).tier] at htier
    rw [hdomain a hshown]
    exact publishes_of_pass (classify_eq_verified htier)

/-- For every mail that is taken in: what is shown is what was checked if the `From` header holds
one address; and if any copy is delivered, then only if it does. -/
theorem shown_is_checked_iff (cfg : InboundConfig) (draws : InboundDraws) (senderIP from' : String)
    (rcpts : List InboundRecipient) (rawMsg : Bytes) (out : Outcome)
    (h : cfg.handle draws senderIP from' rcpts rawMsg = .ok out) :
    (OneSender cfg.auth rawMsg → ShownIsChecked cfg senderIP from' rawMsg out) ∧
      (out.delivered ≠ [] →
        (ShownIsChecked cfg senderIP from' rawMsg out ↔ OneSender cfg.auth rawMsg)) := by
  refine ⟨shownIsChecked_of_one h, fun hdelivered => ⟨?_, shownIsChecked_of_one h⟩⟩
  intro hchecked
  obtain ⟨d, hd⟩ := List.exists_mem_of_ne_nil _ hdelivered
  exact domain_iff.mp fun a hshown => (hchecked.domain a hshown d hd).2

end Checked

namespace Legacy

/-! A mail with a `From` header of one's choice, from a host that is aligned with nothing. -/

def header (shown : String) : Header := fun key => if key = "From" then [Mail.Text.ofString shown]
    else []

def auth (shown : String) : AuthRuntime where
  unicode := asciiUnicode
  addr := ⟨fun _ => none, fun _ => .plain⟩
  readMessage := fun _ => some (header shown)
  splitHostPort := fun _ => none
  spfCheck := fun _ _ _ => ("none", false)
  dkimVerify := fun _ => ([], false)
  dmarcLookup := fun d => if d = "bank.example" then some ⟨"reject", "r", "r"⟩ else none
  effectiveTLDPlusOne := some

def rawMsg (shown : String) : Bytes := utf8 ("From: " ++ shown ++ "\r\n\r\nHello")

def mime (shown : String) : MimeRuntime where
  mail := {
    addressList := fun addrs => String.intercalate ", " addrs
    text := id
    date := fun _ => ""
    contentType := fun ct _ => ct
    attachmentNamed := id
    write := fun _ => none
    createReader := fun _ => some ⟨[("From", shown)], [some ⟨false, [], some (utf8 "Hello")⟩]⟩
    subject := fun _ => none
    messageID := fun _ => none
    msgIDList := fun _ _ => none
    mediaType := fun _ => "text/plain"
    filename := fun _ => "" }
  unicode := asciiUnicode
  sha256 := fun b => b
  htmlToText := id

noncomputable def rt : Runtime := idealRuntime [keyOf 1] []

def bridgePriv : Bytes := List.replicate 64 0

noncomputable def someCodecs : MessageCodecs :=
  ⟨someCodec _, someCodec _, someCodec _, someCodec _, someCodec _⟩

noncomputable def config (codecs : MessageCodecs) (shown : String) : InboundConfig where
  rt := rt
  primitives := plainPrimitives
  codecs := codecs
  classificationCodec := someCodec _
  auth := auth shown
  mime := mime shown
  bridgePub := keyOf 1
  bridgePriv := bridgePriv
  deviceID := .zero 16
  bridgeAddr := "peer"
  credential := none
  domains := ⟨"bridge.localhost", "dmcn.localhost", [], []⟩
  lookup := fun _ => none
  deliver := fun _ _ => true

def reader : Fixed 32 := Fixed.copy 32 (keyOf 2)

def record : IdentityRecord :=
  { IdentityRecord.ofMessage (plainRecord "bob@dmcn.localhost" 4) [] with x25519Public :=
    reader }

def recipient : InboundRecipient := ⟨"bob@bridge.localhost", "bob@dmcn.localhost", some record⟩

def draws : InboundDraws where
  classifiedAt := Time.ofUnix 1000
  messageID := Fixed.copy 16 [1]
  threadID := Fixed.copy 16 [2]
  sentAt := Time.ofUnix 1000
  partIDs := fun _ => Fixed.copy 16 [3]
  classificationID := Fixed.copy 16 [4]
  originalID := Fixed.copy 16 [5]
  copies := fun _ => Hello.draws

def senderIP : String := "192.0.2.1"
def from' : String := "bounce@mailer.example"

section Scenario

variable (shown addr : String)

noncomputable def classRec : BridgeClassificationRecord :=
  let authResult := verify (auth shown) senderIP from' (rawMsg shown)
  ((newClassificationRecord "peer" (keyOf 1) from' authResult (classify authResult)
    (Time.ofUnix 1000)).sign rt
    (someCodec _) bridgePriv).get rfl

theorem sign_classRec :
    (newClassificationRecord "peer" (keyOf 1) from' (verify (auth shown) senderIP from'
    (rawMsg shown)) (classify (verify (auth shown) senderIP from' (rawMsg shown)))
      (Time.ofUnix 1000)).sign rt (someCodec _) bridgePriv = some (classRec shown) := by
  unfold classRec
  exact (Option.some_get _).symm

noncomputable def msg : PlaintextMessage :=
  (config someCodecs shown).compose draws
    ((someCodec _).marshalDeterministic (classRec shown).toProto) (rawMsg shown)
    addr ""

noncomputable def content : MessageContent :=
  ⟨(msg shown addr).body, (msg shown addr).attachments, (msg shown
    addr).alternatives⟩

noncomputable def contentCodecs : MessageCodecs :=
  { someCodecs with messageContent :=
    (Codec.exists_short fun _ : Fixed 0 => (content shown addr).toProto).choose }

noncomputable def splitHdr (codecs : MessageCodecs) : SignedHeader :=
  ((split rt codecs (msg shown addr)
    bridgePriv).get rfl).1

noncomputable def copyHdr (codecs : MessageCodecs) : SignedHeader :=
  InboundConfig.copyFor recipient
    ((config codecs shown).addressed (rawMsg shown) (splitHdr shown addr codecs))

noncomputable def headerAt (address : Fixed 32) : SignedHeader :=
  (copyHdr shown addr (contentCodecs shown addr)).address rt (contentCodecs shown addr)
    ([0x01, 0x55, 0x12, 0x20] ++ address.val) bridgePriv

noncomputable def codecs : MessageCodecs :=
  { contentCodecs shown addr with
    signedHeader := (Codec.exists_short fun x : Fixed 32 =>
      (⟨some (headerAt shown addr x).header.toProto, (headerAt shown addr x).senderSignature.val⟩ :
          Pb.SignedHeader)).choose }

noncomputable def cfg : InboundConfig := config (codecs shown addr) shown

theorem paddable_content : Paddable ((content shown addr).bytes (codecs shown addr)) := by
  have hshort : ((content shown addr).bytes (codecs shown addr)).length ≤ 0 + 1 :=
    (Codec.exists_short fun _ : Fixed 0 => (content shown addr).toProto).choose_spec (.zero 0)
  exact paddable_of_short (hshort.trans (by decide))

theorem paddable_header (nonce ciphertext tag : Bytes) :
    Paddable (((copyHdr shown addr (codecs shown addr)).address rt
    (codecs shown addr) (computeBodyContentAddress rt nonce ciphertext tag) bridgePriv).bytes
      (codecs shown addr)) := by
  have hshort :=
    (Codec.exists_short fun x : Fixed 32 => (⟨some (headerAt shown addr x).header.toProto,
    (headerAt shown addr x).senderSignature.val⟩ : Pb.SignedHeader)).choose_spec
      (Fixed.copy 32 (nonce ++ ciphertext
        ++ tag))
  exact paddable_of_short (hshort.trans (by decide))

theorem sealed_copy : ∃ env, encryptSplit rt plainPrimitives (codecs shown addr) Hello.draws
    (copyHdr shown addr (codecs shown addr)) (content shown addr) [⟨.zero 16, reader⟩] bridgePriv =
      some env := by
  obtain ⟨env, hseal, _⟩ :=
    exists_sealedSplit plainPrimitives_ideal.toLawful Hello.expands_plain Hello.draws
    (copyHdr shown addr (codecs shown addr)) (content shown addr) (List.cons_ne_nil _ _)
      Hello.genuine_recipients
    (show bridgePriv.length = ed25519SeedAndKeySize by decide) (paddable_content shown addr)
      (paddable_header shown
        addr)
  exact ⟨env, hseal⟩

theorem sign_verdict : ((cfg shown addr).verdict draws senderIP from' (rawMsg shown)).sign
    (cfg shown addr).rt (cfg shown addr).classificationCodec (cfg shown addr).bridgePriv =
      some (classRec shown) := by
  have hauth : (cfg shown addr).auth = auth shown := rfl
  rw [InboundConfig.verdict_of_uncredentialed rfl, hauth]
  exact sign_classRec shown

theorem handle_delivers
    (hsender : inboundSender (auth shown) (some (header shown)) from' = (addr, ""))
    (hpassed : shouldReject (verify (auth shown) senderIP from' (rawMsg shown)) = false) :
    ∃ out, (cfg shown addr).handle draws senderIP from' [recipient] (rawMsg shown) = .ok out ∧
      ∃ d ∈ out.delivered, d.header.header.senderAddress = addr := by
  have hhops : ((auth shown).readMessage (rawMsg shown)).elim 0 receivedHopCount ≤
      maxReceivedHops := by
    have hnone : header shown "Received" = [] := if_neg (by decide)
    change (header shown "Received").length ≤ maxReceivedHops
    rw [hnone]
    exact Nat.zero_le _
  obtain ⟨env, hseal⟩ := sealed_copy shown addr
  have hsplit : split rt (codecs shown addr) (msg shown addr) bridgePriv =
      some (splitHdr shown addr (codecs shown addr), content shown addr) := rfl
  have hname := hsender
  change inboundSender (cfg shown addr).auth ((cfg shown addr).auth.readMessage (rawMsg shown))
    from' = _ at hname
  have hhandle : (cfg shown addr).handle draws senderIP from' [recipient] (rawMsg shown) =
      .ok ⟨[⟨record, copyHdr shown addr (codecs shown addr), content shown addr, classRec shown⟩],
        [], [reader]⟩ := by
    apply @InboundConfig.handle_singleton (cfg shown addr) draws senderIP from' (rawMsg shown)
      recipient record
      (classRec shown) (splitHdr shown addr (codecs shown addr)) (content shown addr) env hpassed
        hhops
      (sign_verdict shown addr) ?_ rfl hseal rfl
    rw [hname]
    exact hsplit
  have hmem := List.mem_singleton_self
    (⟨record, copyHdr shown addr (codecs shown addr), content shown addr, classRec shown⟩ :
      Delivery)
  refine ⟨_, hhandle, _, hmem, ?_⟩
  have hsent := (InboundConfig.takenIn_of_delivered hhandle hmem).sender
  rw [hname] at hsent
  exact hsent

end Scenario

def two : String := "ceo@bank.example, x@y.example"

theorem sender_two : inboundSender (auth two)
    (some (header two)) from' = ("ceo@bank.example", "") := by
  decide

theorem passed_two : shouldReject (verify (auth two) senderIP from' (rawMsg two)) = false := by
  decide

theorem shown_two : ShownFrom (auth two) (rawMsg two) ⟨[], "ceo@bank.example"⟩ := by
  have hread : (auth two).readMessage (rawMsg two) = some (header two) := rfl
  unfold ShownFrom
  rw [hread, Option.bind_some]
  decide

theorem not_aligned_two : ¬ AlignedWith (auth two) senderIP from'
    (rawMsg two) "bank.example" ⟨"reject", "r", "r"⟩ := by
  unfold AlignedWith
  decide

def one : String := "ann@shop.example"

theorem sender_one : inboundSender (auth one)
    (some (header one)) from' = ("ann@shop.example", "") := by
  decide

theorem passed_one : shouldReject (verify (auth one) senderIP from' (rawMsg one)) = false := by
  decide

theorem oneSender_one : OneSender (auth one) (rawMsg one) := by
  intro h hread a _ _
  obtain rfl := Option.some.inj hread
  decide

end Legacy

/-- A mail from an address of a domain that refuses what is not aligned with it, and another address
after it: DMARC is evaluated for no domain at all, and the mail is delivered under the first
address. -/
theorem refused_domain_is_shown : ∃ out,
    (Legacy.cfg Legacy.two "ceo@bank.example").handle Legacy.draws Legacy.senderIP Legacy.from'
      [Legacy.recipient] (Legacy.rawMsg Legacy.two) = .ok out ∧
    (∃ d ∈ out.delivered, d.header.header.senderAddress = "ceo@bank.example") ∧
    headerFromDomain (Legacy.auth Legacy.two) (Legacy.rawMsg Legacy.two) = "" ∧
    Publishes (Legacy.auth Legacy.two) "bank.example" ⟨"reject", "r", "r"⟩ ∧
    ¬ AlignedWith (Legacy.auth Legacy.two) Legacy.senderIP Legacy.from' (Legacy.rawMsg Legacy.two)
      "bank.example"
      ⟨"reject", "r", "r"⟩ ∧
    ¬ ShownIsChecked (Legacy.cfg Legacy.two "ceo@bank.example") Legacy.senderIP Legacy.from'
      (Legacy.rawMsg Legacy.two)
      out := by
  obtain ⟨out, hhandle, d, hd, hname⟩ :=
    Legacy.handle_delivers Legacy.two "ceo@bank.example" Legacy.sender_two
    Legacy.passed_two
  have hpub : Publishes (Legacy.auth Legacy.two) "bank.example" ⟨"reject", "r", "r"⟩ :=
    ⟨by decide, rfl⟩
  refine ⟨out, hhandle, ⟨d, hd, hname⟩, by decide, hpub, Legacy.not_aligned_two, ?_⟩
  intro hchecked
  have hdomain : domainOf asciiUnicode "ceo@bank.example" = "bank.example" := by decide
  have hrefused := hchecked.refused _ Legacy.shown_two ⟨"reject", "r", "r"⟩
  change Publishes (Legacy.auth Legacy.two) (domainOf asciiUnicode "ceo@bank.example") _ → _ →
    ¬ AlignedWith
    (Legacy.auth Legacy.two) _ _ _ (domainOf asciiUnicode "ceo@bank.example") _ → _ at hrefused
  rw [hdomain] at hrefused
  rw [hrefused hpub (by decide) Legacy.not_aligned_two] at hd
  cases hd

theorem one_sender_is_checked : ∃ out,
    (Legacy.cfg Legacy.one "ann@shop.example").handle Legacy.draws Legacy.senderIP Legacy.from'
      [Legacy.recipient] (Legacy.rawMsg Legacy.one) = .ok out ∧ out.delivered ≠ [] ∧
    ShownIsChecked (Legacy.cfg Legacy.one "ann@shop.example") Legacy.senderIP Legacy.from'
      (Legacy.rawMsg Legacy.one)
      out := by
  obtain ⟨out, hhandle, d, hd, _⟩ :=
    Legacy.handle_delivers Legacy.one "ann@shop.example" Legacy.sender_one
    Legacy.passed_one
  have hchecked :=
    (shown_is_checked_iff (Legacy.cfg Legacy.one "ann@shop.example") Legacy.draws Legacy.senderIP
    Legacy.from' [Legacy.recipient] (Legacy.rawMsg Legacy.one) out hhandle).1 Legacy.oneSender_one
  exact ⟨out, hhandle, List.ne_nil_of_mem hd, hchecked⟩

end Dmcn.Bridge
