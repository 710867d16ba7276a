import OpenDmcn.Bridge.Address
import OpenDmcn.Bridge.Types
import OpenDmcn.Lib.Hex

/-! A message as RFC 5322 mail and back (`bridge/mime.go`, and what `InboundHandler.handle` makes of
the result). Headers and parts are written and read by `go-message/mail`; the text of an HTML body
is that of `htmlToText`, over an HTML parser. -/

namespace Dmcn

open Go

def PlaintextMessage.newPlaintextMessage (messageID threadID : Fixed 16) (now : Time)
    (from' to' subject body : String) (senderPubKey : Bytes) : PlaintextMessage :=
  ⟨1, messageID, threadID, from', senderPubKey, to', now, subject, ⟨"text/plain", utf8 body⟩, [],
    .zero 16, [], ""⟩

namespace Bridge

abbrev MailHeader := List (String × String)

namespace MailHeader

def sameName (a b : String) : Bool := a.toList.map Char.toLower == b.toList.map Char.toLower

def get (h : MailHeader) (key : String) : String :=
  match h.find? fun f => sameName f.1 key with
  | none => ""
  | some f => f.2

def set (h : MailHeader) (key value : String) : MailHeader :=
  (key, value) :: h.filter fun f => !sameName f.1 key

theorem get_set_self (h : MailHeader) (key value : String) : (h.set key value).get key = value := by
  have hsame : sameName key key = true := by simp [sameName]
  unfold get set
  rw [List.find?_cons_of_pos (by exact hsame)]

theorem get_set_of_ne (h : MailHeader) {key key' : String} (value : String)
    (hne : sameName key key' = false) :
    (h.set key value).get key' = h.get key' := by
  have hother : ∀ f : String × String, sameName f.1 key' = true → (!sameName f.1 key) = true := by
    intro f hf
    rw [Bool.not_eq_true', ← Bool.not_eq_true]
    intro hkey
    have hkeys : sameName key key' = true := by
      unfold sameName at hf hkey ⊢
      rw [beq_iff_eq] at hf hkey ⊢
      exact hkey.symm.trans hf
    rw [hne] at hkeys
    cases hkeys
  unfold get set
  rw [List.find?_cons_of_neg (by rw [hne]; decide), List.find?_filter]
  have hpred :
      (fun f : String × String => decide ((!sameName f.1 key) = true ∧ sameName f.1 key' = true)) =
      fun f => sameName f.1 key' := by
    funext f
    cases hf : sameName f.1 key' with
    | true => simp [hother f hf]
    | false => simp
  rw [hpred]

end MailHeader

inductive OutPart where
  | inline (h : MailHeader) (content : Bytes)
  | alternative (parts : List (MailHeader × Bytes))
  | attachment (h : MailHeader) (content : Bytes)
  deriving DecidableEq

/-- A message as the bridge writes it: with `CreateSingleInlineWriter`, `CreateInlineWriter` or
`CreateWriter`. -/
inductive OutMail where
  | single (h : MailHeader) (content : Bytes)
  | alternative (h : MailHeader) (parts : List (MailHeader × Bytes))
  | mixed (h : MailHeader) (parts : List OutPart)
  deriving DecidableEq

def OutMail.header : OutMail → MailHeader
  | .single h _ => h
  | .alternative h _ => h
  | .mixed h _ => h

deriving instance Countable for OutPart
deriving instance Countable for OutMail

structure InPart where
  attachment : Bool
  header : MailHeader
  body : Option Bytes

structure InMail where
  header : MailHeader
  parts : List (Option InPart)

structure MailLibrary where
  addressList : List String → String
  text : String → String
  date : Time → String
  contentType : String → List (String × String) → String
  attachmentNamed : String → String
  write : OutMail → Option Bytes
  createReader : Bytes → Option InMail
  subject : MailHeader → Option String
  messageID : MailHeader → Option String
  msgIDList : MailHeader → String → Option (List String)
  mediaType : MailHeader → String
  filename : MailHeader → String

structure MimeRuntime where
  mail : MailLibrary
  unicode : Unicode
  sha256 : Bytes → Bytes
  htmlToText : Bytes → Bytes

def angled (id : String) : String := "<" ++ id ++ ">"

def bareMsgID (id : Fixed 16) (domain : String) : String := Hex.encode id.val ++ "@" ++ domain

def mailMsgID (id : Fixed 16) (domain : String) : String := angled (bareMsgID id domain)

inductive MimeError where
  | newline | write | parse | part | partBody
  deriving DecidableEq

section Build

variable (rt : MimeRuntime)

def hasNewline (s : String) : Bool := s.toList.any fun c => c = '\r' ∨ c = '\n'

def addressList (addrs : List String) : List String :=
  (addrs.map (Strings.trimSpace rt.unicode)).filter fun a => a ≠ "" ∧ hasNewline a = false

def recipientsHeader (to' : String) (audience : Audience) (h : MailHeader) : MailHeader :=
  let toList := addressList rt audience.to'
  let ccList := addressList rt audience.cc
  let h := h.set "To" (rt.mail.addressList (if toList.length > 0 then toList else [to']))
  if ccList.length > 0 then h.set "Cc" (rt.mail.addressList ccList) else h

def threadingHeader (msg : PlaintextMessage) (domain : String) (h : MailHeader) : MailHeader :=
  let h := h.set "Message-ID" (mailMsgID msg.messageID domain)
  if msg.replyToID ≠ .zero 16 then
    let parent := mailMsgID msg.replyToID domain
    let refs :=
      if msg.threadID ≠ .zero 16 ∧ msg.threadID ≠ msg.replyToID then mailMsgID msg.threadID
        domain ++ " " ++ parent
      else parent
    (h.set "In-Reply-To" parent).set "References" refs
  else h

def addressedHeader (from' to' : String) (msg : PlaintextMessage) (audience : Audience)
    (now : Time) : MailHeader :=
  let h := recipientsHeader rt to' audience (MailHeader.set [] "From" (rt.mail.addressList [from']))
  (h.set "Subject" (rt.mail.text msg.subject)).set "Date" (rt.mail.date now)

def mimeHeader (from' to' : String) (msg : PlaintextMessage) (audience : Audience) (now : Time) :
    MailHeader :=
  threadingHeader msg (domainOf rt.unicode from') (addressedHeader rt from' to' msg audience now)

def contentTypeHeader (ct : String) (params : List (String × String)) : MailHeader :=
  MailHeader.set [] "Content-Type" (rt.mail.contentType ct params)

def bodyPart (ct : String) (content : Bytes) : MailHeader × Bytes :=
  (contentTypeHeader rt (if ct = "" then "text/plain" else ct) [("charset", "utf-8")], content)

def writeBodyParts (bodyCT : String) (body : Bytes) (alts : List MessageBody) :
    List (MailHeader × Bytes) :=
  bodyPart rt bodyCT body :: alts.map fun a => bodyPart rt a.contentType a.content

def attachmentPart (a : AttachmentRecord) : OutPart :=
  let actype := if a.contentType = "" then "application/octet-stream" else a.contentType
  if a.disposition = "inline" ∧ a.contentID ≠ "" then
    let h := contentTypeHeader rt actype (if a.filename ≠ "" then [("name", a.filename)] else [])
    .inline (h.set "Content-ID" ("<" ++ a.contentID ++ ">")) a.content
  else
    let h := contentTypeHeader rt actype []
    let h := if a.filename ≠ "" then h.set "Content-Disposition"
      (rt.mail.attachmentNamed a.filename) else h
    .attachment (if a.contentID ≠ "" then h.set "Content-ID" ("<" ++ a.contentID ++ ">") else h)
      a.content

def outMail (h : MailHeader) (msg : PlaintextMessage) : OutMail :=
  let bodyCT := if msg.body.contentType = "" then "text/plain" else msg.body.contentType
  let charset := [("charset", "utf-8")]
  if msg.attachments.length = 0 ∧ msg.alternatives.length = 0 then
    .single (h.set "Content-Type" (rt.mail.contentType bodyCT charset)) msg.body.content
  else if msg.attachments.length = 0 then
    .alternative h (writeBodyParts rt bodyCT msg.body.content msg.alternatives)
  else
    let body : OutPart :=
      if msg.alternatives.length > 0 then
        .alternative (writeBodyParts rt bodyCT msg.body.content msg.alternatives)
      else .inline (contentTypeHeader rt bodyCT charset) msg.body.content
    .mixed h (body :: msg.attachments.map (attachmentPart rt))

def buildMIME (from' to' : String) (msg : PlaintextMessage) (audience : Audience) (now : Time) :
    Except MimeError Bytes :=
  if hasNewline from' ∨ hasNewline to' ∨ hasNewline msg.subject then .error .newline
  else
    match rt.mail.write (outMail rt (mimeHeader rt from' to' msg audience now) msg) with
    | none => .error .write
    | some raw => .ok raw

end Build

structure ParsedMail where
  subject : String
  body : MessageBody
  alternatives : List MessageBody
  attachments : List AttachmentRecord
  messageID : Fixed 16
  threadID : Fixed 16
  replyToID : Fixed 16
  hasIDs : Bool

section Parse

variable (rt : MimeRuntime)

def deriveID (s : String) : Fixed 16 :=
  Fixed.copy 16 (rt.sha256 (utf8 (Strings.trimSpace rt.unicode s)))

def bareContentID (v : String) : String :=
  let v := Strings.trimPrefix (Strings.trimSpace rt.unicode v) "<"
  Strings.trimSpace rt.unicode (Strings.trimSuffix v ">")

def mkAttachment (id : Fixed 16) (filename contentType contentID disposition : String)
    (content : Bytes) : AttachmentRecord where
  attachmentID := id
  filename := if filename = "" then "attachment" else filename
  contentType := if contentType = "" then "application/octet-stream" else contentType
  sizeBytes := UInt64.ofNat content.length
  contentHash := Fixed.copy 32 (rt.sha256 content)
  content := content
  contentID := contentID
  disposition := disposition

structure PartsRead where
  plain : Option Bytes
  html : Option Bytes
  attachments : List AttachmentRecord

def readPart (id : Fixed 16) (acc : PartsRead) (p : InPart) (data : Bytes) : PartsRead :=
  let ct := rt.mail.mediaType p.header
  let attach (a : AttachmentRecord) : PartsRead :=
    { acc with attachments := acc.attachments ++ [a] }
  if p.attachment then attach (mkAttachment rt id (rt.mail.filename p.header) ct "" "" data)
  else if Strings.hasPrefix ct "text/plain" then { acc with plain := some (acc.plain.getD data) }
  else if Strings.hasPrefix ct "text/html" then { acc with html := some (acc.html.getD data) }
  else
    let cid := bareContentID rt (p.header.get "Content-Id")
    if cid ≠ "" then attach (mkAttachment rt id "" ct cid "inline" data)
      else attach (mkAttachment rt id "" ct "" "" data)

def readParts (ids : ℕ → Fixed 16) : PartsRead → List (Option InPart) → Except MimeError PartsRead
  | acc, [] => .ok acc
  | _, none :: _ => .error .part
  | acc, some p :: parts =>
    match p.body with
    | none => .error .partBody
    | some data => readParts ids (readPart rt (ids acc.attachments.length) acc p data) parts

/-- The threading of a mail: its own ID, its thread's, the one that it answers, and whether it has
one of its own. -/
def threading (h : MailHeader) : Fixed 16 × Fixed 16 × Fixed 16 × Bool :=
  let (messageID, hasIDs) :=
    match rt.mail.messageID h with
    | some mid => if mid ≠ "" then (deriveID rt mid, true) else (.zero 16, false)
    | none => (.zero 16, false)
  let replyToID :=
    match rt.mail.msgIDList h "In-Reply-To" with
    | some (irt :: _) => deriveID rt irt
    | _ => .zero 16
  let threadID :=
    match rt.mail.msgIDList h "References" with
    | some (root :: _) => deriveID rt root
    | _ => if replyToID ≠ .zero 16 then replyToID else if hasIDs then messageID else .zero 16
  (messageID, threadID, replyToID, hasIDs)

def parseInboundMIME (ids : ℕ → Fixed 16) (raw : Bytes) : Except MimeError ParsedMail :=
  match rt.mail.createReader raw with
  | none => .error .parse
  | some mr =>
    let (messageID, threadID, replyToID, hasIDs) := threading rt mr.header
    match readParts rt ids ⟨none, none, []⟩ mr.parts with
    | .error e => .error e
    | .ok parts =>
      let (body, alternatives) : MessageBody × List MessageBody :=
        match parts.plain, parts.html with
        | some plain, some html => (⟨"text/plain", plain⟩, [⟨"text/html", html⟩])
        | some plain, none => (⟨"text/plain", plain⟩, [])
        | none, some html => (⟨"text/plain", rt.htmlToText html⟩, [⟨"text/html", html⟩])
        | none, none => (⟨"text/plain", []⟩, [])
      .ok ⟨(rt.mail.subject mr.header).getD "", body, alternatives, parts.attachments, messageID,
        threadID, replyToID, hasIDs⟩

/-- What `InboundHandler.handle` makes of a mail that it has composed `msg` for; the attachments are
put in afterwards. -/
def takeIn (msg : PlaintextMessage) (rawMsg : Bytes) : Except MimeError ParsedMail →
    PlaintextMessage
  | .error _ => { msg with body := ⟨"text/plain", rawMsg⟩ }
  | .ok parsed =>
    let msg := if parsed.subject ≠ "" then { msg with subject := parsed.subject } else msg
    let msg :=
      if parsed.body.content.length = 0 ∧ parsed.alternatives.length = 0 ∧
        parsed.attachments.length = 0 then
        { msg with body := ⟨"text/plain", rawMsg⟩ }
      else { msg with body := parsed.body, alternatives := parsed.alternatives }
    if parsed.hasIDs then
      { msg with messageID := parsed.messageID, threadID := parsed.threadID, replyToID :=
        parsed.replyToID }
    else msg

def bridged (messageID threadID : Fixed 16) (now : Time) (senderAddr senderDisplay : String)
    (bridgePub rawMsg : Bytes) (ids : ℕ → Fixed 16) : PlaintextMessage :=
  let msg := PlaintextMessage.newPlaintextMessage messageID threadID now senderAddr ""
    ("Bridged message from " ++ senderAddr) "" bridgePub
  takeIn { msg with senderDisplay := senderDisplay } rawMsg (parseInboundMIME rt ids rawMsg)

end Parse

end Bridge
end Dmcn
