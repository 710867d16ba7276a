import OpenDmcn.Lib.MailHeader
import OpenDmcn.Web.MimeText

/-! A message as the export writes it (`export/mime.ts`): the fields, the body, and the email that
was received with fields of the export above it. Each field is written so that a program that reads
headers finds it. -/

namespace Dmcn.Web.Export

open Go (Bytes Fixed)
open Go.Utf8 (encode)
open MailText (crlf)
open Mime (whiteSpace trim clean printable escaped encodeWords filenameParam base64Lines
  quotedPrintable)
open MailHeader (lf cr colon wsp ftext lines content blank continues headerLines groups fields name
  value)

section Source

structure LowerCase where
  toLowerCase : List Char → List Char
  ascii : ∀ s, (∀ c ∈ s, c.toNat < 128) → toLowerCase s = s.map Char.toLower

variable (L : LowerCase)

def latin1 (b : Bytes) : List Char := (b.take 4096).map fun x => Char.ofNat x.toNat

def stateField (lower : List Char) : Bool :=
  decide (lower ∈ ["status".toList, "x-status".toList, "x-keywords".toList])

def ownField (s : List Char) : Bool :=
  let lower := s.map Char.toLower
  ("x-dmcn-".toList.isPrefixOf lower && (s.drop 7).all fun c =>
    decide (('!' ≤ c ∧ c ≤ '9') ∨ (';' ≤ c ∧ c ≤ '~'))) || stateField lower

structure FieldSpan where
  name : List Char
  start : ℕ
  stop : ℕ

structure HeaderBlock where
  fields : List FieldSpan
  stop : ℕ

def nameOf (line : Bytes) : List Char :=
  let stop := line.idxOf colon
  if 0 < stop ∧ stop < (content line).length then trim (latin1 (line.take stop)) else []

def headerBlockFrom (spans : List FieldSpan) (pos : ℕ) : List Bytes → HeaderBlock
  | [] => ⟨spans, pos⟩
  | line :: rest =>
    let next := pos + line.length
    if content line = [] then ⟨spans, pos⟩
    else match continues line, spans.getLast? with
      | true, some above => headerBlockFrom (spans.dropLast ++ [{ above with stop := next }])
        next rest
      | _, _ => headerBlockFrom (spans ++ [⟨nameOf line, pos, next⟩]) next rest

def headerBlock (msg : Bytes) : HeaderBlock := headerBlockFrom [] 0 (lines msg)

def subarray (b : Bytes) (start stop : ℕ) : Bytes := (b.take stop).drop start

def withoutFrom (original : Bytes) (start : ℕ) : List FieldSpan → List Bytes
  | [] => if original.length > start then [original.drop start] else []
  | f :: spans =>
    if ownField f.name = false then withoutFrom original start spans
    else (if f.start > start then [subarray original start f.start] else []) ++
      withoutFrom original f.stop spans

def withoutOwnHeaders (original : Bytes) : List Bytes :=
  let spans := (headerBlock original).fields
  if spans.any (fun f => ownField f.name) = false then [original] else withoutFrom original 0 spans

def foldsReplaced (behind : Bool) : List Char → List Char
  | [] => []
  | c :: s =>
    if behind = true ∧ MailText.blank c = true then foldsReplaced true s
    else if c = '\n' ∧ s.head?.any MailText.blank = true then ' ' :: foldsReplaced true s
    else if c = '\r' ∧ s.head? = some '\n' ∧ s.tail.head?.any MailText.blank = true then
      foldsReplaced false s
    else c :: foldsReplaced false s

def idChar (c : Char) : Bool := c != '<' && c != '>' && !whiteSpace c

def findId : List Char → Option (List Char)
  | [] => none
  | c :: s =>
    if c = '<' ∧ s.takeWhile idChar ≠ [] ∧ (s.dropWhile idChar).head? = some '>' then
      some ('<' :: (s.takeWhile idChar ++ ['>']))
    else findId s

def originalMessageId (original : Bytes) : Option (List Char) :=
  match (headerBlock original).fields.find? fun f =>
    L.toLowerCase f.name == "message-id".toList with
  | none => none
  | some f =>
    let text := latin1 (subarray original f.start f.stop)
    findId (foldsReplaced false (if ':' ∈ text then (text.dropWhile (· ≠ ':')).drop 1 else text))

def isHex (c : Char) : Bool :=
  decide (('0' ≤ c ∧ c ≤ '9') ∨ ('a' ≤ c ∧ c ≤ 'f') ∨ ('A' ≤ c ∧ c ≤ 'F'))

def isId (hex : List Char) : Bool := hex != [] && hex.all isHex && hex.any (· != '0')

def msgId (hex domain : List Char) : List Char :=
  '<' :: (L.toLowerCase hex ++ '@' :: (domain ++ ['>']))

def domainChar (c : Char) : Bool :=
  decide (('a' ≤ c ∧ c ≤ 'z') ∨ ('0' ≤ c ∧ c ≤ '9') ∨ c = '.' ∨ c = '-')

def domainOf (address : List Char) : List Char :=
  let d := if '@' ∈ address then (L.toLowerCase (clean (address.rtakeWhile (· ≠ '@')))).filter
    domainChar else []
  if d = [] then "dmcn.invalid".toList else d

def exportMessageId (hex senderAddress : List Char) : List Char :=
  msgId L hex (domainOf L senderAddress)

structure BridgeVerdict where
  verified : Bool
  spf : Option (List Char)
  dkim : Option (List Char)
  dmarc : Option (List Char)
  reason : Option (List Char)

structure Preview where
  messageId : List Char
  threadId : List Char
  senderAddress : List Char
  senderPublicKey : List Char
  recipientAddress : List Char
  to_ : List (List Char)
  cc : List (List Char)
  bcc : List (List Char)
  subject : List Char
  senderDisplay : List Char
  sentAt : ℤ
  deliveredTo : Option (List Char)
  senderPublicKey_hex : senderPublicKey.all isHex = true

structure DecryptedAttachment where
  filename : List Char
  contentType : List Char
  content : Bytes
  contentId : List Char
  disposition : List Char

/-- What a message is written from. A message is named by the id of the email it came as, or by its
own. -/
structure ExportItem where
  row : Preview
  replyToId : List Char
  text : List Char
  html : Option (List Char)
  attachments : List DecryptedAttachment
  original : Option Bytes
  bridge : Option BridgeVerdict
  sent : Bool
  read : Bool
  starred : Bool
  labels : List (List Char)
  place : Option (List Char)
  ids : List Char → Option (List Char)
  ids_made : ∀ key id, ids key = some id → (∃ original, originalMessageId L original = some id) ∨
    ∃ hex senderAddress, hex.all isHex = true ∧ id = exportMessageId L hex senderAddress

structure Header where
  name : List Char
  value : List Char

def header (name : String) (value : List Char) : Header := ⟨name.toList, value⟩

def Header.text (h : Header) : List Char := h.name ++ (": ".toList ++ h.value)

def joined (hs : List Header) : List Char := crlf.intercalate (hs.map Header.text) ++ crlf

def addressHeader (name : String) (addrs : List (List Char)) : Header :=
  let list := (addrs.map clean).filter (· ≠ [])
  header name (if list.length > 2 then ((',' :: crlf) ++ [' ']).intercalate list
    else ", ".toList.intercalate list)

def mailbox (address display : List Char) : List Char :=
  let addr := clean address
  let name := clean display
  if name = [] then addr
  else if name.all printable = false then encodeWords name ++ (" <".toList ++ (addr ++ ['>']))
  else '"' :: (escaped name ++ ("\" <".toList ++ (addr ++ ['>'])))

def tokenChar (c : Char) : Bool :=
  decide (('a' ≤ c ∧ c ≤ 'z') ∨ ('0' ≤ c ∧ c ≤ '9') ∨ c = '_' ∨ c = '-')

def token (s : Option (List Char)) : List Char := (L.toLowerCase (s.getD [])).filter tokenChar

def DAYS : List String := ["Sun", "Mon", "Tue", "Wed", "Thu", "Fri", "Sat"]
def MONTHS : List String :=
  ["Jan", "Feb", "Mar", "Apr", "May", "Jun", "Jul", "Aug", "Sep", "Oct", "Nov", "Dec"]

def two (n : Option ℤ) : List Char := Js.padStart (Js.decimal n) 2 '0'

def rfc5322Date (sec : ℤ) : List Char :=
  let d := Js.Date.ofSeconds sec
  Js.entry DAYS d.getUTCDay ++
    (", ".toList ++ (two d.getUTCDate ++ (' ' :: (Js.entry MONTHS d.getUTCMonth ++ (' ' ::
    (Js.decimal d.getUTCFullYear ++
      (' ' :: (two d.getUTCHours ++ (':' :: (two d.getUTCMinutes ++ (':' ::
      (two d.getUTCSeconds ++ " +0000".toList))))))))))))

variable {L}

def envelopeHeaders (item : ExportItem L) : List Header :=
  let r := item.row
  let domain := domainOf L r.senderAddress
  let to_ := if r.to_ = [] then [r.recipientAddress] else r.to_
  let idOf (hex : List Char) : List Char := (item.ids (L.toLowerCase hex)).getD (msgId L hex domain)
  [header "From" (mailbox r.senderAddress r.senderDisplay), addressHeader "To" to_] ++
    (if r.cc = [] then [] else [addressHeader "Cc" r.cc]) ++
    (if item.sent ∧ r.bcc ≠ [] then [addressHeader "Bcc" r.bcc] else []) ++
    [header "Subject" (encodeWords (clean r.subject)), header "Date" (rfc5322Date r.sentAt)] ++
    (if isId r.messageId then [header "Message-ID" (msgId L r.messageId domain)] else []) ++
    if isId item.replyToId then
      let parent := idOf item.replyToId
      let refs := if isId r.threadId ∧ r.threadId ≠ item.replyToId then idOf r.threadId ++ ' ' ::
        parent else parent
      [header "In-Reply-To" parent, header "References" (clean refs)]
    else []

def dmcnHeaders (item : ExportItem L) : List Header :=
  (if item.row.senderPublicKey ≠ [] ∧ item.original = none then
    [header "X-DMCN-Sender-Key" item.row.senderPublicKey] else []) ++
  match item.row.deliveredTo with
  | some address => if address = [] then [] else [header "X-DMCN-Delivered-To" (clean address)]
  | none => []

variable (L) in
def bridgeHeaders : Option BridgeVerdict → List Header
  | none => [header "X-DMCN-Bridge-Verified" "no (no record of the checks)".toList]
  | some v =>
    let check (k : String) (s : Option (List Char)) : List Char :=
      k.toList ++ '=' :: if token L s = [] then "none".toList else token L s
    let reason := if v.reason.getD [] = [] then "not verified".toList else v.reason.getD []
    let checks :=
      "; ".toList.intercalate [check "spf" v.spf, check "dkim" v.dkim, check "dmarc" v.dmarc]
    [header "X-DMCN-Bridge-Checks" checks,
      header "X-DMCN-Bridge-Verified" (if v.verified then "yes".toList else "no (".toList ++
        (clean reason ++ [')']))]

def stateHeaders (item : ExportItem L) : List Header :=
  let labels := (item.labels.map fun l =>
    trim ((clean l).map fun c => if c = ',' then ' ' else c)).filter (· ≠ [])
  [header "Status" (if item.read ∨ item.sent then "RO".toList else "O".toList)] ++
    (if item.starred then [header "X-Status" "F".toList] else []) ++
    (if labels = [] then []
      else [header "X-Keywords" (encodeWords (", ".toList.intercalate labels))]) ++
    match item.place with
    | some place => if place = [] then [] else [header "X-DMCN-Folder" (encodeWords (clean place))]
    | none => []

structure Chunks where
  parts : List Bytes
  pending : List Char

namespace Chunks

def text (out : Chunks) (s : List Char) : Chunks := { out with pending := out.pending ++ s }

def flush (out : Chunks) : Chunks :=
  if out.pending = [] then out else ⟨out.parts ++ [encode out.pending], []⟩

def bytes (out : Chunks) (b : Bytes) : Chunks := { out.flush with parts := out.flush.parts ++ [b] }

def done (out : Chunks) : List Bytes := out.flush.parts

end Chunks

def textPartHeaders (type : String) : List Header :=
  [header "Content-Type" (type.toList ++ "; charset=utf-8".toList),
    header "Content-Transfer-Encoding" "quoted-printable".toList]

def multipart (type : String) (b : List Char) : Header :=
  header "Content-Type" (type.toList ++ ("; boundary=\"".toList ++ (b ++ ['"'])))

def delimiter (b close : List Char) : List Char := "--".toList ++ (b ++ (close ++ crlf))

def alternative (item : ExportItem L) (b : List Char) : List Char :=
  joined [multipart "multipart/alternative" b] ++ (crlf ++
    (delimiter b [] ++
      (joined (textPartHeaders "text/plain") ++ (crlf ++ (quotedPrintable item.text ++ (crlf ++
    (delimiter b [] ++
      (joined (textPartHeaders "text/html") ++ (crlf ++ (quotedPrintable (item.html.getD []) ++
    (crlf ++ delimiter b "--".toList)))))))))))

def typeChar (c : Char) : Bool :=
  c.isAlphanum || decide (c ∈ "!#$&^_.+-".toList)

def isType (s : List Char) : Bool :=
  match s.splitOn '/' with
  | [type, subtype] => type != [] && subtype != [] && type.all typeChar && subtype.all typeChar
  | _ => false

variable (L) in
def attachmentHeaders (a : DecryptedAttachment) : List Header :=
  let type := if isType a.contentType then L.toLowerCase a.contentType
    else "application/octet-stream".toList
  let name := if clean a.filename = [] then "attachment".toList else clean a.filename
  let inline := a.disposition = "inline".toList ∧ a.contentId ≠ []
  [header "Content-Type" (type ++ ("; ".toList ++ filenameParam "name".toList name)),
    header "Content-Disposition" ((if inline then "inline".toList else "attachment".toList) ++
      ("; ".toList ++ filenameParam "filename".toList name))] ++
  (if a.contentId = [] then []
    else [header "Content-ID"
      ('<' :: ((clean a.contentId).filter (fun c => c ≠ '<' ∧ c ≠ '>') ++ ['>']))]) ++
  [header "Content-Transfer-Encoding" "base64".toList]

def body (item : ExportItem L) (boundary : ℕ → List Char) (out : Chunks) : Chunks :=
  if item.attachments = [] then
    match item.html with
    | none => out.text
      (joined (textPartHeaders "text/plain") ++ (crlf ++ quotedPrintable item.text))
    | some _ => out.text (alternative item (boundary 0))
  else
    let b := boundary 0
    let out := out.text (joined [multipart "multipart/mixed" b] ++ (crlf ++ delimiter b []))
    let out := match item.html with
      | none => out.text
        (joined (textPartHeaders "text/plain") ++ (crlf ++ quotedPrintable item.text))
      | some _ => out.text (alternative item (boundary 1))
    let out := item.attachments.foldl (fun out a =>
      (out.text (crlf ++ (delimiter b [] ++ (joined (attachmentHeaders L a) ++ crlf)))).bytes
        (base64Lines a.content)) out
    out.text (crlf ++ delimiter b "--".toList)

def randomBoundary (b : Fixed 12) : List Char :=
  "dmcn-".toList ++ b.val.flatMap fun x => Js.padStart (Nat.toDigits 16 x.toNat) 2 '0'

def renderMessage (item : ExportItem L) (boundary : ℕ → List Char) : List Bytes :=
  match item.original with
  | some original =>
    encode (joined (bridgeHeaders L item.bridge ++ dmcnHeaders item ++ stateHeaders item)) ::
      withoutOwnHeaders original
  | none =>
    (body item boundary (Chunks.text ⟨[], []⟩
      (joined (envelopeHeaders item ++ dmcnHeaders item ++ stateHeaders item ++
      [header "MIME-Version" "1.0".toList])))).done

end Source

section Plain

open MailHeader (plain Folded Written plain_append)

theorem plain_of_all {p : Char → Bool} {s : List Char} (h : s.all p = true)
    (hp : p '\r' = false ∧ p '\n' = false) :
    plain s = true := by
  refine List.all_eq_true.mpr fun c hc => ?_
  have hpc := List.all_eq_true.mp h c hc
  simp only [Bool.and_eq_true, bne_iff_ne]
  constructor
  · rintro rfl
    exact Bool.false_ne_true (hp.1.symm.trans hpc)
  · rintro rfl
    exact Bool.false_ne_true (hp.2.symm.trans hpc)

theorem plain_sublist {s t : List Char} (h : s.Sublist t) (ht : plain t = true) : plain s = true :=
  List.all_eq_true.mpr fun c hc => List.all_eq_true.mp ht c (h.subset hc)

theorem plain_cons (c : Char) (s : List Char) :
    plain (c :: s) = ((c != '\r' && c != '\n') && plain s) := rfl

theorem plain_intercalate {sep : List Char} (hsep : plain sep = true) {words : List (List Char)}
    (h : ∀ word ∈ words, plain word = true) : plain (sep.intercalate words) = true := by
  induction words with
  | nil => rfl
  | cons word words ih =>
    obtain ⟨hword, hwords⟩ := List.forall_mem_cons.mp h
    cases words with
    | nil => rwa [List.intercalate_singleton]
    | cons next words =>
      rw [List.intercalate_cons_cons, plain_append, plain_append, hword, hsep, ih hwords]
      rfl

theorem control_spaced (inRun : Bool) (s : List Char) : ∀ c ∈ Mime.spaced inRun s,
    Mime.control c = false := by
  induction s generalizing inRun with
  | nil => exact fun c hc => absurd hc List.not_mem_nil
  | cons d s ih =>
    intro c hc
    unfold Mime.spaced at hc
    split at hc
    · rcases List.mem_append.mp hc with hc | hc
      · split at hc
        · exact absurd hc List.not_mem_nil
        · rw [List.mem_singleton.mp hc]
          rfl
      · exact ih true c hc
    · next hplain =>
      rcases List.mem_cons.mp hc with rfl | hc
      · exact Bool.eq_false_iff.mpr hplain
      · exact ih false c hc

theorem trim_sublist (s : List Char) : (trim s).Sublist s :=
  (List.rdropWhile_prefix _ _).sublist.trans (List.dropWhile_sublist _)

theorem plain_clean (s : List Char) : plain (clean s) = true := by
  have hall : (Mime.spaced false s).all (fun c => !Mime.control c) = true :=
    List.all_eq_true.mpr fun c hc => by rw [control_spaced false s c hc]; rfl
  exact plain_sublist (trim_sublist _) (plain_of_all hall ⟨rfl, rfl⟩)

theorem plain_escaped {s : List Char} (h : plain s = true) : plain (escaped s) = true := by
  refine List.all_eq_true.mpr fun c hc => ?_
  obtain ⟨d, hd, hmem⟩ := List.mem_flatMap.mp hc
  have hd := List.all_eq_true.mp h d hd
  split at hmem
  · rcases List.mem_cons.mp hmem with rfl | hmem
    · rfl
    · rwa [List.mem_singleton.mp hmem]
  · rwa [List.mem_singleton.mp hmem]

theorem folded_intercalate {sep : List Char} (hsep : plain sep = true) {words : List (List Char)}
    (h : ∀ word ∈ words, plain word = true) :
    Folded ((sep ++ (crlf ++ [' '])).intercalate words) := by
  induction words with
  | nil => exact .plain rfl
  | cons word words ih =>
    obtain ⟨hword, hwords⟩ := List.forall_mem_cons.mp h
    cases words with
    | nil =>
      rw [List.intercalate_singleton]
      exact .plain hword
    | cons next words =>
      have hfirst : plain (word ++ sep) = true := by rw [plain_append, hword, hsep]; rfl
      have htext := Folded.fold hfirst (ih hwords)
      rw [List.intercalate_cons_cons]
      simpa only [List.append_assoc, List.cons_append, List.nil_append] using htext

theorem folded_append {s t : List Char} (hs : Folded s) (ht : plain t = true) :
    Folded (s ++ t) := by
  induction hs with
  | plain h => exact .plain (by rw [plain_append, h, ht]; rfl)
  | @fold s u h _ ih =>
    rw [List.append_assoc, List.append_assoc, List.cons_append]
    exact .fold h ih

theorem plain_encodeWord (w : Bytes) : plain (Mime.encodeWord w) = true := by
  unfold Mime.encodeWord
  have hdigits : plain Go.Base64.alphabet = true := by decide
  have hbody : plain (Go.Base64.encode w) = true := by
    refine List.all_eq_true.mpr fun c hc => ?_
    rcases Go.Base64.mem_encode hc with hc | rfl
    · exact List.all_eq_true.mp hdigits c hc
    · rfl
  rw [plain_append, plain_append, hbody]
  rfl

theorem folded_encodeWords {s : List Char} (h : plain s = true) : Folded (encodeWords s) := by
  unfold encodeWords
  split
  · exact .plain h
  · have hnone : plain [] = true := rfl
    refine folded_intercalate hnone fun word hword => ?_
    obtain ⟨w, -, rfl⟩ := List.mem_map.mp hword
    exact plain_encodeWord w

end Plain

section Values

open MailHeader (plain Folded Written plain_append)

variable {L : LowerCase}

theorem plain_decimal (n : Option ℤ) : plain (Js.decimal n) = true := by
  refine List.all_eq_true.mpr fun c hc => ?_
  rcases Js.mem_decimal hc with hdigit | hword
  · have hall : plain [c] = true :=
      plain_of_all (p := Char.isDigit) (by rw [List.all_cons, hdigit]; rfl) ⟨rfl, rfl⟩
    exact List.all_eq_true.mp hall c List.mem_cons_self
  · have hall : plain ['-', 'N', 'a'] = true := by decide
    exact List.all_eq_true.mp hall c hword

theorem plain_padStart {s : List Char} (h : plain s = true) (length : ℕ) :
    plain (Js.padStart s length '0') = true := by
  refine List.all_eq_true.mpr fun c hc => ?_
  rcases Js.mem_padStart hc with rfl | hc
  · rfl
  · exact List.all_eq_true.mp h c hc

theorem plain_entry {words : List String} (h : ∀ word ∈ words, plain word.toList = true)
    (i : Option ℤ) :
    plain (Js.entry words i) = true := by
  refine List.all_eq_true.mpr fun c hc => ?_
  rcases Js.mem_entry hc with ⟨word, hword, hc⟩ | hc
  · exact List.all_eq_true.mp (h word hword) c hc
  · have hundefined : plain "undefined".toList = true := by decide
    exact List.all_eq_true.mp hundefined c hc

theorem plain_rfc5322Date (sec : ℤ) : plain (rfc5322Date sec) = true := by
  have htwo : ∀ n, plain (two n) = true := fun n => plain_padStart (plain_decimal n) 2
  have hday : ∀ i, plain (Js.entry DAYS i) = true := plain_entry (by decide)
  have hmonth : ∀ i, plain (Js.entry MONTHS i) = true := plain_entry (by decide)
  have hlast : plain " +0000".toList = true := by decide
  have hcomma : plain ", ".toList = true := by decide
  simp only [rfc5322Date, plain_append, plain_cons, htwo, hday, hmonth, plain_decimal, hlast,
    hcomma]
  rfl

theorem isHex_bound {c : Char} (h : isHex c = true) : c.toNat < 103 := by
  have hle : ∀ d : Char, c ≤ d → c.toNat ≤ d.toNat := fun d h => h
  simp only [isHex, decide_eq_true_eq] at h
  rcases h with ⟨-, hc⟩ | ⟨-, hc⟩ | ⟨-, hc⟩
  · exact Nat.lt_of_le_of_lt (hle '9' hc) (by decide)
  · exact Nat.lt_of_le_of_lt (hle 'f' hc) (by decide)
  · exact Nat.lt_of_le_of_lt (hle 'F' hc) (by decide)

theorem plain_toLowerCase {hex : List Char} (h : hex.all isHex = true) :
    plain (L.toLowerCase hex) = true := by
  have hlower : ∀ n < 103, isHex (Char.ofNat n) = true → plain [(Char.ofNat n).toLower] = true := by
    decide
  have hbound : ∀ c ∈ hex, c.toNat < 103 := fun c hc => isHex_bound (List.all_eq_true.mp h c hc)
  rw [L.ascii hex fun c hc => (hbound c hc).trans (by decide)]
  refine List.all_eq_true.mpr fun c hc => ?_
  obtain ⟨d, hd, rfl⟩ := List.mem_map.mp hc
  have hhex := List.all_eq_true.mp h d hd
  have hplain := hlower d.toNat (hbound d hd)
  rw [Char.ofNat_toNat] at hplain
  exact List.all_eq_true.mp (hplain hhex) d.toLower List.mem_cons_self

theorem plain_domainOf (address : List Char) : plain (domainOf L address) = true := by
  have hinvalid : plain "dmcn.invalid".toList = true := by decide
  have hkept : ∀ s : List Char, plain (s.filter domainChar) = true := fun s =>
    plain_of_all (p := domainChar) (List.all_eq_true.mpr fun _ hc => (List.mem_filter.mp hc).2)
      ⟨rfl, rfl⟩
  unfold domainOf
  dsimp only
  split
  · split
    · exact hinvalid
    · exact hkept _
  · exact hinvalid

theorem plain_msgId {hex domain : List Char} (hhex : hex.all isHex = true)
    (hdomain : plain domain = true) :
    plain (msgId L hex domain) = true := by
  simp only [msgId, plain_cons, plain_append, plain_toLowerCase hhex, hdomain]
  rfl

theorem plain_findId {s id : List Char} (h : findId s = some id) : plain id = true := by
  induction s with
  | nil => cases h
  | cons c s ih =>
    unfold findId at h
    split at h
    · have hrun : plain (s.takeWhile idChar) = true :=
        plain_of_all (List.all_eq_true.mpr fun c hc => List.mem_takeWhile_imp hc) ⟨rfl, rfl⟩
      rw [← Option.some.inj h, plain_cons, plain_append, hrun]
      rfl
    · exact ih h

theorem plain_ids (item : ExportItem L) {key id : List Char} (h : item.ids key = some id) :
    plain id = true := by
  rcases item.ids_made key id h with ⟨original, hid⟩ | ⟨hex, senderAddress, hhex, rfl⟩
  · unfold originalMessageId at hid
    split at hid
    · cases hid
    · exact plain_findId hid
  · exact plain_msgId hhex (plain_domainOf senderAddress)

theorem hex_of_isId {hex : List Char} (h : isId hex = true) : hex.all isHex = true := by
  simp only [isId, Bool.and_eq_true] at h
  exact h.1.2

theorem plain_hex (x : UInt8) : plain (Nat.toDigits 16 x.toNat) = true := by
  have hdigit : ∀ n < 16, plain [n.digitChar] = true := by decide
  have hbyte := x.toNat_lt
  by_cases hone : x.toNat < 16
  · rw [Nat.toDigits_of_lt_base hone]
    exact hdigit _ hone
  · have hhigh : x.toNat / 16 < 16 := by omega
    rw [Nat.toDigits_of_base_le (by decide) (Nat.le_of_not_lt hone), Nat.toDigits_of_lt_base hhigh,
      plain_append, hdigit _ hhigh, hdigit _ (Nat.mod_lt _ (by decide))]
    rfl

theorem plain_randomBoundary (b : Fixed 12) : plain (randomBoundary b) = true := by
  have hmark : plain "dmcn-".toList = true := by decide
  unfold randomBoundary
  rw [plain_append, hmark, Bool.true_and]
  refine List.all_eq_true.mpr fun c hc => ?_
  obtain ⟨x, -, hmem⟩ := List.mem_flatMap.mp hc
  exact List.all_eq_true.mp (plain_padStart (plain_hex x) 2) c hmem

end Values

section Emitted

open MailHeader (plain Folded Written plain_append)

variable {L : LowerCase}

def goodName (n : List Char) : Bool := encode n != [] && ((encode n).all ftext && plain n)

def AllWritten (hs : List Header) : Prop := ∀ h ∈ hs, Written h.name h.value

theorem AllWritten.nil : AllWritten [] := fun _ h => absurd h List.not_mem_nil

theorem AllWritten.cons {n : String} {v : List Char} {hs : List Header}
    (hn : goodName n.toList = true) (hv : Folded v) (h : AllWritten hs) :
    AllWritten (header n v :: hs) := by
  simp only [goodName, Bool.and_eq_true, bne_iff_ne] at hn
  exact List.forall_mem_cons.mpr ⟨⟨hn.1, hn.2.1, hn.2.2, hv⟩, h⟩

theorem AllWritten.append {hs hs' : List Header} (h : AllWritten hs) (h' : AllWritten hs') :
    AllWritten (hs ++ hs') :=
  List.forall_mem_append.mpr ⟨h, h'⟩

theorem AllWritten.ite {c : Prop} [Decidable c] {hs hs' : List Header} (h : c → AllWritten hs)
    (h' : ¬ c → AllWritten hs') : AllWritten (if c then hs else hs') := by
  split
  · next hc => exact h hc
  · next hc => exact h' hc

theorem folded_addresses {addrs : List (List Char)} (name : String) :
    Folded (addressHeader name addrs).value := by
  have hlist : ∀ a ∈ (addrs.map clean).filter (· ≠ []), plain a = true := by
    intro a ha
    obtain ⟨b, -, rfl⟩ := List.mem_map.mp (List.mem_filter.mp ha).1
    exact plain_clean b
  unfold addressHeader
  dsimp only
  split
  · have hcomma : plain [','] = true := by decide
    exact folded_intercalate hcomma hlist
  · exact .plain (plain_intercalate (by decide) hlist)

theorem folded_mailbox (address display : List Char) : Folded (mailbox address display) := by
  have haddr := plain_clean address
  have hname := plain_clean display
  unfold mailbox
  dsimp only
  split
  · exact .plain haddr
  · split
    · apply folded_append (folded_encodeWords hname)
      simp only [plain_append, haddr]
      decide
    · apply Folded.plain
      simp only [plain_cons, plain_append, plain_escaped hname, haddr]
      decide

theorem written_envelope (item : ExportItem L) : AllWritten (envelopeHeaders item) := by
  have hid : ∀ hex, hex.all isHex = true →
      plain ((item.ids (L.toLowerCase hex)).getD
        (msgId L hex (domainOf L item.row.senderAddress))) = true := by
    intro hex hhex
    cases hids : item.ids (L.toLowerCase hex) with
    | none => exact plain_msgId hhex (plain_domainOf _)
    | some id => exact plain_ids item hids
  unfold envelopeHeaders
  refine ((((AllWritten.append ?_ ?_).append ?_).append ?_).append ?_).append ?_
  · exact .cons (by decide) (folded_mailbox _ _) (.cons (by decide) (folded_addresses "To") .nil)
  · exact .ite (fun _ => .nil) fun _ => .cons (by decide) (folded_addresses "Cc") .nil
  · exact .ite (fun _ => .cons (by decide) (folded_addresses "Bcc") .nil) fun _ => .nil
  · exact .cons (by decide) (folded_encodeWords (plain_clean _))
      (.cons (by decide) (.plain (plain_rfc5322Date _)) .nil)
  · exact .ite (fun h => .cons (by decide) (.plain (plain_msgId (hex_of_isId h) (plain_domainOf _)))
      .nil) fun _ => .nil
  · refine .ite (fun h => ?_) fun _ => .nil
    exact .cons (by decide) (.plain (hid _ (hex_of_isId h)))
      (.cons (by decide) (.plain (plain_clean _)) .nil)

theorem written_dmcn (item : ExportItem L) : AllWritten (dmcnHeaders item) := by
  unfold dmcnHeaders
  refine AllWritten.append (.ite (fun _ => .cons (by decide) (.plain ?_) .nil) fun _ => .nil) ?_
  · exact plain_of_all item.row.senderPublicKey_hex ⟨rfl, rfl⟩
  · split
    · exact .ite (fun _ => .nil) fun _ => .cons (by decide) (.plain (plain_clean _)) .nil
    · exact .nil

theorem written_bridge (v : Option BridgeVerdict) : AllWritten (bridgeHeaders L v) := by
  unfold bridgeHeaders
  split
  · exact .cons (by decide) (.plain (by decide)) .nil
  · next v =>
    have htoken : ∀ s, plain (if token L s = [] then "none".toList else token L s) = true := by
      intro s
      split
      · decide
      · exact plain_of_all (p := tokenChar) (List.all_eq_true.mpr fun _ hc =>
          (List.mem_filter.mp hc).2) ⟨rfl, rfl⟩
    have hcheck : ∀ k : String, plain k.toList = true → ∀ s,
        plain (k.toList ++ '=' :: if token L s = [] then "none".toList else token L s) = true := by
      intro k hk s
      rw [plain_append, plain_cons, hk, htoken]
      rfl
    refine .cons (by decide) (.plain (plain_intercalate (by decide) ?_))
      (.cons (by decide) (.plain ?_) .nil)
    · intro word hword
      simp only [List.mem_cons, List.not_mem_nil, or_false] at hword
      rcases hword with rfl | rfl | rfl
      · exact hcheck "spf" (by decide) _
      · exact hcheck "dkim" (by decide) _
      · exact hcheck "dmarc" (by decide) _
    · split
      · decide
      · simp only [plain_append, plain_clean]
        decide

theorem written_state (item : ExportItem L) : AllWritten (stateHeaders item) := by
  have hlabels : ∀ l ∈ (item.labels.map fun l =>
      trim ((clean l).map fun c => if c = ',' then ' ' else c)).filter (· ≠ []),
        plain l = true := by
    intro l hl
    obtain ⟨l, -, rfl⟩ := List.mem_map.mp (List.mem_filter.mp hl).1
    refine plain_sublist (trim_sublist _) (List.all_eq_true.mpr fun c hc => ?_)
    obtain ⟨d, hd, rfl⟩ := List.mem_map.mp hc
    split
    · rfl
    · exact List.all_eq_true.mp (plain_clean l) d hd
  unfold stateHeaders
  refine ((AllWritten.append (.cons (by decide) (.plain ?_) .nil) ?_).append ?_).append ?_
  · split
    · decide
    · decide
  · exact .ite (fun _ => .cons (by decide) (.plain (by decide)) .nil) fun _ => .nil
  · exact .ite (fun _ => .nil) fun _ =>
      .cons (by decide) (folded_encodeWords (plain_intercalate (by decide) hlabels)) .nil
  · split
    · exact .ite (fun _ => .nil) fun _ => .cons (by decide) (folded_encodeWords (plain_clean _))
        .nil
    · exact .nil

def bodyHeaders (item : ExportItem L) (boundary : ℕ → List Char) : List Header :=
  if item.attachments = [] then
    match item.html with
    | none => textPartHeaders "text/plain"
    | some _ => [multipart "multipart/alternative" (boundary 0)]
  else [multipart "multipart/mixed" (boundary 0)]

/-- All fields that the message is written with, of one that was not received as an email. -/
def emitted (item : ExportItem L) (boundary : ℕ → List Char) : List Header :=
  envelopeHeaders item ++ dmcnHeaders item ++ stateHeaders item ++
    [header "MIME-Version" "1.0".toList] ++
    bodyHeaders item boundary

def above (item : ExportItem L) : List Header :=
  bridgeHeaders L item.bridge ++ dmcnHeaders item ++ stateHeaders item

theorem written_multipart {type : String} (ht : plain type.toList = true) {b : List Char}
    (hb : plain b = true) :
    AllWritten [multipart type b] := by
  refine .cons (by decide) (.plain ?_) .nil
  simp only [plain_append, ht, hb]
  decide

theorem written_emitted (item : ExportItem L) {boundary : ℕ → List Char}
    (hb : ∀ n, plain (boundary n) = true) :
    AllWritten (emitted item boundary) := by
  refine ((((written_envelope item).append (written_dmcn item)).append (written_state item)).append
    (.cons (by decide) (.plain (by decide)) .nil)).append ?_
  unfold bodyHeaders
  refine .ite (fun _ => ?_) fun _ => written_multipart (by decide) (hb 0)
  split
  · exact .cons (by decide) (.plain (by decide)) (.cons (by decide) (.plain (by decide)) .nil)
  · exact written_multipart (by decide) (hb 0)

theorem written_above (item : ExportItem L) : AllWritten (above item) :=
  ((written_bridge item.bridge).append (written_dmcn item)).append (written_state item)

end Emitted

section Written

open MailHeader (Stands Field Line Whole)

variable {L : LowerCase}

def Header.asRead (h : Header) : Option Bytes × Bytes :=
  (some (encode h.name), encode (MailText.unfold h.value))

def read (f : List Bytes) : Option Bytes × Bytes := (name f, value f)

theorem joined_eq {hs : List Header} (h : hs ≠ []) : joined hs = hs.flatMap fun h =>
  h.text ++ crlf := by
  unfold joined
  induction hs with
  | nil => exact absurd rfl h
  | cons first hs ih =>
    cases hs with
    | nil => rw [List.map_singleton, List.intercalate_singleton, List.flatMap_singleton]
    | cons next hs =>
      have htail := ih (List.cons_ne_nil _ _)
      rw [List.map_cons] at htail
      rw [List.map_cons, List.map_cons, List.intercalate_cons_cons, List.append_assoc, htail,
        List.flatMap_cons, List.flatMap_cons, List.flatMap_cons]

theorem fields_of_written {hs : List Header} (h : AllWritten hs) :
    ∃ fs : List (List Bytes), (∀ f ∈ fs, Field f) ∧ (∀ line ∈ fs.flatten, Stands line) ∧
      fs.flatten.flatten = encode (hs.flatMap fun h => h.text ++ crlf) ∧
      fs.map read = hs.map Header.asRead := by
  induction hs with
  | nil =>
    exact ⟨[], fun f hf => absurd hf List.not_mem_nil, fun l hl => absurd hl List.not_mem_nil, rfl,
      rfl⟩
  | cons first hs ih =>
    obtain ⟨hfirst, hrest⟩ := List.forall_mem_cons.mp h
    obtain ⟨f, hf, hlines, hbytes, hname, hvalue⟩ := MailHeader.field_of_written hfirst
    obtain ⟨fs, hfs, hmore, hflat, hread⟩ := ih hrest
    refine ⟨f :: fs, List.forall_mem_cons.mpr ⟨hf, hfs⟩, ?_, ?_, ?_⟩
    · rw [List.flatten_cons]
      exact List.forall_mem_append.mpr ⟨hlines, hmore⟩
    · rw [List.flatten_cons, List.flatten_append, hbytes, hflat, List.flatMap_cons,
        Go.Utf8.encode_append (first.text ++ crlf)]
      rfl
    · rw [List.map_cons, List.map_cons, hread]
      exact congrArg (· :: _) (Prod.ext hname hvalue)

end Written

end Dmcn.Web.Export
