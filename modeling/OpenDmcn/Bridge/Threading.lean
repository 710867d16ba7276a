import OpenDmcn.Bridge.Mime
import OpenDmcn.IdealRuntime

/-! Threading across the bridge (`bridge/mime.go`). One way an ID is written out as a message
identifier, the other way a message identifier is hashed to an ID, so neither undoes the other: a
conversation stays linked on both sides only where an ID is the hash of how it is written. -/

namespace Go.Strings

theorem trimSpace_eq_self {u : Unicode} {s : String} (h : ∀ c ∈ s.toList, u.space c = false) :
    trimSpace u s = s := by
  have hkept : ∀ {l : List Char}, (∀ c ∈ l, u.space c = false) → l.dropWhile u.space = l := by
    intro l hl
    cases l with
    | nil => rfl
    | cons c l => rw [List.dropWhile_cons_of_neg (by rw [hl c List.mem_cons_self]; decide)]
  unfold trimSpace
  rw [hkept h, hkept fun c hc => h c (List.mem_reverse.mp hc), List.reverse_reverse,
    String.ofList_toList]

end Go.Strings

namespace Dmcn.Bridge

open Go

structure DotAtom (s : String) : Prop where
  chars : ∀ c ∈ s.toList, c.isAlphanum = true ∨ c = '-' ∨ c = '.'
  atoms : [] ∉ s.toList.splitOn '.'

def IsMsgID (id : String) : Prop := ∃ left right, DotAtom left ∧ DotAtom right ∧
    id = left ++ "@" ++ right

def threadingFields : List String := ["Message-ID", "In-Reply-To", "References"]

def MailLibrary.Lawful (mail : MailLibrary) : Prop :=
  ∀ (out : OutMail) (raw : Bytes), mail.write out = some raw → ∃ read, mail.createReader raw =
    some read ∧
    ∀ key ∈ threadingFields, ∀ ids : List String, (∀ id ∈ ids, IsMsgID id) →
      out.header.get key = " ".intercalate (ids.map angled) → mail.msgIDList read.header key =
        some ids

def GraphicASCII (u : Unicode) : Prop := ∀ c : Char, 33 ≤ c.toNat → c.toNat ≤ 126 →
    u.space c = false

structure Legible (rt : MimeRuntime) (raw : Bytes) (read : InMail) : Prop where
  header : rt.mail.createReader raw = some read
  parts : ∀ p ∈ read.parts, ∃ part data, p = some part ∧ part.body = some data

def inherited (references inReplyTo : List String) : List String :=
  if references ≠ [] then references
  else match inReplyTo with
    | [id] => [id]
    | _ => []

def RepliesTo (mail : MailLibrary) (sent reply : MailHeader) : Prop :=
  ∃ own references inReplyTo, mail.msgIDList sent "Message-ID" = some own ∧
    mail.msgIDList sent "References" = some references ∧ mail.msgIDList sent "In-Reply-To" =
      some inReplyTo ∧
    mail.msgIDList reply "In-Reply-To" = some own ∧
    mail.msgIDList reply "References" = some (inherited references inReplyTo ++ own)

/-- The thread of a message; where it has no ID of its own, its parent stands for it, or else the
message itself. -/
def threadOf (msg : PlaintextMessage) : Fixed 16 :=
  if msg.threadID ≠ .zero 16 then msg.threadID
  else if msg.replyToID ≠ .zero 16 then msg.replyToID
  else msg.messageID

def OwnHash (rt : MimeRuntime) (domain : String) (id : Fixed 16) : Prop :=
  Fixed.copy 16 (rt.sha256 (utf8 (Hex.encode id.val ++ "@" ++ domain))) = id

section Identifiers

variable {rt : MimeRuntime} {domain : String}

theorem char_graphic {c : Char} (h : c.isAlphanum = true ∨ c = '-' ∨ c = '.') : 33 ≤ c.toNat ∧
    c.toNat ≤ 126 := by
  rcases h with h | rfl | rfl
  · delta Char.isAlphanum Char.isAlpha Char.isUpper Char.isLower Char.isDigit at h
    simp only [Bool.or_eq_true, Bool.and_eq_true, decide_eq_true_eq, UInt32.le_iff_toNat_le,
      ge_iff_le] at h
    change ((65 ≤ c.toNat ∧ c.toNat ≤ 90) ∨ 97 ≤ c.toNat ∧ c.toNat ≤ 122) ∨ 48 ≤ c.toNat ∧
      c.toNat ≤ 57 at h
    rcases h with (⟨hlow, hhigh⟩ | ⟨hlow, hhigh⟩) | ⟨hlow, hhigh⟩
    · exact ⟨by omega, by omega⟩
    · exact ⟨by omega, by omega⟩
    · exact ⟨by omega, by omega⟩
  · decide
  · decide

theorem isAlphanum_digit {n : ℕ} (h : n < 16) : (Hex.digit n).isAlphanum = true := by
  interval_cases n <;> decide

theorem isAlphanum_encode {b : Bytes} {c : Char} (h : c ∈ (Hex.encode b).toList) :
    c.isAlphanum = true := by
  unfold Hex.encode at h
  rw [String.toList_ofList] at h
  obtain ⟨x, -, hx⟩ := List.mem_flatMap.mp h
  have hbound : x.toNat < 256 := x.toNat_lt
  rcases List.mem_cons.mp hx with rfl | hx
  · exact isAlphanum_digit (by omega)
  · rw [List.mem_singleton.mp hx]
    exact isAlphanum_digit (by omega)

theorem dotAtom_encode {b : Bytes} (hne : b ≠ []) : DotAtom (Hex.encode b) := by
  refine ⟨fun c hc => .inl (isAlphanum_encode hc), ?_⟩
  have hdots : ∀ c ∈ (Hex.encode b).toList, (c == '.') = false := by
    intro c hc
    rw [beq_eq_false_iff_ne]
    rintro rfl
    exact absurd (isAlphanum_encode hc) (by decide)
  have hlist : (Hex.encode b).toList ≠ [] := by
    unfold Hex.encode
    rw [String.toList_ofList]
    intro hnil
    have hlength := Hex.length_encodeChars b
    rw [hnil] at hlength
    exact hne (List.length_eq_zero_iff.mp (by simpa using hlength.symm))
  rw [List.splitOn, List.splitOnP_eq_singleton hdots, List.mem_singleton]
  exact fun h => hlist h.symm

theorem isMsgID_bare (hdomain : DotAtom domain) (id : Fixed 16) :
    IsMsgID (bareMsgID id domain) := by
  refine ⟨Hex.encode id.val, domain, dotAtom_encode ?_, hdomain, rfl⟩
  intro hnil
  have hlength := id.length_val
  rw [hnil] at hlength
  cases hlength

theorem deriveID_bare (hspace : GraphicASCII rt.unicode) (hdomain : DotAtom domain)
    (id : Fixed 16) :
    deriveID rt (bareMsgID id domain) =
      Fixed.copy 16 (rt.sha256 (utf8 (Hex.encode id.val ++ "@" ++ domain))) := by
  unfold deriveID
  rw [Strings.trimSpace_eq_self]
  · rfl
  · intro c hc
    have hchars : c.isAlphanum = true ∨ c = '-' ∨ c = '.' ∨ c = '@' := by
      unfold bareMsgID at hc
      simp only [String.toList_append, List.mem_append] at hc
      rcases hc with (hc | hc) | hc
      · exact .inl (isAlphanum_encode hc)
      · exact .inr (.inr (.inr (by simpa using hc)))
      · rcases hdomain.chars c hc with h | h | h
        · exact .inl h
        · exact .inr (.inl h)
        · exact .inr (.inr (.inl h))
    rcases hchars with h | h | h | rfl
    · exact hspace c (char_graphic (.inl h)).1 (char_graphic (.inl h)).2
    · exact hspace c (char_graphic (.inr (.inl h))).1 (char_graphic (.inr (.inl h))).2
    · exact hspace c (char_graphic (.inr (.inr h))).1 (char_graphic (.inr (.inr h))).2
    · exact hspace '@' (by decide) (by decide)

end Identifiers

section Headers

variable {rt : MimeRuntime} {from' to' domain : String} {msg : PlaintextMessage}
  {audience : Audience} {now : Time}

def inReplyToIDs (msg : PlaintextMessage) (domain : String) : List String :=
  if msg.replyToID = .zero 16 then [] else [bareMsgID msg.replyToID domain]

def referenceIDs (msg : PlaintextMessage) (domain : String) : List String :=
  if msg.replyToID = .zero 16 then []
  else if msg.threadID ≠ .zero 16 ∧ msg.threadID ≠ msg.replyToID then
    [bareMsgID msg.threadID domain, bareMsgID msg.replyToID domain]
  else [bareMsgID msg.replyToID domain]

theorem get_recipientsHeader {h : MailHeader} {key : String}
    (hto : MailHeader.sameName "To" key = false) (hcc : MailHeader.sameName "Cc" key = false) :
    (recipientsHeader rt to' audience h).get key = h.get key := by
  unfold recipientsHeader
  dsimp only
  split
  · rw [MailHeader.get_set_of_ne _ _ hcc, MailHeader.get_set_of_ne _ _ hto]
  · rw [MailHeader.get_set_of_ne _ _ hto]

theorem header_outMail {h : MailHeader} {key : String}
    (hkey : MailHeader.sameName "Content-Type" key = false) :
    (outMail rt h msg).header.get key = h.get key := by
  unfold outMail
  dsimp only
  split
  · exact MailHeader.get_set_of_ne _ _ hkey
  · split
    · rfl
    · rfl

theorem get_addressedHeader {key : String} (hkey : key ∈ threadingFields) :
    (addressedHeader rt from' to' msg audience now).get key = "" := by
  have hfields : ∀ field ∈ ["From", "To", "Cc", "Subject", "Date"], MailHeader.sameName field key =
      false := by
    revert key
    decide
  unfold addressedHeader
  dsimp only
  rw [MailHeader.get_set_of_ne _ _ (hfields "Date" (by decide)),
    MailHeader.get_set_of_ne _ _ (hfields "Subject" (by decide)),
    get_recipientsHeader (hfields "To" (by decide)) (hfields "Cc" (by decide)),
    MailHeader.get_set_of_ne _ _ (hfields "From" (by decide))]
  rfl

theorem get_threadingHeader_messageID (h : MailHeader) :
    (threadingHeader msg domain h).get "Message-ID" =
      " ".intercalate ([bareMsgID msg.messageID domain].map angled) := by
  have hown : (h.set "Message-ID" (mailMsgID msg.messageID domain)).get "Message-ID" =
      mailMsgID msg.messageID domain :=
    MailHeader.get_set_self h _ _
  unfold threadingHeader
  dsimp only
  split
  · rw [MailHeader.get_set_of_ne _ _ (by decide), MailHeader.get_set_of_ne _ _ (by decide), hown]
    exact String.intercalate_singleton.symm
  · rw [hown]
    exact String.intercalate_singleton.symm

theorem get_threadingHeader_inReplyTo {h : MailHeader} (hempty : h.get "In-Reply-To" = "") :
    (threadingHeader msg domain h).get "In-Reply-To" =
      " ".intercalate ((inReplyToIDs msg domain).map angled) := by
  unfold threadingHeader inReplyToIDs
  dsimp only
  by_cases hparent : msg.replyToID = .zero 16
  · rw [if_neg (not_not_intro hparent), if_pos hparent, MailHeader.get_set_of_ne _ _ (by decide),
      hempty]
    exact String.intercalate_nil.symm
  · rw [if_pos hparent, if_neg hparent, MailHeader.get_set_of_ne _ _ (by decide),
      MailHeader.get_set_self]
    exact String.intercalate_singleton.symm

theorem get_threadingHeader_references {h : MailHeader} (hempty : h.get "References" = "") :
    (threadingHeader msg domain h).get "References" =
      " ".intercalate ((referenceIDs msg domain).map angled) := by
  unfold threadingHeader referenceIDs
  dsimp only
  by_cases hparent : msg.replyToID = .zero 16
  · rw [if_neg (not_not_intro hparent), if_pos hparent, MailHeader.get_set_of_ne _ _ (by decide),
      hempty]
    exact String.intercalate_nil.symm
  · rw [if_pos hparent, if_neg hparent, MailHeader.get_set_self]
    split
    · change mailMsgID msg.threadID domain ++ " " ++ mailMsgID msg.replyToID domain =
        " ".intercalate [mailMsgID msg.threadID domain, mailMsgID msg.replyToID domain]
      rw [String.intercalate_cons_cons, String.intercalate_singleton]
    · exact String.intercalate_singleton.symm

theorem read_of_buildMIME (hmail : rt.mail.Lawful) (hdomain : DotAtom (domainOf rt.unicode from'))
    {raw : Bytes} (hsent : buildMIME rt from' to' msg audience now = .ok raw) :
    ∃ read, rt.mail.createReader raw = some read ∧
      rt.mail.msgIDList read.header "Message-ID" =
      some [bareMsgID msg.messageID (domainOf rt.unicode from')] ∧
      rt.mail.msgIDList read.header "In-Reply-To" =
      some (inReplyToIDs msg (domainOf rt.unicode from')) ∧
      rt.mail.msgIDList read.header "References" =
      some (referenceIDs msg (domainOf rt.unicode from')) := by
  have hwrite : rt.mail.write (outMail rt (mimeHeader rt from' to' msg audience now) msg) =
      some raw := by
    unfold buildMIME at hsent
    split at hsent
    · cases hsent
    · cases hw : rt.mail.write (outMail rt (mimeHeader rt from' to' msg audience now) msg) with
      | none =>
        rw [hw] at hsent
        cases hsent
      | some raw' =>
        rw [hw] at hsent
        cases hsent
        rfl
  obtain ⟨read, hread, hids⟩ := hmail _ raw hwrite
  have hheader : ∀ {key : String}, key ∈ threadingFields →
      (outMail rt (mimeHeader rt from' to' msg audience now) msg).header.get key =
        (mimeHeader rt from' to' msg audience now).get key := by
    intro key hkey
    apply header_outMail
    revert key
    decide
  have hbare := isMsgID_bare hdomain
  refine ⟨read, hread, ?_, ?_, ?_⟩
  · apply hids "Message-ID" (by decide)
    · intro id hid
      rw [List.mem_singleton.mp hid]
      exact hbare msg.messageID
    · rw [hheader (by decide)]
      exact get_threadingHeader_messageID _
  · apply hids "In-Reply-To" (by decide)
    · intro id hid
      unfold inReplyToIDs at hid
      split at hid
      · cases hid
      · rw [List.mem_singleton.mp hid]
        exact hbare msg.replyToID
    · rw [hheader (by decide)]
      exact get_threadingHeader_inReplyTo (get_addressedHeader (by decide))
  · apply hids "References" (by decide)
    · intro id hid
      unfold referenceIDs at hid
      split at hid
      · cases hid
      · split at hid
        · rcases List.mem_cons.mp hid with rfl | hid
          · exact hbare msg.threadID
          · rw [List.mem_singleton.mp hid]
            exact hbare msg.replyToID
        · rw [List.mem_singleton.mp hid]
          exact hbare msg.replyToID
    · rw [hheader (by decide)]
      exact get_threadingHeader_references (get_addressedHeader (by decide))

end Headers

section References

variable (msg : PlaintextMessage) (domain : String)

theorem threadOf_of_reply (hparent : msg.replyToID ≠ .zero 16) :
    threadOf msg = if msg.threadID ≠ .zero 16 ∧ msg.threadID ≠ msg.replyToID then msg.threadID
      else msg.replyToID := by
  unfold threadOf
  by_cases hzero : msg.threadID = .zero 16
  · rw [if_neg (not_not_intro hzero), if_pos hparent, if_neg fun h => h.1 hzero]
  · rw [if_pos hzero]
    by_cases hsame : msg.threadID = msg.replyToID
    · rw [if_neg fun h => h.2 hsame, hsame]
    · rw [if_pos ⟨hzero, hsame⟩]

theorem head_references : ∃ refs, inherited (referenceIDs msg domain) (inReplyToIDs msg domain) ++
    [bareMsgID msg.messageID domain] =
      bareMsgID (if msg.replyToID = .zero 16 then msg.messageID else threadOf msg) domain ::
      refs := by
  unfold inherited referenceIDs inReplyToIDs
  by_cases hparent : msg.replyToID = .zero 16
  · simp only [if_pos hparent]
    exact ⟨[], rfl⟩
  · simp only [if_neg hparent]
    rw [threadOf_of_reply msg hparent]
    by_cases hthread : msg.threadID ≠ .zero 16 ∧ msg.threadID ≠ msg.replyToID
    · simp only [if_pos hthread]
      exact ⟨_, rfl⟩
    · simp only [if_neg hthread]
      exact ⟨_, rfl⟩

end References

section Parsed

variable {rt : MimeRuntime} {ids : ℕ → Fixed 16} {raw : Bytes} {read : InMail}

theorem readParts_of_readable (rt : MimeRuntime) (ids : ℕ → Fixed 16) {parts : List (Option InPart)}
    (acc : PartsRead) (h : ∀ p ∈ parts, ∃ part data, p = some part ∧ part.body = some data) : ∃ r,
    readParts rt ids acc parts = .ok r := by
  induction parts generalizing acc with
  | nil => exact ⟨acc, rfl⟩
  | cons p parts ih =>
    obtain ⟨part, data, rfl, hbody⟩ := h p List.mem_cons_self
    obtain ⟨r, hr⟩ := ih (readPart rt (ids acc.attachments.length) acc part data) fun q hq =>
      h q (List.mem_cons_of_mem _ hq)
    refine ⟨r, ?_⟩
    rw [readParts, hbody]
    exact hr

theorem parse_of_legible (ids : ℕ → Fixed 16) (h : Legible rt raw read) :
    ∃ parsed, parseInboundMIME rt ids raw = .ok parsed ∧
      (parsed.messageID, parsed.threadID, parsed.replyToID, parsed.hasIDs) =
      threading rt read.header := by
  obtain ⟨r, hr⟩ := readParts_of_readable rt ids ⟨none, none, []⟩ h.parts
  unfold parseInboundMIME
  rw [h.header]
  dsimp only
  rw [hr]
  exact ⟨_, rfl, rfl⟩

theorem threading_of_reply (rt : MimeRuntime) {h : MailHeader} {irt root : String}
    {irts refs : List String} (hreply : rt.mail.msgIDList h "In-Reply-To" = some (irt :: irts))
    (hrefs : rt.mail.msgIDList h "References" = some (root :: refs)) :
    (threading rt h).2.2.1 = deriveID rt irt ∧ (threading rt h).2.1 = deriveID rt root := by
  unfold threading
  dsimp only
  rw [hreply, hrefs]
  exact ⟨rfl, rfl⟩

theorem threading_of_messageID {h : MailHeader} {mid : String}
    (hid : rt.mail.messageID h = some mid) (hne : mid ≠ "") :
    (threading rt h).1 = deriveID rt mid ∧ (threading rt h).2.2.2 = true := by
  unfold threading
  rw [hid]
  dsimp only
  rw [if_pos hne]
  exact ⟨rfl, rfl⟩

theorem messageID_bridged (h : Legible rt raw read) {mid : String}
    (hid : rt.mail.messageID read.header = some mid) (hne : mid ≠ "") {messageID threadID :
      Fixed 16} {now : Time} {senderAddr senderDisplay : String} {bridgePub : Bytes} :
    (bridged rt messageID threadID now senderAddr senderDisplay bridgePub raw ids).messageID =
      deriveID rt mid := by
  obtain ⟨parsed, hparse, hfields⟩ := parse_of_legible ids h
  obtain ⟨hmid, hhas⟩ := threading_of_messageID hid hne
  rw [← hfields] at hmid hhas
  unfold bridged takeIn
  rw [hparse]
  dsimp only at hhas ⊢
  rw [if_pos hhas]
  exact hmid

end Parsed

section Survival

variable (rt : MimeRuntime)

def Replied (from' : String) (msg : PlaintextMessage) (reply : Bytes) : Prop :=
  ∃ to' audience now raw sent read, buildMIME rt from' to' msg audience now = .ok raw ∧
    rt.mail.createReader raw = some sent ∧ Legible rt reply read ∧
      RepliesTo rt.mail sent.header read.header

def ReplyKept (ids : ℕ → Fixed 16) (msg : PlaintextMessage) (reply : Bytes) : Prop :=
  ∃ parsed, parseInboundMIME rt ids reply = .ok parsed ∧ parsed.replyToID = msg.messageID ∧
    parsed.threadID = threadOf msg

/-- A message that went out in answer to the mail with the message identifier `mid`, which had been
taken in. -/
def AnsweredMail (from' mid : String) (sentRaw : Bytes) : Prop :=
  ∃ raw read ids messageID threadID now senderAddr senderDisplay bridgePub, Legible rt raw read ∧
    rt.mail.messageID read.header = some mid ∧ mid ≠ "" ∧
    let mail := bridged rt messageID threadID now senderAddr senderDisplay bridgePub raw ids
    ∃ to' answer audience now', answer.replyToID = mail.messageID ∧
      answer.threadID = mail.threadID ∧
      buildMIME rt from' to' answer audience now' = .ok sentRaw

def AnswerNames (mid : String) (sentRaw : Bytes) : Prop :=
  ∃ sent, rt.mail.createReader sentRaw = some sent ∧ rt.mail.msgIDList sent.header "In-Reply-To" =
    some [mid]

variable {rt} {from' : String} (hmail : rt.mail.Lawful) (hspace : GraphicASCII rt.unicode)
  (hdomain : DotAtom (domainOf rt.unicode from'))

include hmail hspace hdomain

theorem replyKept_iff {ids : ℕ → Fixed 16} {msg : PlaintextMessage} {reply : Bytes}
    (h : Replied rt from' msg reply) :
    ReplyKept rt ids msg reply ↔ OwnHash rt (domainOf rt.unicode from') msg.messageID ∧
      if msg.replyToID = .zero 16 then threadOf msg = msg.messageID
      else OwnHash rt (domainOf rt.unicode from') (threadOf msg) := by
  obtain ⟨to', audience, now, raw, sent, read, hsent, hreader, hlegible, own, references, inReplyTo,
    hown, hreferences, hinReplyTo, hreplyTo, hreplyRefs⟩ := h
  obtain ⟨sent', hreader', hownIDs, hinReplyToIDs, hreferenceIDs⟩ :=
    read_of_buildMIME hmail hdomain hsent
  obtain rfl : sent = sent' := Option.some.inj (hreader.symm.trans hreader')
  obtain rfl : own = _ := Option.some.inj (hown.symm.trans hownIDs)
  obtain rfl : references = _ := Option.some.inj (hreferences.symm.trans hreferenceIDs)
  obtain rfl : inReplyTo = _ := Option.some.inj (hinReplyTo.symm.trans hinReplyToIDs)
  obtain ⟨parsed, hparse, hfields⟩ := parse_of_legible ids hlegible
  obtain ⟨refs, hroot⟩ := head_references msg (domainOf rt.unicode from')
  rw [hroot] at hreplyRefs
  obtain ⟨hreplyID, hthreadID⟩ := threading_of_reply rt hreplyTo hreplyRefs
  rw [← hfields, deriveID_bare hspace hdomain] at hreplyID hthreadID
  dsimp only at hreplyID hthreadID
  have hkept : ReplyKept rt ids msg reply ↔ parsed.replyToID = msg.messageID ∧
      parsed.threadID = threadOf msg := by
    constructor
    · rintro ⟨parsed', hparse', hkept⟩
      cases hparse.symm.trans hparse'
      exact hkept
    · exact fun hkept => ⟨parsed, hparse, hkept⟩
  rw [hkept, hreplyID, hthreadID]
  by_cases hparent : msg.replyToID = .zero 16
  · rw [if_pos hparent, if_pos hparent]
    -- the message is the root of its thread, so the two hashes are the same
    constructor
    · rintro ⟨hown, hthread⟩
      exact ⟨hown, hthread.symm.trans hown⟩
    · rintro ⟨hown, hthread⟩
      exact ⟨hown, hown.trans hthread.symm⟩
  · rw [if_neg hparent, if_neg hparent]
    exact Iff.rfl

theorem answerNames_iff {mid : String} {sentRaw : Bytes} (h : AnsweredMail rt from' mid sentRaw) :
    AnswerNames rt mid sentRaw ↔ ∃ id, id ≠ .zero 16 ∧ OwnHash rt (domainOf rt.unicode from') id ∧
      mid = Hex.encode id.val ++ "@" ++ domainOf rt.unicode from' := by
  obtain ⟨raw, read, ids, messageID, threadID, now, senderAddr, senderDisplay, bridgePub, hlegible,
    hid, hne, to', answer, audience, now', hreplyTo, hthread, hsent⟩ := h
  rw [messageID_bridged hlegible hid hne] at hreplyTo
  obtain ⟨sent, hreader, -, hinReplyTo, -⟩ := read_of_buildMIME hmail hdomain hsent
  constructor
  · rintro ⟨sent', hreader', hnames⟩
    obtain rfl : sent = sent' := Option.some.inj (hreader.symm.trans hreader')
    have hids := Option.some.inj (hinReplyTo.symm.trans hnames)
    unfold inReplyToIDs at hids
    by_cases hparent : answer.replyToID = .zero 16
    · rw [if_pos hparent] at hids
      cases hids
    · rw [if_neg hparent] at hids
      have hmid : bareMsgID answer.replyToID (domainOf rt.unicode from') = mid :=
        List.singleton_inj.mp hids
      refine ⟨answer.replyToID, hparent, ?_, hmid.symm⟩
      have hown := deriveID_bare hspace hdomain answer.replyToID
      rw [hmid, ← hreplyTo] at hown
      exact hown.symm
  · rintro ⟨id, hzero, hown, hmid⟩
    have hderived := deriveID_bare hspace hdomain id
    have hreplyID : answer.replyToID = id := by
      rw [hreplyTo, hmid]
      exact hderived.trans hown
    refine ⟨sent, hreader, ?_⟩
    rw [hinReplyTo, inReplyToIDs, hreplyID, if_neg hzero, hmid]
    rfl

/-- Threading survives the bridge, one way or the other, only for IDs that are made of the hash of
how they are written. A message of no other is taken for one of a thread of its own on the way back,
and what goes out in answer to a mail names a message that nobody has sent. -/
theorem threading_survives_iff :
    (∀ (ids : ℕ → Fixed 16) (msg : PlaintextMessage) (reply : Bytes), Replied rt from' msg reply →
      (ReplyKept rt ids msg reply ↔ OwnHash rt (domainOf rt.unicode from') msg.messageID ∧
        if msg.replyToID = .zero 16 then threadOf msg = msg.messageID
        else OwnHash rt (domainOf rt.unicode from') (threadOf msg))) ∧
    ∀ (mid : String) (sentRaw : Bytes), AnsweredMail rt from' mid sentRaw →
      (AnswerNames rt mid sentRaw ↔ ∃ id, id ≠ .zero 16 ∧
        OwnHash rt (domainOf rt.unicode from') id ∧ mid = Hex.encode id.val ++ "@" ++
          domainOf rt.unicode from') :=
  ⟨fun _ _ _ h => replyKept_iff hmail hspace hdomain h, fun _ _ h =>
    answerNames_iff hmail hspace hdomain h⟩

end Survival

namespace Correspondence

deriving instance Inhabited for OutMail

def readOutPart : OutPart → List (Option InPart)
  | .inline h content => [some ⟨false, h, some content⟩]
  | .alternative parts => parts.map fun p => some ⟨false, p.1, some p.2⟩
  | .attachment h content => [some ⟨true, h, some content⟩]

def readOutMail : OutMail → InMail
  | .single h content => ⟨h, [some ⟨false, h, some content⟩]⟩
  | .alternative h parts => ⟨h, parts.map fun p => some ⟨false, p.1, some p.2⟩⟩
  | .mixed h parts => ⟨h, parts.flatMap readOutPart⟩

def unangled : List Char → Option String
  | '<' :: cs => if cs.getLast? = some '>' then some (String.ofList cs.dropLast) else none
  | _ => none

def msgIDList (h : MailHeader) (key : String) : Option (List String) :=
  if h.get key = "" then some [] else ((h.get key).toList.splitOn ' ').mapM unangled

noncomputable def mailLibrary : MailLibrary where
  addressList addrs := ", ".intercalate (addrs.map angled)
  text := id
  date now := toString now.unix
  contentType ct params := "; ".intercalate (ct :: params.map fun p => p.1 ++ "=" ++ p.2)
  attachmentNamed name := "attachment; filename=" ++ name
  write out := some ((someCodec OutMail).marshal out)
  createReader raw := ((someCodec OutMail).unmarshal raw).map readOutMail
  subject h := some (h.get "Subject")
  messageID h := (msgIDList h "Message-ID").map fun ids => ids.headD ""
  msgIDList := msgIDList
  mediaType h := String.ofList ((h.get "Content-Type").toList.takeWhile (· ≠ ';'))
  filename _ := ""

theorem unangled_angled (id : String) : unangled (angled id).toList = some id := by
  have hlist : (angled id).toList = '<' :: (id.toList ++ ['>']) := by
    unfold angled
    rw [String.toList_append, String.toList_append]
    rfl
  rw [hlist, unangled, if_pos List.getLast?_concat, List.dropLast_concat, String.ofList_toList]

theorem blank_not_mem_angled {id : String} (h : IsMsgID id) : ' ' ∉ (angled id).toList := by
  obtain ⟨left, right, hleft, hright, rfl⟩ := h
  have hfree : ∀ {s : String}, DotAtom s → ' ' ∉ s.toList := by
    intro s hs hmem
    exact absurd (hs.chars ' ' hmem) (by decide)
  unfold angled
  simp only [String.toList_append, List.mem_append, not_or]
  exact ⟨⟨by decide, ⟨hfree hleft, by decide⟩, hfree hright⟩, by decide⟩

theorem header_readOutMail (out : OutMail) : (readOutMail out).header = out.header := by
  cases out with
  | single h content => rfl
  | alternative h parts => rfl
  | mixed h parts => rfl

theorem lawful_mailLibrary : mailLibrary.Lawful := by
  rintro out raw hwrite
  cases hwrite
  refine ⟨readOutMail out, ?_, ?_⟩
  · change Option.map readOutMail
      ((someCodec OutMail).unmarshal ((someCodec OutMail).marshal out)) = _
    rw [Codec.unmarshal_marshal]
    rfl
  · intro key hkey ids hids hget
    change msgIDList (readOutMail out).header key = some ids
    rw [header_readOutMail, msgIDList, hget]
    cases ids with
    | nil => rfl
    | cons id ids =>
      have hne : " ".intercalate ((id :: ids).map angled) ≠ "" := by
        intro hempty
        have hlist := congrArg String.toList hempty
        rw [String.toList_intercalate] at hlist
        cases ids with
        | nil => simp [angled] at hlist
        | cons id' ids => simp [angled] at hlist
      have hsplit : (" ".intercalate ((id :: ids).map angled)).toList.splitOn ' ' =
          (id :: ids).map fun i => (angled i).toList := by
        rw [String.toList_intercalate, List.map_map]
        apply List.splitOn_intercalate
        · intro l hl
          obtain ⟨i, hi, rfl⟩ := List.mem_map.mp hl
          exact blank_not_mem_angled (hids i hi)
        · exact List.cons_ne_nil _ _
      rw [if_neg hne, hsplit, List.mapM_map]
      have hall : ∀ l : List String, l.mapM (fun i => unangled (angled i).toList) = some l := by
        intro l
        simp only [unangled_angled]
        exact (List.mapM_pure (m := Option)).trans (by rw [List.map_id']; rfl)
      exact hall (id :: ids)

def bridgeID : Fixed 16 := Fixed.copy 16 [0x11]

def sha256 (b : Bytes) : Bytes :=
  if b = utf8 "11000000000000000000000000000000@bridge.test" then
    [68, 59, 25, 103, 35, 254, 28, 226, 152, 214, 136, 34, 131, 211, 5, 142,
      0, 242, 89, 63, 59, 12, 220, 221, 3, 100, 167, 22, 1, 109, 73, 116]
  else if b = utf8 "abc123@gmail.example" then
    [65, 255, 86, 251, 4, 20, 182, 67, 91, 72, 136, 4, 149, 249, 9, 198,
      135, 95, 56, 98, 100, 215, 89, 71, 160, 106, 6, 40, 178, 36, 44, 141]
  else List.replicate 32 0

noncomputable def runtime : MimeRuntime := ⟨mailLibrary, asciiUnicode, sha256, id⟩

def noIDs (_ : ℕ) : Fixed 16 := .zero 16

def message : PlaintextMessage :=
  .newPlaintextMessage bridgeID bridgeID (Time.ofUnix 1700000000) "alice@dmcn.test"
    "bob@gmail.example" "Hi" "Hello" (keyOf 1)

noncomputable def messageMail : OutMail :=
  outMail runtime (mimeHeader runtime "alice@bridge.test" "bob@gmail.example" message ⟨[], []⟩
    (Time.ofUnix 1700000000)) message

noncomputable def messageRaw : Bytes := (someCodec OutMail).marshal messageMail

def reply : OutMail :=
  .single
    [("Message-ID", "<abc123@gmail.example>"),
      ("In-Reply-To", "<11000000000000000000000000000000@bridge.test>"),
      ("References", "<11000000000000000000000000000000@bridge.test>")]
    (utf8 "Hello to you")

noncomputable def replyRaw : Bytes := (someCodec OutMail).marshal reply

noncomputable def answer : PlaintextMessage :=
  let mail := bridged runtime (.zero 16) (.zero 16) (Time.ofUnix 1700000100) "bob@gmail.example" ""
    (keyOf 2) replyRaw noIDs
  { message with messageID := Fixed.copy 16 [0x33], threadID := mail.threadID, replyToID :=
    mail.messageID }

noncomputable def answerRaw : Bytes :=
  (someCodec OutMail).marshal
    (outMail runtime (mimeHeader runtime "alice@bridge.test" "bob@gmail.example" answer ⟨[], []⟩
      (Time.ofUnix 1700000200)) answer)

theorem domainOf_alice : domainOf runtime.unicode "alice@bridge.test" = "bridge.test" := by
  change domainOf asciiUnicode "alice@bridge.test" = "bridge.test"
  decide

theorem dotAtom_domain : DotAtom (domainOf runtime.unicode "alice@bridge.test") := by
  rw [domainOf_alice]
  have hchars : "bridge.test".toList.all
      (fun c => decide (c.isAlphanum = true ∨ c = '-' ∨ c = '.')) = true := by decide
  exact ⟨fun c hc => of_decide_eq_true (List.all_eq_true.mp hchars c hc), by decide⟩

theorem graphicASCII : GraphicASCII runtime.unicode := by
  intro c hlow hhigh
  change Char.isWhitespace c = false
  have hprinted : ∀ d : Char, d.toNat < 33 → c ≠ d := by
    rintro d hd rfl
    omega
  unfold Char.isWhitespace
  simp [hprinted ' ' (by decide), hprinted '\t' (by decide), hprinted '\r' (by decide),
    hprinted '\n' (by decide)]

theorem buildMIME_message : buildMIME runtime "alice@bridge.test" "bob@gmail.example" message
    ⟨[], []⟩ (Time.ofUnix 1700000000) =
    .ok messageRaw := by
  unfold buildMIME
  rw [if_neg (by decide)]
  rfl

theorem createReader_marshal (out : OutMail) :
    runtime.mail.createReader ((someCodec OutMail).marshal out) = some (readOutMail out) := by
  change Option.map readOutMail ((someCodec OutMail).unmarshal ((someCodec OutMail).marshal out)) =
    _
  rw [Codec.unmarshal_marshal]
  rfl

theorem msgIDList_readOutMail (out : OutMail) (key : String) :
    runtime.mail.msgIDList (readOutMail out).header key = msgIDList out.header key := by
  rw [header_readOutMail]
  rfl

theorem legible_reply : Legible runtime replyRaw (readOutMail reply) := by
  refine ⟨createReader_marshal reply, ?_⟩
  intro p hp
  rw [List.mem_singleton.mp hp]
  exact ⟨_, _, rfl, rfl⟩

theorem replied : Replied runtime "alice@bridge.test" message replyRaw := by
  obtain ⟨sent, hread, hown, hinReplyTo, hreferences⟩ :=
    read_of_buildMIME lawful_mailLibrary dotAtom_domain buildMIME_message
  rw [domainOf_alice] at hown hinReplyTo hreferences
  refine ⟨_, _, _, _, sent, _, buildMIME_message, hread, legible_reply, _, _, _, hown, hreferences,
    hinReplyTo, ?_, ?_⟩
  · rw [msgIDList_readOutMail]
    decide
  · rw [msgIDList_readOutMail]
    decide

theorem answered : AnsweredMail runtime "alice@bridge.test" "abc123@gmail.example" answerRaw := by
  refine ⟨replyRaw, _, noIDs, .zero 16, .zero 16, Time.ofUnix 1700000100, "bob@gmail.example", "",
    keyOf 2, legible_reply, ?_, ?_, "bob@gmail.example", answer, ⟨[], []⟩, Time.ofUnix 1700000200,
      rfl, rfl, ?_⟩
  · change (msgIDList reply.header "Message-ID").map (fun ids => ids.headD "") = _
    decide
  · decide
  · have hsubject : answer.subject = "Hi" := rfl
    unfold buildMIME
    rw [hsubject, if_neg (by decide)]
    rfl

theorem not_ownHash : ¬ OwnHash runtime "bridge.test" bridgeID := by
  have hhash : Fixed.copy 16 (sha256 (utf8 (Hex.encode bridgeID.val ++ "@" ++ "bridge.test"))) ≠
      bridgeID := by decide
  exact hhash

theorem not_bridge_msgID (id : Fixed 16) :
    "abc123@gmail.example" ≠ Hex.encode id.val ++ "@" ++ "bridge.test" := by
  intro h
  have hend := congrArg (fun s : String => s.toList.reverse.take 4) h
  simp at hend

/-- Neither Bob's answer nor Alice's is linked to what it answers. -/
theorem threading_lost :
    (Replied runtime "alice@bridge.test" message replyRaw ∧
      ¬ ReplyKept runtime noIDs message replyRaw) ∧
      AnsweredMail runtime "alice@bridge.test" "abc123@gmail.example" answerRaw ∧
      ¬ AnswerNames runtime "abc123@gmail.example" answerRaw := by
  refine ⟨⟨replied, ?_⟩, answered, ?_⟩
  · rw [replyKept_iff lawful_mailLibrary graphicASCII dotAtom_domain replied, domainOf_alice]
    exact fun h => not_ownHash h.1
  · rw [answerNames_iff lawful_mailLibrary graphicASCII dotAtom_domain answered, domainOf_alice]
    rintro ⟨id, -, -, hmid⟩
    exact not_bridge_msgID id hmid

/-- The two conditions at these mails. -/
theorem threading_at_alice :
    (ReplyKept runtime noIDs message replyRaw ↔ OwnHash runtime "bridge.test" bridgeID ∧
      threadOf message = bridgeID) ∧
      (AnswerNames runtime "abc123@gmail.example" answerRaw ↔ ∃ id, id ≠ .zero 16 ∧
        OwnHash runtime "bridge.test" id ∧ "abc123@gmail.example" = Hex.encode id.val ++ "@" ++
          "bridge.test") := by
  have h := threading_survives_iff lawful_mailLibrary graphicASCII dotAtom_domain
  rw [domainOf_alice] at h
  have hreply := h.1 noIDs message replyRaw replied
  have hroot : message.replyToID = .zero 16 := rfl
  rw [if_pos hroot] at hreply
  exact ⟨hreply, h.2 _ _ answered⟩

end Correspondence
end Dmcn.Bridge
