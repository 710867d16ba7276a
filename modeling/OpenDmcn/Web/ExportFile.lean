import OpenDmcn.Web.ExportFolder
import OpenDmcn.Web.ExportHeaders
import OpenDmcn.Web.Mbox

/-! The file of an exported folder (`export/entry.ts`, `userAttachments.ts`): the messages that were
opened, each as it is written, and what a program reads of it that reads mbox files and headers. -/

namespace Dmcn.Web.ExportFile

open Go (Bytes Fixed)
open Go.Utf8 (encode)
open Export
open ExportFolder (Render Event Written plain plainFrom opened)
open Mbox (mboxEntry readMbox normal withoutCR linesFrom)
open MailHeader (lf cr colon wsp ftext lines content blank continues headerLines groups fields name
  value Line Whole
  Stands Field)

section Source

variable {L : LowerCase}

def CLASSIFICATION_CONTENT_TYPE : List Char := "application/x-dmcn-bridge-classification".toList
def RECEIPT_CONTENT_TYPE : List Char := "application/x-dmcn-bridge-delivery-receipt".toList

structure Deployment where
  internalAttachmentTypes : List (List Char)
  verifyClassification : Bytes → Option (List Char) → Option BridgeVerdict

def bridgeOriginalIndex : List DecryptedAttachment → Option ℕ
  | first :: second :: _ =>
    if first.contentType = CLASSIFICATION_CONTENT_TYPE ∧
      second.contentType = "message/rfc822".toList ∧
      second.filename = "original.eml".toList then some 1
    else none
  | _ => none

def verifyBridgeAttestation (D : Deployment) (attachments : List DecryptedAttachment)
    (pub : Option (List Char)) :
    Option BridgeVerdict :=
  (attachments.find? fun a => a.contentType == CLASSIFICATION_CONTENT_TYPE).map fun att =>
    (D.verifyClassification att.content pub).getD
      ⟨false, none, none, none, some "verification unavailable".toList⟩

def userAttachments (D : Deployment) (all : List DecryptedAttachment) : List DecryptedAttachment :=
  (all.zipIdx.filter fun a => some a.2 != bridgeOriginalIndex all &&
    !(CLASSIFICATION_CONTENT_TYPE :: RECEIPT_CONTENT_TYPE :: D.internalAttachmentTypes).contains
      a.1.contentType).map Prod.fst

structure FullBody where
  bodyText : List Char
  htmlBody : Option (List Char)
  attachments : List DecryptedAttachment
  replyToId : Option (List Char)
  row : Option Preview

structure MessageState where
  read : Bool
  starred : Bool
  labels : List (List Char)
  place : Option (List Char)

/-- The ids that messages are exported under, each of an email or made for the export. -/
structure Ids (L : LowerCase) where
  get : List Char → Option (List Char)
  made : ∀ key id, get key = some id → (∃ original, originalMessageId L original = some id) ∨
    ∃ hex senderAddress, hex.all isHex = true ∧ id = exportMessageId L hex senderAddress

def Ids.note (ids : Ids L) (row : Preview) (original : Bytes) : Ids L where
  get key :=
    if row.messageId ≠ [] ∧ key = L.toLowerCase row.messageId then (originalMessageId L original).or
      (ids.get key)
    else ids.get key
  made key id h := by
    split at h
    · rcases Option.or_eq_some_iff.mp h with h | ⟨-, h⟩
      · exact .inl ⟨original, h⟩
      · exact ids.made key id h
    · exact ids.made key id h

/-- A message that was opened, in the list and the state it is in, and what is drawn when it is
written. -/
structure Message where
  listed : Preview
  full : FullBody
  sent : Bool
  state : MessageState
  draws : ℕ → Fixed 12

namespace Message

def row (m : Message) : Preview := m.full.row.getD m.listed

def original (m : Message) : Option Bytes :=
  (bridgeOriginalIndex m.full.attachments).bind fun i =>
    m.full.attachments[i]?.map DecryptedAttachment.content

def bridge (D : Deployment) (m : Message) : Option BridgeVerdict :=
  m.original.bind fun _ => verifyBridgeAttestation D m.full.attachments
    (if m.row.senderPublicKey = [] then none else some m.row.senderPublicKey)

def item (D : Deployment) (m : Message) (ids : Ids L) : ExportItem L where
  row := m.row
  replyToId := m.full.replyToId.getD []
  text := m.full.bodyText
  html := m.full.htmlBody
  attachments := userAttachments D m.full.attachments
  original := m.original
  bridge := m.bridge D
  sent := m.sent
  read := m.state.read
  starred := m.state.starred
  labels := m.state.labels
  place := m.state.place
  ids := ids.get
  ids_made := ids.made

def noted (m : Message) (ids : Ids L) : Ids L :=
  match m.original with
  | some original => ids.note m.row original
  | none => ids

def boundary (m : Message) (n : ℕ) : List Char := randomBoundary (m.draws n)

end Message

def exportEntry (D : Deployment) (m : Message) : Render (Ids L) := fun ids =>
  (mboxEntry (m.row.senderAddress.flatMap Js.units) m.row.sentAt
    (renderMessage (m.item D (m.noted ids)) m.boundary), m.noted ids)

end Source

section UnixLines

def text (line : Bytes) : Bytes := if line.getLast? = some lf then withoutCR line.dropLast else line

def unix (line : Bytes) : Bytes := text line ++ [lf]

theorem linesFrom_end {start : Bytes} (h : lf ∉ start) (line : Bytes) :
    linesFrom line (start ++ [lf]) = [withoutCR (line ++ start)] := by
  induction start generalizing line with
  | nil =>
    rw [List.append_nil]
    rfl
  | cons x start ih =>
    obtain ⟨hx, hstart⟩ := List.ne_and_not_mem_of_not_mem_cons h
    have hne : x ≠ Mbox.lf := Ne.symm hx
    rw [List.cons_append, linesFrom, if_neg hne, ih hstart, List.append_assoc]
    rfl

theorem linesFrom_open {start line : Bytes} (h : lf ∉ start) (hne : line ++ start ≠ []) :
    linesFrom line start = [line ++ start] := by
  induction start generalizing line with
  | nil =>
    rw [List.append_nil] at hne ⊢
    exact if_neg hne
  | cons x start ih =>
    obtain ⟨hx, hstart⟩ := List.ne_and_not_mem_of_not_mem_cons h
    have hmore : line ++ [x] ++ start = line ++ x :: start := by rw [List.append_assoc]; rfl
    have hother : x ≠ Mbox.lf := Ne.symm hx
    rw [linesFrom, if_neg hother, ih hstart (by rw [hmore]; exact hne), hmore]

variable {line : Bytes}

theorem lf_notMem_text (h : Line line) : lf ∉ text line := by
  unfold text
  split
  · unfold withoutCR
    split
    · exact fun hmem => h.one (List.mem_of_mem_dropLast hmem)
    · exact h.one
  · next hopen =>
    intro hmem
    rw [← List.dropLast_append_getLast h.ne_nil] at hmem
    rcases List.mem_append.mp hmem with hmem | hmem
    · exact h.one hmem
    · exact hopen (by rw [List.getLast?_eq_some_getLast h.ne_nil, ← List.mem_singleton.mp hmem])

theorem linesFrom_line (h : Line line) : linesFrom [] line = [text line] := by
  have hfree := lf_notMem_text h
  unfold text at hfree ⊢
  split
  · next hwhole =>
    obtain ⟨start, rfl⟩ := List.getLast?_eq_some_iff.mp hwhole
    have hone := h.one
    rw [List.dropLast_concat] at hone ⊢
    exact linesFrom_end hone []
  · next hopen =>
    rw [if_neg hopen] at hfree
    exact linesFrom_open hfree h.ne_nil

theorem normal_flatten {ls : List Bytes} (hlines : ∀ line ∈ ls, Line line)
    (hwhole : ls.Pairwise fun line _ => Whole line) : normal ls.flatten =
    (ls.map unix).flatten := by
  have hall : linesFrom [] ls.flatten = ls.map text := by
    induction ls with
    | nil => rfl
    | cons line ls ih =>
      obtain ⟨hline, hrest⟩ := List.forall_mem_cons.mp hlines
      obtain ⟨hfirst, hlater⟩ := List.pairwise_cons.mp hwhole
      rw [List.flatten_cons, List.map_cons]
      cases ls with
      | nil => rw [List.flatten_nil, List.append_nil, linesFrom_line hline, List.map_nil]
      | cons next ls =>
        rw [Mbox.linesFrom_append (hfirst next List.mem_cons_self), linesFrom_line hline,
          ih hrest hlater]
        rfl
  have hnormal := Mbox.flatMap_linesFrom List.not_mem_nil ls.flatten
  rw [List.nil_append, hall, List.flatMap_map] at hnormal
  rw [← hnormal, List.flatMap_def]
  rfl

theorem line_unix (h : Line line) : Line (unix line) :=
  ⟨List.append_ne_nil_of_right_ne_nil _ (List.cons_ne_nil _ _), by
    rw [unix, List.dropLast_concat]
    exact lf_notMem_text h⟩

theorem whole_unix (line : Bytes) : Whole (unix line) := List.getLast?_concat

theorem content_concat (t : Bytes) : content (t ++ [lf]) = withoutCR t := by
  unfold content
  rw [List.getLast?_concat, if_pos rfl, List.dropLast_concat]
  rfl

theorem content_unix (line : Bytes) :
    content (unix line) = content line ∨ content line = content (unix line) ++ [cr] := by
  unfold unix
  rw [content_concat]
  unfold text
  split
  · next hwhole =>
    have hcontent : content line = withoutCR line.dropLast := by
      unfold content
      rw [if_pos hwhole]
      rfl
    rw [← hcontent]
    unfold withoutCR
    split
    · next hlast =>
      obtain ⟨start, hstart⟩ := List.getLast?_eq_some_iff.mp hlast
      rw [hstart, List.dropLast_concat]
      exact .inr rfl
    · exact .inl rfl
  · next hopen =>
    refine .inl ?_
    unfold content
    rw [if_neg hopen]
    rfl

theorem content_unix_of_stands (h : Stands line) :
    content (unix line) = content line := by
  rcases content_unix line with hsame | hmore
  · exact hsame
  · exact absurd (by rw [hmore, List.getLast?_concat]) h.bare

theorem blank_unix (h : blank line = true) : blank (unix line) = true := by
  have hnil : content line = [] := beq_iff_eq.mp h
  refine beq_iff_eq.mpr ?_
  rcases content_unix line with hsame | hmore
  · exact hsame.trans hnil
  · rw [hnil] at hmore
    exact absurd hmore.symm (List.append_ne_nil_of_right_ne_nil _ (List.cons_ne_nil _ _))

theorem continues_unix (h : blank (unix line) = false) : continues
    (unix line) = continues line := by
  have hprefix : text line <+: line := by
    have hcut : ∀ t : Bytes, withoutCR t <+: t := by
      intro t
      unfold withoutCR
      split
      · exact List.dropLast_prefix t
      · exact List.prefix_rfl
    unfold text
    split
    · exact (hcut _).trans (List.dropLast_prefix line)
    · exact List.prefix_rfl
  obtain ⟨rest, hrest⟩ := hprefix
  cases htext : text line with
  | nil =>
    have hblank : blank (unix line) = true := by
      unfold unix
      rw [htext]
      rfl
    exact absurd (hblank.symm.trans h) Bool.noConfusion
  | cons b t =>
    rw [htext] at hrest
    unfold continues unix
    rw [htext, ← hrest]
    rfl

end UnixLines

section Fields

variable {L : LowerCase} {original : Bytes}

theorem blank_unix_of_stands {line : Bytes} (h : Stands line) : blank (unix line) = false := by
  unfold blank
  rw [content_unix_of_stands h]
  exact h.full

theorem field_unix {f : List Bytes} (h : Field f) (hstands : ∀ line ∈ f, Stands line) :
    Field (f.map unix) := by
  obtain ⟨line, more, rfl, hline, hmore⟩ := h.starts
  obtain ⟨hfirst, hrest⟩ := List.forall_mem_cons.mp hstands
  refine ⟨⟨unix line, more.map unix, rfl, ?_, fun next hnext => ?_⟩, fun l hl => ?_⟩
  · rw [continues_unix (blank_unix_of_stands hfirst)]
    exact hline
  · obtain ⟨l, hl, rfl⟩ := List.mem_map.mp hnext
    rw [continues_unix (blank_unix_of_stands (hrest l hl))]
    exact hmore l hl
  · obtain ⟨k, hk, rfl⟩ := List.mem_map.mp hl
    exact blank_unix_of_stands (hstands k hk)

theorem read_unix {f : List Bytes} (h : Field f) (hstands : ∀ line ∈ f, Stands line) :
    read (f.map unix) = read f := by
  obtain ⟨line, more, rfl, -, -⟩ := h.starts
  obtain ⟨hfirst, hrest⟩ := List.forall_mem_cons.mp hstands
  have hname : name ((line :: more).map unix) = name (line :: more) := by
    unfold name
    rw [List.map_cons, List.headD_cons, List.headD_cons, content_unix_of_stands hfirst]
  have hvalue : value ((line :: more).map unix) = value (line :: more) := by
    rw [List.map_cons, value, value, content_unix_of_stands hfirst, List.flatMap_map]
    refine congrArg (_ ++ ·) (List.flatMap_congr fun l hl => ?_)
    exact content_unix_of_stands (hrest l hl)
  exact Prod.ext hname hvalue

theorem fields_normal {top : List (List Bytes)} {rest : List Bytes} (h : Begins top rest) :
    (∀ g ∈ groups ((rest.map unix).takeWhile (!blank ·)), Field g) ∧
      fields (normal (top.flatten ++ rest).flatten) =
        top.map (List.map unix) ++ groups ((rest.map unix).takeWhile (!blank ·)) := by
  have hline : ∀ line ∈ (top.flatten ++ rest).map unix, Line line := by
    intro line hline
    obtain ⟨l, hl, rfl⟩ := List.mem_map.mp hline
    exact line_unix (h.line l hl)
  have hwhole : ((top.flatten ++ rest).map unix).Pairwise fun line _ => Whole line := by
    refine List.pairwise_of_forall_mem_list fun line hline _ _ => ?_
    obtain ⟨l, -, rfl⟩ := List.mem_map.mp hline
    exact whole_unix l
  have htop : ∀ line ∈ top.flatten.map unix, (!blank line) = true := by
    intro line hline
    obtain ⟨l, hl, rfl⟩ := List.mem_map.mp hline
    rw [blank_unix_of_stands (h.stands l hl)]
    rfl
  have hfull : ∀ line ∈ (rest.map unix).takeWhile (!blank ·), blank line = false := by
    intro line hline
    have hpos := List.mem_takeWhile_imp hline
    simpa using hpos
  have hhead : ∀ line ∈ ((rest.map unix).takeWhile (!blank ·)).head?, continues line = false := by
    intro line hline
    have hmem := hfull line (List.mem_of_mem_head? hline)
    cases rest with
    | nil => cases hline
    | cons first rest =>
      have hfirst : line = unix first := by
        rw [List.map_cons] at hline
        by_cases hblank : (!blank (unix first)) = true
        · rw [List.takeWhile_cons_of_pos (p := (!blank ·)) hblank] at hline
          exact (Option.some.inj hline).symm
        · rw [List.takeWhile_cons_of_neg (p := (!blank ·)) hblank] at hline
          cases hline
      rw [hfirst] at hmem ⊢
      rw [continues_unix hmem]
      exact h.head first rfl
  have hgroups := MailHeader.field_groups hfull hhead
  have hfields : ∀ f ∈ top.map (List.map unix), Field f := by
    intro f hf
    obtain ⟨g, hg, rfl⟩ := List.mem_map.mp hf
    exact field_unix (h.fields g hg) fun line hline =>
      h.stands line (List.mem_flatten.mpr ⟨g, hg, hline⟩)
  have hheader : headerLines ((top.flatten ++ rest).map unix).flatten =
      top.flatten.map unix ++ (rest.map unix).takeWhile (!blank ·) := by
    rw [headerLines, MailHeader.lines_flatten hline hwhole, List.map_append,
      List.takeWhile_append_of_pos htop]
  refine ⟨hgroups, ?_⟩
  rw [normal_flatten h.line h.pairwise, fields, hheader, List.map_flatten]
  have hall := MailHeader.groups_flatten (List.forall_mem_append.mpr ⟨hfields, hgroups⟩)
  rwa [List.flatten_append, MailHeader.flatten_groups] at hall

theorem map_read_unix {top : List (List Bytes)} {rest : List Bytes} (h : Begins top rest) :
    (top.map (List.map unix)).map read = top.map read := by
  rw [List.map_map]
  refine List.map_congr_left fun f hf => ?_
  exact read_unix (h.fields f hf) fun line hline =>
    h.stands line (List.mem_flatten.mpr ⟨f, hf, hline⟩)

def nameIn (line : Bytes) : Option Bytes :=
  if line.takeWhile ftext ≠ [] ∧ ((line.dropWhile ftext).dropWhile wsp).head? = some colon then
    some (line.takeWhile ftext)
  else none

theorem dropWhile_concat {p : UInt8 → Bool} (h : p cr = false) (line : Bytes) :
    (line ++ [cr]).dropWhile p = line.dropWhile p ++ [cr] := by
  induction line with
  | nil => exact List.dropWhile_cons_of_neg (by rw [h]; exact Bool.false_ne_true)
  | cons b line ih =>
    rw [List.cons_append, List.dropWhile_cons, List.dropWhile_cons]
    split
    · exact ih
    · rfl

theorem takeWhile_concat {p : UInt8 → Bool} (h : p cr = false) (line : Bytes) :
    (line ++ [cr]).takeWhile p = line.takeWhile p := by
  induction line with
  | nil => exact List.takeWhile_cons_of_neg (by rw [h]; exact Bool.false_ne_true)
  | cons b line ih =>
    rw [List.cons_append, List.takeWhile_cons, List.takeWhile_cons, ih]

theorem nameIn_concat (line : Bytes) : nameIn (line ++ [cr]) = nameIn line := by
  have hcolon : ∀ t : Bytes, (t ++ [cr]).head? = some colon ↔ t.head? = some colon := by
    intro t
    cases t with
    | nil => exact iff_of_false (by decide) (by decide)
    | cons b t => exact Iff.rfl
  unfold nameIn
  rw [takeWhile_concat rfl, dropWhile_concat rfl, dropWhile_concat rfl]
  simp only [hcolon]

theorem name_unix (line : Bytes) (more rest : List Bytes) : name (unix line :: more) = name
    (line :: rest) := by
  have hname : ∀ (l : Bytes) (ls : List Bytes), name (l :: ls) = nameIn (content l) :=
    fun l ls => rfl
  rw [hname, hname]
  rcases content_unix line with hsame | hmore
  · rw [hsame]
  · rw [hmore, nameIn_concat]

theorem mem_of_mem_takeWhile_append {p : Bytes → Bool} {front rest : List Bytes} {line : Bytes}
    (h : line ∈ (front ++ rest).takeWhile p) (hrest : ∀ l ∈ rest.head?, p l = false) :
    line ∈ front := by
  induction front with
  | nil =>
    cases rest with
    | nil => exact absurd h List.not_mem_nil
    | cons first rest =>
      rw [List.nil_append,
        List.takeWhile_cons_of_neg (by rw [hrest first rfl]; exact Bool.false_ne_true)] at h
      exact absurd h List.not_mem_nil
  | cons first front ih =>
    rw [List.cons_append, List.takeWhile_cons] at h
    split at h
    · rcases List.mem_cons.mp h with rfl | h
      · exact List.mem_cons_self
      · exact List.mem_cons_of_mem first (ih h)
    · exact absurd h List.not_mem_nil

theorem notOwn_unix (hstart : ∀ b ∈ original.head?, wsp b = false) :
    ∀ g ∈ groups ((((kept original).flatten ++ tailOf original).map unix).takeWhile (!blank ·)),
      Field g → isOwn g = false := by
  intro g hg hfield
  obtain ⟨line, more, rfl, hline, -⟩ := hfield.starts
  have hfull := hfield.full line List.mem_cons_self
  have hmem : line ∈ (((kept original).flatten ++ tailOf original).map unix).takeWhile
      (!blank ·) := by
    rw [← MailHeader.flatten_groups (List.takeWhile _ _)]
    exact List.mem_flatten.mpr ⟨_, hg, List.mem_cons_self⟩
  have htail : ∀ l ∈ ((tailOf original).map unix).head?, (!blank l) = false := by
    intro l hl
    rw [List.head?_map] at hl
    obtain ⟨k, hk, rfl⟩ := Option.map_eq_some_iff.mp hl
    rw [blank_unix (head_tailOf original k hk)]
    rfl
  rw [List.map_append] at hmem
  obtain ⟨k, hk, rfl⟩ := List.mem_map.mp (mem_of_mem_takeWhile_append hmem htail)
  obtain ⟨f, hf, hkf⟩ := List.mem_flatten.mp hk
  obtain ⟨first, others, rfl, -, hothers⟩ :=
    (fields_of_starts hstart f (List.mem_filter.mp hf).1).starts
  have hfirst : k = first := by
    rcases List.mem_cons.mp hkf with hkf | hkf
    · exact hkf
    · rw [continues_unix hfull, hothers k hkf] at hline
      exact absurd hline Bool.noConfusion
  rw [hfirst]
  unfold isOwn
  rw [name_unix first more others]
  exact notOwn_of_kept hf

theorem continues_of_blank {line : Bytes} (h : blank line = true) : continues line = false := by
  have hnil : content line = [] := beq_iff_eq.mp h
  refine Bool.eq_false_iff.mpr fun hgoes => ?_
  obtain ⟨b, hb, hwsp⟩ := (Option.any_eq_true _ _).mp hgoes
  have hhead := content_ne_nil hb hwsp
  rw [hnil] at hhead
  cases hhead

theorem begins_bridged (hstart : ∀ b ∈ original.head?, wsp b = false) {top : List (List Bytes)}
    (hfields : ∀ f ∈ top, Field f) (hstands : ∀ line ∈ top.flatten, Stands line) :
    Begins top ((kept original).flatten ++ tailOf original) := by
  obtain ⟨hlines, hwhole⟩ := lines_spliced hstands (kept_sublist original)
  rw [List.flatten_append, List.append_assoc] at hlines hwhole
  have hkept : ∀ f ∈ kept original, Field f :=
    fun f hf => fields_of_starts hstart f (List.mem_filter.mp hf).1
  refine ⟨hfields, hstands, fun line hline => hlines line (List.mem_append_right _ hline),
    (List.pairwise_append.mp hwhole).2.1, fun line hline => ?_⟩
  cases hflat : (kept original).flatten with
  | nil =>
    rw [hflat] at hline
    exact continues_of_blank (head_tailOf original line hline)
  | cons first rest =>
    rw [hflat] at hline
    apply MailHeader.head_flatten hkept
    rw [hflat]
    exact hline

structure Shows (D : Deployment) (m : Message) (ids : Ids L) (out : Bytes) : Prop where
  native : m.original = none →
    (fields out).map read = (emitted (m.item D ids) m.boundary).map Header.asRead
  bridged : ∀ original, m.original = some original → (∀ b ∈ original.head?, wsp b = false) →
    ((fields out).filter isOwn).map read = (above (m.item D ids)).map Header.asRead

theorem shows_normal (D : Deployment) (m : Message) (ids : Ids L) :
    Shows D m ids (normal (renderMessage (m.item D ids) m.boundary).flatten) := by
  constructor
  · intro hnative
    obtain ⟨top, rest, hbegins, hblank, hread, hbytes⟩ :=
      begins_native (m.item D ids) m.draws hnative
    obtain ⟨-, hfields⟩ := fields_normal hbegins
    have hnone : (rest.map unix).takeWhile (!blank ·) = [] := by
      cases rest with
      | nil => rfl
      | cons first rest =>
        have hfirst := blank_unix (hblank first rfl)
        exact List.takeWhile_cons_of_neg (by rw [hfirst]; exact Bool.false_ne_true)
    have hboundary : m.boundary = fun n => randomBoundary (m.draws n) := rfl
    rw [hboundary, hbytes, hfields, hnone, ← hread, ← map_read_unix hbegins]
    exact congrArg (List.map read) (List.append_nil _)
  · intro original horiginal hstart
    obtain ⟨top, htop, hstands, hflat, hread⟩ := fields_of_written (written_above (m.item D ids))
    have hitem : (m.item D ids).original = some original := horiginal
    have hsame : (top ++ kept original).flatten ++ tailOf original =
        top.flatten ++ ((kept original).flatten ++ tailOf original) := by
      rw [List.flatten_append, List.append_assoc]
    have hbytes : (renderMessage (m.item D ids) m.boundary).flatten =
        (top.flatten ++ ((kept original).flatten ++ tailOf original)).flatten := by
      unfold renderMessage
      rw [hitem, ← hsame]
      exact spliced_eq hflat
    have hbegins := begins_bridged hstart htop hstands
    obtain ⟨hgroups, hfields⟩ := fields_normal hbegins
    have hunix := (map_read_unix hbegins).trans hread
    have hown := own_of_read hunix
    have hnone :
        ∀ g ∈ groups ((((kept original).flatten ++ tailOf original).map unix).takeWhile (!blank ·)),
        ¬ isOwn g = true := by
      intro g hg
      rw [notOwn_unix hstart g hg (hgroups g hg)]
      exact Bool.false_ne_true
    rw [hbytes, hfields, List.filter_append, List.filter_eq_self.mpr hown,
      List.filter_eq_nil_iff.mpr hnone, List.append_nil, hunix]

end Fields

section Runs

variable {T : Type} {L : LowerCase} (D : Deployment) (opens : ℕ → ℕ → Option Message)

def openedAt (j : ℕ) : Option Message := (List.range ExportFolder.ATTEMPTS).findSome? fun k =>
  opens j (k + 1)

def answers (j k : ℕ) : Option (Render (Ids L)) := (opens j k).map (exportEntry D)

def written (ids : Ids L) : List Message → List (Message × Ids L)
  | [] => []
  | m :: ms => (m, m.noted ids) :: written (m.noted ids) ms

variable {D opens}

theorem opened_answers (j : ℕ) :
    opened (answers (L := L) D opens) j = (openedAt opens j).map (exportEntry D) := by
  unfold opened openedAt answers
  induction List.range ExportFolder.ATTEMPTS with
  | nil => rfl
  | cons k ks ih =>
    rw [List.findSome?_cons, List.findSome?_cons]
    cases opens j (k + 1) with
    | none => exact ih
    | some m => rfl

def exported (D : Deployment) (p : Message × Ids L) : Mbox.Exported :=
  ⟨p.1.row.senderAddress.flatMap Js.units, p.1.row.sentAt,
    renderMessage (p.1.item D p.2) p.1.boundary⟩

theorem foldl_put (chunks : List Bytes) (w : Written T (Ids L)) :
    chunks.foldl Written.put w =
      { w with
        file := w.file ++ chunks
        result := { w.result with bytes := w.result.bytes + chunks.flatten.length } } := by
  induction chunks generalizing w with
  | nil => rw [List.foldl_nil, List.append_nil, List.flatten_nil, List.length_nil, Nat.add_zero]
  | cons chunk chunks ih =>
    rw [List.foldl_cons, ih, List.flatten_cons, List.length_append, ← Nat.add_assoc]
    simp only [Written.put, List.append_assoc, List.singleton_append]

structure Filed (D : Deployment) (opens : ℕ → ℕ → Option Message) (w w' : Written T (Ids L))
    (j n : ℕ) : Prop where
  file : w'.file.flatten = w.file.flatten ++
    Mbox.mbox ((written w.kept ((List.range' j n).filterMap (openedAt opens))).map (exported D))
  count : w'.result.written + w'.result.skipped.length = w.result.written +
    w.result.skipped.length + n
  bytes : w.result.bytes = w.file.flatten.length → w'.result.bytes = w'.file.flatten.length

theorem Filed.refl (w : Written T (Ids L)) (j : ℕ) : Filed D opens w w j 0 :=
  ⟨(List.append_nil _).symm, rfl, fun h => h⟩

theorem Filed.cons {w w' : Written T (Ids L)} {j n : ℕ} {item : T}
    (h : Filed D opens (w.add item (opened (answers D opens) j)) w' (j + 1) n) :
    Filed D opens w w' j (n + 1) := by
  rw [opened_answers] at h
  cases hopened : openedAt opens j with
  | none =>
    rw [hopened, Option.map_none] at h
    refine ⟨?_, ?_, h.bytes⟩
    · rw [List.range'_succ, List.filterMap_cons_none hopened]
      exact h.file
    · have hcount := h.count
      simp only [Written.add, Written.skip, List.length_append, List.length_singleton] at hcount
      omega
  | some m =>
    rw [hopened, Option.map_some] at h
    obtain ⟨hfile, hcount, hbytes⟩ := h
    simp only [Written.add, foldl_put, Written.one] at hfile hcount hbytes
    refine ⟨?_, by omega, fun h => hbytes ?_⟩
    · have hentry : (exportEntry D m w.kept).1.flatten =
          (mboxEntry (exported D (m, m.noted w.kept)).sender (exported D (m, m.noted w.kept)).sec
            (exported D (m, m.noted w.kept)).message).flatten := rfl
      rw [hfile, List.range'_succ, List.filterMap_cons_some hopened, written, List.map_cons,
        Mbox.mbox, Mbox.mbox, List.flatMap_cons, List.flatten_append, List.flatten_append, hentry,
          List.append_assoc]
      rfl
    · rw [h, List.flatten_append, List.length_append]

theorem filed_plainFrom (items : List T) (w : Written T (Ids L)) (j : ℕ) :
    ∃ n, n ≤ items.length ∧ ((plainFrom (answers D opens) w j items).2 = .done → n = items.length) ∧
      Filed D opens w (plainFrom (answers D opens) w j items).1 j n := by
  induction items generalizing w j with
  | nil => exact ⟨0, Nat.le_refl 0, fun _ => rfl, .refl w j⟩
  | cons item items ih =>
    unfold plainFrom
    dsimp only
    split
    · exact ⟨1, Nat.succ_le_succ (Nat.zero_le _), fun h => ExportFolder.Outcome.noConfusion h,
        .cons (.refl _ _)⟩
    · obtain ⟨n, hn, hdone, hfiled⟩ := ih (w.add item (opened (answers D opens) j)) (j + 1)
      exact ⟨n + 1, Nat.succ_le_succ hn, fun h => congrArg Nat.succ (hdone h), hfiled.cons⟩

theorem readMbox_mbox (es : List Mbox.Exported) :
    readMbox (Mbox.mbox es) = es.map fun e => normal e.message.flatten := by
  have hclean : ∀ l ∈ es.flatMap Mbox.entryLines, lf ∉ l := by
    intro l hl
    obtain ⟨e, -, hl⟩ := List.mem_flatMap.mp hl
    exact Mbox.notMem_entryLines e l hl
  have hlines := Mbox.fileLinesFrom_lines hclean []
  rw [List.append_nil] at hlines
  unfold readMbox
  rw [Mbox.mbox_eq, hlines, Mbox.fileLinesFrom, if_pos rfl, List.append_nil, Mbox.split_entries,
    List.map_map]
  exact List.map_congr_left fun e _ => Mbox.readMessage_quote e.message.flatten

theorem shows_written (D : Deployment) (ids : Ids L) (ms : List Message) :
    List.Forall₂ (fun p out => Shows D p.1 p.2 out) (written ids ms)
      (((written ids ms).map (exported D)).map fun e => normal e.message.flatten) := by
  induction ms generalizing ids with
  | nil => exact .nil
  | cons m ms ih => exact .cons (shows_normal D m (m.noted ids)) (ih (m.noted ids))

end Runs

/-- However the messages of a folder come in, and whether the export comes to its end, stalls or is
aborted, the file holds those that opened of the first so many, in order: a program that reads it
finds one message for each of them, and in each the fields that the export wrote. -/
theorem exported_file_reads_back {T : Type} {L : LowerCase} (D : Deployment)
    (opens : ℕ → ℕ → Option Message) (items : List T) (ids : Ids L) (es : List Event)
    {s : ExportFolder.State T (Ids L)} {o : ExportFolder.Outcome}
    (hrun : Machine.run (ExportFolder.step items (answers D opens)) (.start ids) es = s)
    (hover : s.phase = .ended o) (hwrites : o ≠ .failed) :
    ∃ n ≤ items.length, (o = .done → n = items.length) ∧
      s.out.result.written + s.out.result.skipped.length = n ∧
      s.out.result.bytes = s.out.file.flatten.length ∧
      List.Forall₂ (fun p out => Shows D p.1 p.2 out)
      (written ids ((List.range n).filterMap (openedAt opens)))
        (readMbox s.out.file.flatten) := by
  have hinv : ExportFolder.Inv items (answers D opens) ids s := hrun ▸ ExportFolder.Inv.start.run es
  have hplain := hinv.asPlain
  have hspec : ∀ (front : List T) (o' : ExportFolder.Outcome), front.length ≤ items.length →
      (o = .done → o' = .done ∧ front = items) → plain front (answers D opens) ids = (s.out, o') →
      ∃ n ≤ items.length, (o = .done → n = items.length) ∧
        Filed D opens (.start ids) s.out 0 n := by
    intro front o' hfront hsame h
    obtain ⟨n, hn, hdone, hfiled⟩ := @filed_plainFrom T L D opens front (.start ids) 0
    unfold plain at h
    rw [h] at hdone hfiled
    refine ⟨n, hn.trans hfront, fun ho => ?_, hfiled⟩
    obtain ⟨ho', rfl⟩ := hsame ho
    exact hdone ho'
  obtain ⟨n, hn, hdone, hfiled⟩ : ∃ n ≤ items.length, (o = .done → n = items.length) ∧
      Filed D opens (.start ids) s.out 0 n := by
    cases o with
    | done =>
      exact hspec items .done le_rfl (fun _ => ⟨rfl, rfl⟩) (hplain.ends .done hover (.inl rfl))
    | stalled =>
      exact hspec items .stalled le_rfl (fun h => ExportFolder.Outcome.noConfusion h)
        (hplain.ends .stalled hover (.inr rfl))
    | aborted =>
      have hlength : (items.take s.i).length ≤ items.length := (List.take_sublist _ _).length_le
      exact hspec (items.take s.i) .done hlength (fun h => ExportFolder.Outcome.noConfusion h)
        (hplain.whole hover)
    | failed => exact absurd rfl hwrites
  have hfile := hfiled.file
  rw [← List.range_eq_range'] at hfile
  have hstart : (Written.start ids : Written T (Ids L)).file.flatten = [] := rfl
  have hkept : (Written.start ids : Written T (Ids L)).kept = ids := rfl
  rw [hstart, hkept, List.nil_append] at hfile
  refine ⟨n, hn, hdone, hfiled.count.trans (Nat.zero_add n), hfiled.bytes rfl, ?_⟩
  rw [hfile, readMbox_mbox]
  exact shows_written D ids _

def plainDeployment : Deployment := ⟨[], fun _ _ => none⟩

def letter : Message :=
  ⟨someone, ⟨"hi".toList, none, [], none, none⟩, false, ⟨true, false, [], none⟩, fun _ => zeros⟩

theorem made_of_none (L : LowerCase) (_ id : List Char)
    (h : (none : Option (List Char)) = some id) :
    (∃ original, originalMessageId L original = some id) ∨
      ∃ hex senderAddress, hex.all isHex = true ∧ id = exportMessageId L hex senderAddress :=
  absurd h.symm (Option.some_ne_none id)

def noIds : Ids asciiLower := ⟨fun _ => none, made_of_none asciiLower⟩

def second (_ : ℕ) (k : ℕ) : Option Message := if k = 2 then some letter else none

def delivered : ExportFolder.State Unit (Ids asciiLower) :=
  Machine.run (ExportFolder.step [()] (answers plainDeployment second)) (.start noIds)
    [.turn, .answer 0, .wake 0, .answer 0, .turn, .turn, .turn, .turn, .turn, .turn]

theorem exported_file_reads_back_letter : ∃ n ≤ 1, (ExportFolder.Outcome.done = .done → n = 1) ∧
    delivered.out.result.written + delivered.out.result.skipped.length = n ∧
    delivered.out.result.bytes = delivered.out.file.flatten.length ∧
    List.Forall₂ (fun p out => Shows plainDeployment p.1 p.2 out)
      (written noIds ((List.range n).filterMap (openedAt second)))
      (readMbox delivered.out.file.flatten) :=
  exported_file_reads_back plainDeployment second [()] noIds _ rfl
    (show delivered.phase = .ended .done from rfl)
    (by decide)

end Dmcn.Web.ExportFile
