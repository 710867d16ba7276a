import OpenDmcn.Lib.Base64
import OpenDmcn.Lib.Hex
import OpenDmcn.Lib.Requests
import Mathlib.Data.List.AList

/-! Drafts in the owner's personal storage (`api/draftStore.ts`, `api/personalStore.ts` and the
relay's `personalkv_store.go`). A draft is a row, a body and a record for each attachment, which are
got, put and deleted one at a time; the row and the body are put by compare-and-swap. -/

namespace Dmcn.Web.Drafts

open Go (Bytes)
open Requests

structure ComposeReplyTo where
  to' : List String
  cc : Option (List String)
  subject : String
  sentTo : Option (List String)
  quote : Option String
  quoteHtml : Option String
  replyToId : Option String
  threadId : Option String
  deriving DecidableEq

structure AttachmentInput where
  attachmentId : Bytes
  filename : String
  contentType : String
  sizeBytes : ℕ
  contentHash : Bytes
  content : Bytes
  contentId : Option String
  disposition : Option String
  deriving DecidableEq

structure Pending where
  to' : String
  cc : String
  bcc : String
  deriving DecidableEq

structure DraftContent where
  from' : String
  to' : List String
  cc : List String
  bcc : List String
  pending : Pending
  showCcBcc : Bool
  subject : String
  rich : Bool
  text : String
  html : String
  replyTo : Option ComposeReplyTo
  attachments : List AttachmentInput
  deriving DecidableEq

/-- The storage versions a save was based on (0 = not stored yet), and which attachments are
stored. -/
structure DraftBase where
  head : ℕ
  body : ℕ
  atts : List String
  deriving DecidableEq

def NEW_DRAFT_BASE : DraftBase := ⟨0, 0, []⟩

structure LoadedDraft where
  content : DraftContent
  base : DraftBase
  updatedAt : ℕ
  deriving DecidableEq

structure StoredAttachment where
  id : String
  filename : String
  contentType : String
  sizeBytes : ℕ
  contentHash : String
  contentId : Option String
  disposition : Option String
  deriving DecidableEq

structure StoredHead where
  from' : String
  to' : List String
  cc : List String
  bcc : List String
  subject : String
  updatedAt : ℕ
  attachments : List StoredAttachment
  deriving DecidableEq

structure StoredBody where
  pending : Pending
  showCcBcc : Bool
  rich : Bool
  text : String
  html : String
  replyTo : Option ComposeReplyTo
  deriving DecidableEq

section Encoding

def toHex (bytes : Bytes) : String := Go.Hex.encode bytes

def fromHex (hex : String) : Bytes := (Go.Hex.decode hex).getD []

def toBase64 (bytes : Bytes) : String := String.ofList (Go.Base64.encode bytes)

def fromBase64 (b64 : String) : Bytes := (Go.Base64.decode b64.toList).getD []

@[simp] theorem fromHex_toHex (bytes : Bytes) : fromHex (toHex bytes) = bytes := by
  unfold fromHex toHex
  rw [Go.Hex.decode_encode, Option.getD_some]

@[simp] theorem fromBase64_toBase64 (bytes : Bytes) : fromBase64 (toBase64 bytes) = bytes := by
  unfold fromBase64 toBase64
  rw [String.toList_ofList, Go.Base64.decode_encode, Option.getD_some]

def truthy (s : Option String) : Option String := s.filter fun s => s ≠ ""

def storedAttachment (a : AttachmentInput) : StoredAttachment where
  id := toHex a.attachmentId
  filename := a.filename
  contentType := a.contentType
  sizeBytes := a.sizeBytes
  contentHash := toBase64 a.contentHash
  contentId := truthy a.contentId
  disposition := truthy a.disposition

def StoredAttachment.load (a : StoredAttachment) (content : String) : AttachmentInput where
  attachmentId := fromHex a.id
  filename := a.filename
  contentType := a.contentType
  sizeBytes := a.sizeBytes
  contentHash := fromBase64 a.contentHash
  content := fromBase64 content
  contentId := truthy a.contentId
  disposition := truthy a.disposition

def DraftContent.body (content : DraftContent) : StoredBody :=
  ⟨content.pending, content.showCcBcc, content.rich, content.text, content.html, content.replyTo⟩

def DraftContent.head (content : DraftContent) (updatedAt : ℕ) : StoredHead :=
  ⟨content.from', content.to', content.cc, content.bcc, content.subject, updatedAt,
    content.attachments.map storedAttachment⟩

end Encoding

section Collections

variable {κ ν : Type} [DecidableEq κ]

def setEntry (m : List (κ × ν)) (k : κ) (v : ν) : List (κ × ν) :=
  if k ∈ m.map Prod.fst then m.map fun e => if e.1 = k then (k, v) else e else m ++ [(k, v)]

def setAdd (s : List κ) (k : κ) : List κ := if k ∈ s then s else s ++ [k]

end Collections

section Requests

inductive KvError where
  | storageConflict | failed
  deriving DecidableEq

structure Entry (α : Type) where
  value : α
  version : ℕ
  deriving DecidableEq

inductive Request where
  | getHead
  | getBody
  | getAtt (attId : String)
  | putHead (value : StoredHead) (expected : ℕ)
  | putBody (value : StoredBody) (expected : ℕ)
  | putAtt (attId : String) (content : String)
  | deleteHead
  | deleteBody
  | deleteAtt (attId : String)
  | listAtts

def Request.Value : Request → Type
  | .getHead => Option (Entry StoredHead)
  | .getBody => Option (Entry StoredBody)
  | .getAtt _ => Option (Entry String)
  | .putHead _ _ | .putBody _ _ | .putAtt _ _ => ℕ
  | .deleteHead | .deleteBody | .deleteAtt _ => Unit
  | .listAtts => List String

abbrev Request.Answer (r : Request) : Type := Except KvError r.Value

inductive DraftError where
  /-- `DraftConflictError`: the draft was changed on another device. -/
  | conflict
  | request (err : KvError)
  deriving DecidableEq

abbrev DraftProg := Prog Request Request.Answer DraftError

def kv (r : Request) : DraftProg r.Value :=
  Prog.request r >>= fun
    | .ok a => pure a
    | .error err => .fail (.request err)

def kvCas (r : Request) : DraftProg r.Value :=
  Prog.request r >>= fun
    | .ok a => pure a
    | .error .storageConflict => .fail .conflict
    | .error err => .fail (.request err)

end Requests

section Store

def DraftContent.want (content : DraftContent) : List (String × AttachmentInput) :=
  content.attachments.foldl (fun m a => setEntry m (toHex a.attachmentId) a) []

def uploads : List (String × AttachmentInput) → List String → DraftProg (List String)
  | [], stored => return stored
  | (attId, a) :: want, stored =>
    if attId ∈ stored then uploads want stored
    else do
      let _ ← kv (.putAtt attId (toBase64 a.content))
      uploads want (setAdd stored attId)

def removals (want : List (String × AttachmentInput)) : List String → List String →
    DraftProg (List String)
  | [], stored => return stored
  | attId :: rest, stored =>
    if attId ∈ want.map Prod.fst then removals want rest stored
    else Prog.request (.deleteAtt attId) >>= fun
      | .ok _ => removals want rest (stored.filter fun s => s ≠ attId)
      | .error _ => removals want rest stored

def save (content : DraftContent) (base : DraftBase) (updatedAt : ℕ) (force : Bool) :
    DraftProg DraftBase := do
  let stored ← uploads content.want (base.atts.foldl setAdd [])
  let bodyVersion ← kvCas (.putBody content.body (if force then 0 else base.body))
  let headVersion ← kvCas (.putHead (content.head updatedAt) (if force then 0 else base.head))
  let stored ← removals content.want stored stored
  return ⟨headVersion, bodyVersion, stored⟩

def loadAtts : List StoredAttachment → DraftProg (List (String × AttachmentInput))
  | [] => return []
  | a :: rest => do
    let bytes ← kv (.getAtt a.id)
    let loaded ← loadAtts rest
    match (bytes : Option (Entry String)) with
    | none => return loaded
    | some bytes => return (a.id, a.load bytes.value) :: loaded

def loadStored : DraftProg (Option LoadedDraft) := do
  match (← kv .getHead : Option (Entry StoredHead)) with
  | none => return none
  | some head =>
    match (← kv .getBody : Option (Entry StoredBody)) with
    | none => return none
    | some body =>
      let atts ← loadAtts head.value.attachments
      let h := head.value
      let b := body.value
      return some
        { updatedAt := h.updatedAt
          base := ⟨head.version, body.version, atts.map Prod.fst⟩
          content := ⟨h.from', h.to', h.cc, h.bcc, b.pending, b.showCcBcc, h.subject, b.rich,
            b.text, b.html, b.replyTo, atts.map Prod.snd⟩ }

def isStored : DraftProg Bool := do return (← kv .getHead : Option (Entry StoredHead)).isSome

def deleteAtts : List String → DraftProg Unit
  | [] => return ()
  | attId :: rest => do
    let _ ← kv (.deleteAtt attId)
    deleteAtts rest

def delete : DraftProg Unit := do
  let _ ← kv .deleteHead
  let _ ← kv .deleteBody
  let keys ← kv .listAtts
  deleteAtts keys

end Store

section Server

structure Kv where
  head : Option (Entry StoredHead)
  body : Option (Entry StoredBody)
  atts : AList fun _ : String => Entry String
  deriving DecidableEq

def Kv.empty : Kv := ⟨none, none, ∅⟩

def put {α : Type} (cur : Option (Entry α)) (value : α) (expected : ℕ) : Except KvError (Entry α) :=
  let version := (cur.map Entry.version).getD 0
  if expected ≠ 0 ∧ version ≠ expected then .error .storageConflict else .ok ⟨value, version + 1⟩

def serve : (r : Request) → Kv → r.Answer × Kv
  | .getHead, s => (.ok s.head, s)
  | .getBody, s => (.ok s.body, s)
  | .getAtt attId, s => (.ok (s.atts.lookup attId), s)
  | .putHead value expected, s =>
    match put s.head value expected with
    | .ok entry => (.ok entry.version, { s with head := some entry })
    | .error err => (.error err, s)
  | .putBody value expected, s =>
    match put s.body value expected with
    | .ok entry => (.ok entry.version, { s with body := some entry })
    | .error err => (.error err, s)
  | .putAtt attId content, s =>
    match put (s.atts.lookup attId) content 0 with
    | .ok entry => (.ok entry.version, { s with atts := s.atts.insert attId entry })
    | .error err => (.error err, s)
  | .deleteHead, s => (.ok (), { s with head := none })
  | .deleteBody, s => (.ok (), { s with body := none })
  | .deleteAtt attId, s => (.ok (), { s with atts := s.atts.erase attId })
  | .listAtts, s => (.ok s.atts.keys, s)

inductive Fault where
  | none | before | after
  deriving DecidableEq

def serveWith (faults : Request → Fault) (r : Request) (s : Kv) : r.Answer × Kv :=
  match faults r with
  | .none => serve r s
  | .before => (.error .failed, s)
  | .after => (.error .failed, (serve r s).2)

end Server

section Local

structure LocalDraft where
  content : DraftContent
  base : DraftBase
  updatedAt : ℕ
  deriving DecidableEq

def LOCAL_SETTLE_MS : ℕ := 60000

def clearLocal (local' : Option LocalDraft) (updatedAt : ℕ) : Option LocalDraft :=
  local'.filter fun cur => cur.updatedAt > updatedAt

end Local

section Put

variable {α : Type} {cur : Option (Entry α)} {value : α} {expected : ℕ}

theorem put_ok (h : expected = 0 ∨ (cur.map Entry.version).getD 0 = expected) :
    put cur value expected = .ok ⟨value, (cur.map Entry.version).getD 0 + 1⟩ := by
  unfold put
  dsimp only
  rw [if_neg]
  rintro ⟨hne, hversion⟩
  rcases h with h | h
  · exact hne h
  · exact hversion h

theorem put_conflict (hne : expected ≠ 0) (hversion : (cur.map Entry.version).getD 0 ≠ expected) :
    put cur value expected = .error .storageConflict := by
  unfold put
  dsimp only
  rw [if_pos ⟨hne, hversion⟩]

end Put

section Run

variable {srv : (r : Request) → Kv → r.Answer × Kv} {s s' : Kv} {α : Type} {r : Request}
  {f : r.Value → DraftProg α}

theorem run_kv_ok {a : r.Value} (h : srv r s = (.ok a, s')) : Prog.run srv
    (kv r >>= f) s = Prog.run srv (f a) s' := by
  apply Prog.run_bind_ok
  unfold kv
  rw [Prog.run_request_bind, h]
  rfl

theorem run_kv_error {err : KvError} (h : srv r s = (.error err, s')) :
    Prog.run srv (kv r >>= f) s = (.error (.request err), s') := by
  apply Prog.run_bind_error
  unfold kv
  rw [Prog.run_request_bind, h]
  rfl

theorem run_kvCas_ok {a : r.Value} (h : srv r s = (.ok a, s')) :
    Prog.run srv (kvCas r >>= f) s = Prog.run srv (f a) s' := by
  apply Prog.run_bind_ok
  unfold kvCas
  rw [Prog.run_request_bind, h]
  rfl

theorem run_kvCas_conflict (h : srv r s = (.error .storageConflict, s')) :
    Prog.run srv (kvCas r >>= f) s = (.error .conflict, s') := by
  apply Prog.run_bind_error
  unfold kvCas
  rw [Prog.run_request_bind, h]
  rfl

theorem run_kvCas_failed (h : srv r s = (.error .failed, s')) :
    Prog.run srv (kvCas r >>= f) s = (.error (.request .failed), s') := by
  apply Prog.run_bind_error
  unfold kvCas
  rw [Prog.run_request_bind, h]
  rfl

end Run

section Frames

variable (faults : Request → Fault)

theorem serve_putAtt (attId content : String) (s : Kv) : serve (.putAtt attId content) s =
    (.ok (((s.atts.lookup attId).map Entry.version).getD 0 + 1),
      { s with
        atts := s.atts.insert attId
          ⟨content, ((s.atts.lookup attId).map Entry.version).getD 0 + 1⟩ }) := by
  unfold serve
  dsimp only
  rw [put_ok (.inl rfl)]

theorem serve_putBody {s : Kv} {value : StoredBody} {expected : ℕ}
    (h : expected = 0 ∨ (s.body.map Entry.version).getD 0 = expected) :
    serve (.putBody value expected) s = (.ok ((s.body.map Entry.version).getD 0 + 1),
      { s with body := some ⟨value, (s.body.map Entry.version).getD 0 + 1⟩ }) := by
  unfold serve
  dsimp only
  rw [put_ok h]

theorem serve_putHead {s : Kv} {value : StoredHead} {expected : ℕ}
    (h : expected = 0 ∨ (s.head.map Entry.version).getD 0 = expected) :
    serve (.putHead value expected) s = (.ok ((s.head.map Entry.version).getD 0 + 1),
      { s with head := some ⟨value, (s.head.map Entry.version).getD 0 + 1⟩ }) := by
  unfold serve
  dsimp only
  rw [put_ok h]

theorem serveWith_of_serve {r : Request} {s s' : Kv} {a : r.Value} (h : serve r s = (.ok a, s')) :
    serveWith faults r s = match faults r with
      | .none => (.ok a, s')
      | .before => (.error .failed, s)
      | .after => (.error .failed, s') := by
  unfold serveWith
  cases faults r with
  | none => exact h
  | before => rfl
  | after => rw [h]

theorem serveWith_putAtt_frame (attId content : String) (s : Kv) :
    (serveWith faults (.putAtt attId content) s).2.head = s.head ∧
      (serveWith faults (.putAtt attId content) s).2.body = s.body := by
  unfold serveWith
  rw [serve_putAtt]
  split
  · exact ⟨rfl, rfl⟩
  · exact ⟨rfl, rfl⟩
  · exact ⟨rfl, rfl⟩

theorem serveWith_deleteAtt_frame (attId : String) (s : Kv) :
    (serveWith faults (.deleteAtt attId) s).2.head = s.head ∧
      (serveWith faults (.deleteAtt attId) s).2.body = s.body := by
  unfold serveWith
  split
  · exact ⟨rfl, rfl⟩
  · exact ⟨rfl, rfl⟩
  · exact ⟨rfl, rfl⟩

theorem run_uploads_frame (want : List (String × AttachmentInput)) (stored : List String) (s : Kv) :
    (Prog.run (serveWith faults) (uploads want stored) s).2.head = s.head ∧
      (Prog.run (serveWith faults) (uploads want stored) s).2.body = s.body ∧
      (Prog.run (serveWith faults) (uploads want stored) s).1 ≠ .error .conflict := by
  induction want generalizing stored s with
  | nil => exact ⟨rfl, rfl, fun h => nomatch h⟩
  | cons e want ih =>
    unfold uploads
    split
    · exact ih stored s
    · obtain ⟨hhead, hbody⟩ := serveWith_putAtt_frame faults e.1 (toBase64 e.2.content) s
      rw [← hhead, ← hbody]
      cases hserve : serveWith faults (.putAtt e.1 (toBase64 e.2.content)) s with
      | mk answer s' =>
        cases answer with
        | error err =>
          rw [run_kv_error hserve]
          exact ⟨rfl, rfl, fun h => nomatch h⟩
        | ok version =>
          rw [run_kv_ok hserve]
          exact ih (setAdd stored e.1) s'

theorem run_removals_frame (want : List (String × AttachmentInput)) (rest stored : List String)
    (s : Kv) :
    (Prog.run (serveWith faults) (removals want rest stored) s).2.head = s.head ∧
      (Prog.run (serveWith faults) (removals want rest stored) s).2.body = s.body ∧
      ∃ stored', (Prog.run (serveWith faults) (removals want rest stored) s).1 = .ok stored' := by
  induction rest generalizing stored s with
  | nil => exact ⟨rfl, rfl, stored, rfl⟩
  | cons attId rest ih =>
    unfold removals
    split
    · exact ih stored s
    · obtain ⟨hhead, hbody⟩ := serveWith_deleteAtt_frame faults attId s
      rw [← hhead, ← hbody, Prog.run_request_bind]
      cases (serveWith faults (.deleteAtt attId) s).1 with
      | ok _ => exact ih _ _
      | error _ => exact ih _ _

theorem run_kv_read {α : Type} {r : Request} {s : Kv} {a : r.Value} (h : serve r s = (.ok a, s))
    (f : r.Value → DraftProg α) :
    Prog.run (serveWith faults) (kv r >>= f) s = (.error (.request .failed), s) ∨
      Prog.run (serveWith faults) (kv r >>= f) s = Prog.run (serveWith faults) (f a) s := by
  have hserve := serveWith_of_serve faults h
  cases hfault : faults r with
  | none =>
    rw [hfault] at hserve
    exact .inr (run_kv_ok hserve)
  | before =>
    rw [hfault] at hserve
    exact .inl (run_kv_error hserve)
  | after =>
    rw [hfault] at hserve
    exact .inl (run_kv_error hserve)

theorem run_loadAtts_frame (atts : List StoredAttachment) (s : Kv) :
    (Prog.run (serveWith faults) (loadAtts atts) s).2 = s := by
  induction atts with
  | nil => rfl
  | cons a atts ih =>
    unfold loadAtts
    have hget : serve (.getAtt a.id) s = (.ok (s.atts.lookup a.id), s) := rfl
    rcases run_kv_read faults hget _ with hfailed | hread
    · rw [hfailed]
    · rw [hread, Prog.run_bind]
      cases hrun : Prog.run (serveWith faults) (loadAtts atts) s with
      | mk out t =>
        rw [hrun] at ih
        cases out with
        | error err => exact ih
        | ok loaded =>
          cases s.atts.lookup a.id with
          | none => exact ih
          | some bytes => exact ih

end Frames

end Dmcn.Web.Drafts
