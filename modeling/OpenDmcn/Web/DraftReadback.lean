import OpenDmcn.Lib.Run
import OpenDmcn.Web.Drafts

/-! What is read back of a draft (`api/draftStore.ts`), by any device, after saves and loads of any
devices. Each device uploads and removes attachments by what it remembers to be stored. -/

namespace Dmcn.Web.Drafts

open Go (Bytes)
open Requests

structure Account where
  kv : Kv
  bases : List DraftBase

inductive DraftCall where
  /-- A save on one of the bases that were got. -/
  | save (content : DraftContent) (held : ℕ) (updatedAt : ℕ) (force : Bool)
  | loadStored

namespace Account

def start : Account := ⟨Kv.empty, []⟩

def base (s : Account) (held : ℕ) : DraftBase := s.bases.getD held NEW_DRAFT_BASE

def call (s : Account) : DraftCall → Account
  | .save content held updatedAt force =>
    match Prog.run serve (save content (s.base held) updatedAt force) s.kv with
    | (.ok base, kv) => ⟨kv, s.bases ++ [base]⟩
    | (.error _, kv) => ⟨kv, s.bases⟩
  | .loadStored =>
    match Prog.run serve loadStored s.kv with
    | (.ok (some loaded), kv) => ⟨kv, s.bases ++ [loaded.base]⟩
    | (_, kv) => ⟨kv, s.bases⟩

end Account

/-- Attachments have the bytes of their ids, and no empty strings where there may be none. -/
structure DraftContent.Proper (part : Bytes → Bytes) (content : DraftContent) : Prop where
  parts : ∀ a ∈ content.attachments, a.content = part a.attachmentId
  contentId : ∀ a ∈ content.attachments, a.contentId ≠ some ""
  disposition : ∀ a ∈ content.attachments, a.disposition ≠ some ""

def DraftCall.Proper (part : Bytes → Bytes) (s : Account) : DraftCall → Prop
  | .save content held _ force => content.Proper part ∧
    (force = true → s.base held = NEW_DRAFT_BASE)
  | .loadStored => True

section Parts

variable {part : Bytes → Bytes}

def Kv.Genuine (part : Bytes → Bytes) (s : Kv) : Prop :=
  ∀ attId e, s.atts.lookup attId = some e → e.value = toBase64 (part (fromHex attId))

def Kv.Has (s : Kv) (attId : String) : Prop := ∃ e, s.atts.lookup attId = some e

theorem setEntry_forall {κ ν : Type} [DecidableEq κ] {P : κ × ν → Prop} {m : List (κ × ν)} {k : κ}
    {v : ν} (hm : ∀ e ∈ m, P e) (hkv : P (k, v)) : ∀ e ∈ setEntry m k v, P e := by
  intro e he
  unfold setEntry at he
  split at he
  · obtain ⟨e', he', rfl⟩ := List.mem_map.mp he
    split
    · exact hkv
    · exact hm e' he'
  · rcases List.mem_append.mp he with hold | hnew
    · exact hm e hold
    · rw [List.mem_singleton.mp hnew]
      exact hkv

theorem mem_keys_setEntry {κ ν : Type} [DecidableEq κ] {m : List (κ × ν)} {k k' : κ} {v : ν} :
    k' ∈ (setEntry m k v).map Prod.fst ↔ k' ∈ m.map Prod.fst ∨ k' = k := by
  unfold setEntry
  split
  · next hk =>
    have hkeys : (m.map fun e => if e.1 = k then (k, v) else e).map Prod.fst = m.map Prod.fst := by
      rw [List.map_map]
      apply List.map_congr_left
      intro e _
      rw [Function.comp_apply]
      split
      · next heq => exact heq.symm
      · rfl
    rw [hkeys]
    constructor
    · exact .inl
    · rintro (hk' | rfl)
      · exact hk'
      · exact hk
  · rw [List.map_append, List.mem_append, List.map_singleton, List.mem_singleton]

theorem mem_want {content : DraftContent} {attId : String} :
    attId ∈ content.want.map Prod.fst ↔ ∃ a ∈ content.attachments, toHex a.attachmentId =
      attId := by
  unfold DraftContent.want
  have hfold : ∀ (atts : List AttachmentInput) (m : List (String × AttachmentInput)),
      attId ∈ (atts.foldl (fun m a => setEntry m (toHex a.attachmentId) a) m).map Prod.fst ↔
        attId ∈ m.map Prod.fst ∨ ∃ a ∈ atts, toHex a.attachmentId = attId := by
    intro atts
    induction atts with
    | nil => simp
    | cons a atts ih =>
      intro m
      rw [List.foldl_cons, ih, mem_keys_setEntry, @eq_comm _ attId, or_assoc]
      simp only [List.mem_cons, exists_eq_or_imp]
  rw [hfold]
  simp

theorem want_genuine {content : DraftContent} (h : content.Proper part) :
    ∀ e ∈ content.want, e.2.content = part (fromHex e.1) := by
  unfold DraftContent.want
  have hfold : ∀ (atts : List AttachmentInput) (m : List (String × AttachmentInput)),
      (∀ a ∈ atts, a.content = part a.attachmentId) → (∀ e ∈ m, e.2.content = part (fromHex e.1)) →
        ∀ e ∈ atts.foldl (fun m a => setEntry m (toHex a.attachmentId) a) m, e.2.content =
          part (fromHex e.1) := by
    intro atts
    induction atts with
    | nil => exact fun m _ hm => hm
    | cons a atts ih =>
      intro m hatts hm
      apply ih _ fun a' ha' => hatts a' (List.mem_cons_of_mem a ha')
      apply setEntry_forall hm
      rw [fromHex_toHex]
      exact hatts a List.mem_cons_self
  exact hfold _ _ h.parts fun e he => absurd he List.not_mem_nil

theorem mem_foldl_setAdd {α : Type} [DecidableEq α] {a : α} {l acc : List α} :
    a ∈ l.foldl setAdd acc ↔ a ∈ acc ∨ a ∈ l := by
  induction l generalizing acc with
  | nil => simp
  | cons b l ih =>
    rw [List.foldl_cons, ih]
    unfold setAdd
    split
    · next hb =>
      constructor
      · rintro (h | h)
        · exact .inl h
        · exact .inr (List.mem_cons_of_mem b h)
      · rintro (h | h)
        · exact .inl h
        · rcases List.mem_cons.mp h with rfl | h
          · exact .inl hb
          · exact .inr h
    · rw [List.mem_append, List.mem_singleton, List.mem_cons, or_assoc]

theorem Kv.Has.insert {s : Kv} {attId attId' : String} (h : s.Has attId) (e : Entry String) :
    Kv.Has { s with atts := s.atts.insert attId' e } attId := by
  by_cases heq : attId = attId'
  · subst heq
    exact ⟨e, AList.lookup_insert _⟩
  · obtain ⟨e', he'⟩ := h
    exact ⟨e', by rw [← he']; exact AList.lookup_insert_ne heq⟩

end Parts

section Runs

variable {part : Bytes → Bytes}

theorem run_uploads {want : List (String × AttachmentInput)}
    (hwant : ∀ e ∈ want, e.2.content = part (fromHex e.1)) (stored : List String) {s : Kv}
    (hs : s.Genuine part) :
    ∃ stored' s', Prog.run serve (uploads want stored) s = (.ok stored', s') ∧ s'.head = s.head ∧
      s'.body = s.body ∧
      s'.Genuine part ∧ (∀ attId, s.Has attId → s'.Has attId) ∧ ∀ e ∈ want, e.1 ∈ stored ∨
      s'.Has e.1 := by
  induction want generalizing stored s with
  | nil =>
    exact ⟨stored, s, rfl, rfl, rfl, hs, fun _ h => h, fun e he => absurd he List.not_mem_nil⟩
  | cons e want ih =>
    have hrest := fun e' he' => hwant e' (List.mem_cons_of_mem e he')
    unfold uploads
    by_cases hmem : e.1 ∈ stored
    · rw [if_pos hmem]
      obtain ⟨stored', s', hrun, hhead, hbody, hgenuine, hkeeps, hthere⟩ := ih hrest stored hs
      refine ⟨stored', s', hrun, hhead, hbody, hgenuine, hkeeps, fun e' he' => ?_⟩
      rcases List.mem_cons.mp he' with rfl | he'
      · exact .inl hmem
      · exact hthere e' he'
    · rw [if_neg hmem]
      let entry : Entry String :=
        ⟨toBase64 e.2.content, ((s.atts.lookup e.1).map Entry.version).getD 0 + 1⟩
      have hput : Kv.Genuine part { s with atts := s.atts.insert e.1 entry } := by
        intro attId e' he'
        by_cases heq : attId = e.1
        · subst heq
          have hlookup : (s.atts.insert e.1 entry).lookup e.1 = some entry := AList.lookup_insert _
          change (s.atts.insert e.1 entry).lookup e.1 = some e' at he'
          rw [hlookup] at he'
          cases he'
          rw [← hwant e List.mem_cons_self]
        · exact hs attId e' (by rw [← he']; exact (AList.lookup_insert_ne heq).symm)
      obtain ⟨stored', s', hrun, hhead, hbody, hgenuine, hkeeps, hthere⟩ :=
        ih hrest (setAdd stored e.1) hput
      refine ⟨stored', s', ?_, hhead, hbody, hgenuine, fun attId h => hkeeps attId (h.insert entry),
        fun e' he' => ?_⟩
      · rw [run_kv_ok (serve_putAtt e.1 (toBase64 e.2.content) s)]
        exact hrun
      · have hnew : s'.Has e.1 := hkeeps e.1 ⟨entry, AList.lookup_insert _⟩
        rcases List.mem_cons.mp he' with rfl | he'
        · exact .inr hnew
        · rcases hthere e' he' with hadd | hhas
          · unfold setAdd at hadd
            rw [if_neg hmem, List.mem_append, List.mem_singleton] at hadd
            rcases hadd with hold | heq
            · exact .inl hold
            · rw [heq]
              exact .inr hnew
          · exact .inr hhas

theorem run_removals (want : List (String × AttachmentInput)) (rest stored : List String) {s : Kv}
    (hs : s.Genuine part) :
    ∃ stored' s', Prog.run serve (removals want rest stored) s = (.ok stored', s') ∧
      s'.head = s.head ∧ s'.body = s.body ∧
      s'.Genuine part ∧ (∀ attId ∈ want.map Prod.fst, s.Has attId → s'.Has attId) ∧
      ∀ attId ∈ stored', attId ∈ stored ∧ (attId ∈ rest → attId ∈ want.map Prod.fst) := by
  induction rest generalizing stored s with
  | nil =>
    exact ⟨stored, s, rfl, rfl, rfl, hs, fun _ _ h => h,
      fun attId h => ⟨h, fun h' => absurd h' List.not_mem_nil⟩⟩
  | cons attId rest ih =>
    unfold removals
    by_cases hmem : attId ∈ want.map Prod.fst
    · rw [if_pos hmem]
      obtain ⟨stored', s', hrun, hhead, hbody, hgenuine, hkeeps, hleft⟩ := ih stored hs
      refine ⟨stored', s', hrun, hhead, hbody, hgenuine, hkeeps, fun attId' h =>
        ⟨(hleft attId' h).1, fun h' => ?_⟩⟩
      rcases List.mem_cons.mp h' with rfl | h'
      · exact hmem
      · exact (hleft attId' h).2 h'
    · rw [if_neg hmem]
      have herase : Kv.Genuine part { s with atts := s.atts.erase attId } := by
        intro attId' e he
        by_cases heq : attId' = attId
        · subst heq
          have hlookup : (s.atts.erase attId').lookup attId' = none := AList.lookup_erase ..
          change (s.atts.erase attId').lookup attId' = some e at he
          rw [hlookup] at he
          cases he
        · exact hs attId' e (by rw [← he]; exact (AList.lookup_erase_ne heq).symm)
      obtain ⟨stored', s', hrun, hhead, hbody, hgenuine, hkeeps, hleft⟩ :=
        ih (stored.filter fun s => s ≠ attId) herase
      refine ⟨stored', s', hrun, hhead, hbody, hgenuine, fun attId' hwant hhas =>
        ?_, fun attId' h => ?_⟩
      · apply hkeeps attId' hwant
        obtain ⟨e, he⟩ := hhas
        have hne : attId' ≠ attId := by
          rintro rfl
          exact hmem hwant
        exact ⟨e, by rw [← he]; exact AList.lookup_erase_ne hne⟩
      · obtain ⟨hfilter, hrest⟩ := hleft attId' h
        rw [List.mem_filter, decide_eq_true_eq] at hfilter
        refine ⟨hfilter.1, fun h' => ?_⟩
        rcases List.mem_cons.mp h' with rfl | h'
        · exact absurd rfl hfilter.2
        · exact hrest h'

theorem run_loadAtts (atts : List StoredAttachment) (s : Kv) : Prog.run serve (loadAtts atts) s =
    (.ok (atts.filterMap fun a => (s.atts.lookup a.id).map fun e => (a.id, a.load e.value)),
      s) := by
  induction atts with
  | nil => rfl
  | cons a atts ih =>
    unfold loadAtts
    rw [run_kv_ok (show serve (.getAtt a.id) s = (.ok (s.atts.lookup a.id), s) from rfl),
      Prog.run_bind_ok ih, List.filterMap_cons]
    cases s.atts.lookup a.id with
    | none => rfl
    | some e => rfl

theorem run_loadStored {s : Kv} {head : Entry StoredHead} {body : Entry StoredBody}
    (hhead : s.head = some head) (hbody : s.body = some body) :
    ∃ loaded, Prog.run serve loadStored s = (.ok (some loaded), s) ∧
      loaded.updatedAt = head.value.updatedAt ∧
      loaded.base.head = head.version ∧ loaded.base.body = body.version ∧
      (∀ attId ∈ loaded.base.atts, s.Has attId) ∧
      loaded.content =
      ⟨head.value.from', head.value.to', head.value.cc, head.value.bcc, body.value.pending,
        body.value.showCcBcc, head.value.subject, body.value.rich, body.value.text, body.value.html,
          body.value.replyTo,
        (head.value.attachments.filterMap fun a => (s.atts.lookup a.id).map fun e =>
          (a.id, a.load e.value)).map Prod.snd⟩ := by
  unfold loadStored
  rw [run_kv_ok (show serve .getHead s = (.ok (some head), s) by rw [← hhead]; rfl)]
  dsimp only
  rw [run_kv_ok (show serve .getBody s = (.ok (some body), s) by rw [← hbody]; rfl)]
  dsimp only
  rw [Prog.run_bind_ok (run_loadAtts head.value.attachments s)]
  refine ⟨_, rfl, rfl, rfl, rfl, fun attId hmem => ?_, rfl⟩
  obtain ⟨a, ha, rfl⟩ := List.mem_map.mp hmem
  obtain ⟨stored, -, hload⟩ := List.mem_filterMap.mp ha
  obtain ⟨e, he, rfl⟩ := Option.map_eq_some_iff.mp hload
  exact ⟨e, he⟩

theorem load_storedAttachment {a : AttachmentInput} (hcontent : a.content = part a.attachmentId)
    (hid : a.contentId ≠ some "") (hdisposition : a.disposition ≠ some "") :
    (storedAttachment a).load (toBase64 (part (fromHex (toHex a.attachmentId)))) = a := by
  have htruthy : ∀ s : Option String, s ≠ some "" → truthy (truthy s) = s := by
    intro s hs
    unfold truthy
    cases s with
    | none => rfl
    | some s =>
      have hne : s ≠ "" := fun h => hs (congrArg some h)
      simp [Option.filter, hne]
  unfold StoredAttachment.load storedAttachment
  dsimp only
  rw [htruthy _ hid, htruthy _ hdisposition, fromHex_toHex, fromBase64_toBase64,
    fromBase64_toBase64, ← hcontent]

theorem run_loadStored_content {s : Kv} (hs : s.Genuine part) {content : DraftContent}
    (h : content.Proper part) {updatedAt v w : ℕ} (hhead : s.head =
      some ⟨content.head updatedAt, v⟩) (hbody : s.body = some ⟨content.body, w⟩)
    (hthere : ∀ a ∈ content.attachments, s.Has (toHex a.attachmentId)) :
    ∃ loaded, Prog.run serve loadStored s = (.ok (some loaded), s) ∧ loaded.content = content ∧
      loaded.updatedAt = updatedAt := by
  obtain ⟨loaded, hrun, hat, -, -, -, hcontent⟩ := run_loadStored hhead hbody
  refine ⟨loaded, hrun, ?_, hat⟩
  have hatts : (content.attachments.map storedAttachment).filterMap
      (fun a => (s.atts.lookup a.id).map fun e =>
      (a.id, a.load e.value)) = content.attachments.map fun a => (toHex a.attachmentId, a) := by
    rw [List.filterMap_map, ← List.filterMap_eq_map]
    apply List.filterMap_congr
    intro a ha
    obtain ⟨e, he⟩ := hthere a ha
    have hid : (storedAttachment a).id = toHex a.attachmentId := rfl
    rw [Function.comp_apply, Function.comp_apply, hid, he, Option.map_some, hs _ e he,
      load_storedAttachment (h.parts a ha) (h.contentId a ha) (h.disposition a ha)]
  rw [hcontent]
  unfold DraftContent.head DraftContent.body
  dsimp only
  rw [hatts, List.map_map]
  change { content with attachments := content.attachments.map id } = content
  rw [List.map_id]

end Runs

section Sound

variable {part : Bytes → Bytes} {s : Account}

def Kv.Knows (s : Kv) (base : DraftBase) : Prop :=
  base.body = base.head ∧ base.head ≠ 0 ∧
    ∃ head, s.head = some head ∧ base.head ≤ head.version ∧
      (base.head = head.version → ∀ attId ∈ base.atts, s.Has attId)

structure Account.Sound (part : Bytes → Bytes) (s : Account) : Prop where
  versions : s.kv.body.map Entry.version = s.kv.head.map Entry.version
  positive : ∀ head, s.kv.head = some head → head.version ≠ 0
  genuine : s.kv.Genuine part
  known : ∀ base ∈ s.bases, s.kv.Knows base

theorem Account.sound_start : start.Sound part where
  versions := rfl
  positive := fun head hhead => nomatch hhead
  genuine := fun attId e he => by
    change (∅ : AList fun _ : String => Entry String).lookup attId = some e at he
    rw [AList.lookup_empty] at he
    cases he
  known := fun base hbase => absurd hbase List.not_mem_nil

theorem Account.Sound.base (h : s.Sound part) (held : ℕ) : s.base held = NEW_DRAFT_BASE ∨
    s.kv.Knows (s.base held) := by
  unfold Account.base
  rw [List.getD_eq_getElem?_getD]
  cases hget : s.bases[held]? with
  | none => exact .inl rfl
  | some base => exact .inr (h.known base (List.mem_of_getElem? hget))

theorem Kv.Knows.mono {t t' : Kv} {base : DraftBase} (h : t.Knows base) (hhead : t'.head = t.head)
    (hkeeps : ∀ attId, t.Has attId → t'.Has attId) : t'.Knows base := by
  obtain ⟨hbody, hne, head, hsome, hle, hthere⟩ := h
  refine ⟨hbody, hne, head, hhead.trans hsome, hle, fun heq attId hmem => ?_⟩
  exact hkeeps attId (hthere heq attId hmem)

theorem run_save (h : s.Sound part) {content : DraftContent} (hcontent : content.Proper part)
    {base : DraftBase} (hbase : base = NEW_DRAFT_BASE ∨ s.kv.Knows base) (updatedAt : ℕ)
    {force : Bool} (hforce : force = true → base = NEW_DRAFT_BASE) :
    (∃ t, Prog.run serve (save content base updatedAt force) s.kv = (.error .conflict, t) ∧
      t.head = s.kv.head ∧ t.body = s.kv.body ∧ t.Genuine part ∧ ∀ attId, s.kv.Has attId →
        t.Has attId) ∨
    ∃ base' t v, Prog.run serve (save content base updatedAt force) s.kv = (.ok base', t) ∧
      t.head = some ⟨content.head updatedAt, v⟩ ∧ t.body = some ⟨content.body, v⟩ ∧ t.Genuine part ∧
      (∀ head, s.kv.head = some head → head.version < v) ∧ v ≠ 0 ∧
      base'.head = v ∧ base'.body = v ∧ (∀ attId ∈ base'.atts, t.Has attId) ∧
      ∀ a ∈ content.attachments, t.Has (toHex a.attachmentId) := by
  obtain ⟨stored, t, hrun, hhead, hbody, hgenuine, hkeeps, hthere⟩ :=
    run_uploads (want_genuine hcontent) (base.atts.foldl setAdd []) h.genuine
  have hversions : (s.kv.body.map Entry.version).getD 0 = (s.kv.head.map Entry.version).getD 0 := by
    rw [h.versions]
  have hequal : base.body = base.head := by
    rcases hbase with rfl | hknows
    · rfl
    · exact hknows.1
  unfold save
  rw [Prog.run_bind_ok hrun]
  by_cases haccept : (if force then 0 else base.head) = 0 ∨
      (s.kv.head.map Entry.version).getD 0 = if force then 0 else base.head
  · right
    let v := (s.kv.head.map Entry.version).getD 0 + 1
    let t₁ : Kv := { t with body := some ⟨content.body, v⟩ }
    let t₂ : Kv := { t₁ with head := some ⟨content.head updatedAt, v⟩ }
    have hput₁ : serve (.putBody content.body (if force then 0 else base.body)) t =
        (.ok v, t₁) := by
      rw [serve_putBody (by rw [hbody, hversions, hequal]; exact haccept), hbody, hversions]
      rfl
    have hput₂ : serve (.putHead (content.head updatedAt) (if force then 0 else base.head)) t₁ =
        (.ok v, t₂) := by
      have hhead₁ : t₁.head = s.kv.head := hhead
      rw [serve_putHead (by rw [hhead₁]; exact haccept), hhead₁]
      rfl
    obtain ⟨left, t₃, hrun₃, hhead₃, hbody₃, hgenuine₃, hkeeps₃, hleft⟩ :=
      @run_removals part content.want stored stored t₂ hgenuine
    have hwanted : ∀ attId ∈ content.want.map Prod.fst, t.Has attId := by
      intro attId hmem
      obtain ⟨e, he, rfl⟩ := List.mem_map.mp hmem
      rcases hthere e he with hold | hnew
      · rw [mem_foldl_setAdd] at hold
        have hmem' := hold.resolve_left List.not_mem_nil
        rcases hbase with rfl | ⟨-, hne, head, hsome, -, hatts⟩
        · exact absurd hmem' List.not_mem_nil
        · cases force with
          | true =>
            rw [hforce rfl] at hmem'
            exact absurd hmem' List.not_mem_nil
          | false =>
            have hversion : head.version = base.head := by
              have haccept' := haccept.resolve_left hne
              rw [hsome] at haccept'
              exact haccept'
            exact hkeeps _ (hatts hversion.symm _ hmem')
      · exact hnew
    refine ⟨⟨v, v, left⟩, t₃, v, ?_, hhead₃, hbody₃, hgenuine₃, ?_, Nat.succ_ne_zero _, rfl, rfl,
      fun attId hmem => ?_, fun a ha => ?_⟩
    · rw [run_kvCas_ok hput₁, run_kvCas_ok hput₂, Prog.run_bind_ok hrun₃]
      rfl
    · intro head hsome
      change head.version < (s.kv.head.map Entry.version).getD 0 + 1
      rw [hsome]
      exact Nat.lt_succ_self _
    · obtain ⟨hmem', hwant⟩ := hleft attId hmem
      exact hkeeps₃ attId (hwant hmem') (hwanted attId (hwant hmem'))
    · have hmem : toHex a.attachmentId ∈ content.want.map Prod.fst := mem_want.mpr ⟨a, ha, rfl⟩
      exact hkeeps₃ _ hmem (hwanted _ hmem)
  · left
    rw [not_or] at haccept
    have hconflict : serve (.putBody content.body (if force then 0 else base.body)) t =
        (.error .storageConflict, t) := by
      unfold serve
      dsimp only
      rw [hbody, hequal, put_conflict haccept.1 (by rw [hversions]; exact haccept.2)]
    refine ⟨t, ?_, hhead, hbody, hgenuine, hkeeps⟩
    rw [run_kvCas_conflict hconflict]

theorem Account.Sound.save (h : s.Sound part) {content : DraftContent}
    (hcontent : content.Proper part) (held updatedAt : ℕ) {force : Bool}
    (hforce : force = true → s.base held = NEW_DRAFT_BASE) :
    (s.call (.save content held updatedAt force)).Sound part := by
  unfold Account.call
  dsimp only
  rcases run_save h hcontent (h.base held) updatedAt hforce with
    ⟨t, hrun, hhead, hbody, hgenuine, hkeeps⟩ |
    ⟨base', t, v, hrun, hhead, hbody, hgenuine, hnewer, hv, hbase₁, hbase₂, hatts, -⟩
  · rw [hrun]
    refine ⟨by rw [hhead, hbody, h.versions], fun head hsome => ?_, hgenuine, fun base hmem => ?_⟩
    · exact h.positive head (hhead.symm.trans hsome)
    · exact (h.known base hmem).mono hhead hkeeps
  · rw [hrun]
    refine ⟨by rw [hhead, hbody]; rfl, fun head hsome => ?_, hgenuine, fun base hmem => ?_⟩
    · rw [hhead] at hsome
      cases hsome
      exact hv
    · rcases List.mem_append.mp hmem with hold | hnew
      · obtain ⟨hequal, hne, head, hsome, hle, -⟩ := h.known base hold
        have hlt := Nat.lt_of_le_of_lt hle (hnewer head hsome)
        exact ⟨hequal, hne, _, hhead, hlt.le, fun heq => absurd heq hlt.ne⟩
      · rw [List.mem_singleton.mp hnew]
        exact ⟨hbase₂.trans hbase₁.symm, by rwa [hbase₁], _, hhead, hbase₁.le, fun _ => hatts⟩

theorem Account.Sound.loadStored (h : s.Sound part) : (s.call .loadStored).Sound part := by
  unfold Account.call
  dsimp only
  have hversions := h.versions
  cases hhead : s.kv.head with
  | none =>
    unfold Drafts.loadStored
    rw [run_kv_ok (show serve .getHead s.kv = (.ok none, s.kv) by rw [← hhead]; rfl)]
    exact ⟨h.versions, h.positive, h.genuine, h.known⟩
  | some head =>
    cases hbody : s.kv.body with
    | none =>
      rw [hhead, hbody] at hversions
      cases hversions
    | some body =>
      rw [hhead, hbody] at hversions
      have hequal : body.version = head.version := Option.some.inj hversions
      obtain ⟨loaded, hrun, -, hbase₁, hbase₂, hatts, -⟩ := run_loadStored hhead hbody
      rw [hrun]
      refine ⟨h.versions, h.positive, h.genuine, fun base hmem => ?_⟩
      rcases List.mem_append.mp hmem with hold | hnew
      · exact h.known base hold
      · rw [List.mem_singleton.mp hnew]
        refine ⟨by rw [hbase₁, hbase₂, hequal], ?_, head, hhead, hbase₁.le, fun _ => hatts⟩
        rw [hbase₁]
        exact h.positive head hhead

theorem Account.Sound.call (h : s.Sound part) (c : DraftCall) (hc : c.Proper part s) :
    (s.call c).Sound part := by
  cases c with
  | save content held updatedAt force => exact h.save hc.1 held updatedAt hc.2
  | loadStored => exact h.loadStored

/-- After any saves and loads, a content whose save resolves is what is loaded. -/
theorem save_reads_back (part : Bytes → Bytes) {before : List DraftCall}
    (hbefore : Machine.Along Account.call (DraftCall.Proper part) Account.start before)
    {content : DraftContent} {held updatedAt : ℕ} {force : Bool}
    (hproper : (DraftCall.save content held updatedAt force).Proper part
      (Machine.run Account.call Account.start before))
    {base : DraftBase} {kv : Kv}
    (hsave : Prog.run serve (Drafts.save content
      ((Machine.run Account.call Account.start before).base held) updatedAt force)
      (Machine.run Account.call Account.start before).kv = (.ok base, kv)) :
    ∃ loaded, Prog.run serve Drafts.loadStored kv = (.ok (some loaded), kv) ∧
      loaded.content = content ∧
      loaded.updatedAt = updatedAt := by
  have hsound :=
    (Machine.throughout_of_along Account.sound_start (fun t c ht hc => Account.Sound.call ht c hc)
      hbefore).last
  rcases run_save hsound hproper.1 (hsound.base held) updatedAt hproper.2 with
    ⟨t, hrun, -⟩ | ⟨base', t, v, hrun, hhead, hbody, hgenuine, -, -, -, -, -, hthere⟩
  · rw [hrun] at hsave
    cases hsave
  · rw [hrun] at hsave
    cases hsave
    exact run_loadStored_content hgenuine hproper.1 hhead hbody hthere

end Sound

namespace Brochure

def plan (content : Bytes) (contentId : Option String) : AttachmentInput :=
  ⟨[1], "plan.pdf", "application/pdf", 3, [7], content, contentId, none⟩

def draft (attachments : List AttachmentInput) : DraftContent :=
  ⟨"me@example.org", ["you@example.org"], [], [], ⟨"", "", ""⟩, false, "Plans", false,
    "Half a thought", "", none, attachments⟩

def withPlan : DraftContent := draft [plan [1, 2, 3] none]

def takenOut : List DraftCall :=
  [.save withPlan 0 10 false, .loadStored, .save (draft []) 1 20 false]

def readBack (before : List DraftCall) (content : DraftContent) (held updatedAt : ℕ)
    (force : Bool) : Option DraftContent :=
  let s := Machine.run Account.call Account.start before
  match Prog.run serve (save content (s.base held) updatedAt force) s.kv with
  | (.ok _, kv) => (Prog.run serve loadStored kv).1.toOption.join.map LoadedDraft.content
  | (.error _, _) => none

/-- A save by force on the base that is held leaves out the plan; other bytes under an id that is
stored are not uploaded; and an empty string is left out. -/
theorem part_lost : readBack takenOut withPlan 0 30 true = some (draft []) ∧
    readBack [.save withPlan 0 10 false] (draft [plan [4] none]) 0 20 false = some withPlan ∧
    readBack [] (draft [plan [4] (some "")]) 0 10 false = some (draft [plan [4] none]) := by
  decide

/-- The plan is back after a save by force on a new base. -/
theorem part_restored : ∃ loaded, Prog.run serve loadStored
    (Prog.run serve (save withPlan NEW_DRAFT_BASE 30 true)
      (Machine.run Account.call Account.start takenOut).kv).2 = (.ok (some loaded),
        (Prog.run serve (save withPlan NEW_DRAFT_BASE 30 true)
          (Machine.run Account.call Account.start takenOut).kv).2) ∧
    loaded.content = withPlan ∧ loaded.updatedAt = 30 := by
  have hplan : withPlan.Proper fun _ => [1, 2, 3] := by
    constructor <;> decide
  have hnothing : (draft []).Proper fun _ => [1, 2, 3] := by
    constructor <;> decide
  have hbefore : Machine.Along Account.call (DraftCall.Proper fun _ => [1, 2, 3]) Account.start
      takenOut :=
    ⟨⟨hplan, fun h => nomatch h⟩, trivial, ⟨hnothing, fun h => nomatch h⟩, trivial⟩
  have hnew : (Machine.run Account.call Account.start takenOut).base 9 = NEW_DRAFT_BASE := by decide
  apply @save_reads_back (fun _ => [1, 2, 3]) takenOut hbefore withPlan 9 30 true
    ⟨hplan, fun _ => hnew⟩ ⟨3, 3, ["01"]⟩
  rw [hnew]
  apply Prod.ext
  · decide
  · rfl

end Brochure

end Dmcn.Web.Drafts
