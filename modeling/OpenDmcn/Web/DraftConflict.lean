import OpenDmcn.Lib.Run
import OpenDmcn.Web.Drafts
import Mathlib.Data.Fintype.Basic
import Mathlib.Logic.Function.Basic

/-! Several devices on one draft (`api/draftStore.ts`, over `api/personalStore.ts` and the relay's
`personalkv_store.go`). The requests of their loads, saves and deletes come to the storage one at a
time and in any order; the row and the body have a version each. -/

namespace Dmcn.Web.Drafts

open Requests

section Phases

inductive SavePhase where
  | before
  | between (body : ℕ)
  | after (head body : ℕ)
  | refused
  /-- The body was written, but not the row. -/
  | broken

inductive SaveNext (base : DraftBase) : SavePhase → (r : Request) → (r.Answer → SavePhase) → Prop
  | upload (attId content : String) : SaveNext base .before (.putAtt attId content) fun
      | .ok _ => .before
      | .error _ => .refused
  | body (value : StoredBody) : SaveNext base .before (.putBody value base.body) fun
      | .ok v => .between v
      | .error _ => .refused
  | head (v : ℕ) (value : StoredHead) : SaveNext base (.between v) (.putHead value base.head) fun
      | .ok w => .after w v
      | .error _ => .broken
  | remove (w v : ℕ) (attId : String) : SaveNext base (.after w v) (.deleteAtt attId) fun _ =>
    .after w v

def SaveEnds : SavePhase → Except DraftError DraftBase → Prop
  | .after w v, .ok base => base.head = w ∧ base.body = v
  | .refused, .error _ | .broken, .error _ => True
  | _, _ => False

inductive LoadPhase where
  | start
  | head (w : ℕ)
  | both (w v : ℕ)
  | nothing

inductive LoadNext : LoadPhase → (r : Request) → (r.Answer → LoadPhase) → Prop
  | head : LoadNext .start .getHead fun
      | .ok (some head) => .head head.version
      | _ => .nothing
  | body (w : ℕ) : LoadNext (.head w) .getBody fun
      | .ok (some body) => .both w body.version
      | _ => .nothing
  | att (w v : ℕ) (attId : String) : LoadNext (.both w v) (.getAtt attId) fun
      | .ok _ => .both w v
      | .error _ => .nothing

def LoadEnds : LoadPhase → Except DraftError (Option LoadedDraft) → Prop
  | .both w v, .ok (some loaded) => loaded.base.head = w ∧ loaded.base.body = v
  | .nothing, .ok none | .nothing, .error _ => True
  | _, _ => False

inductive DeleteNext : Unit → (r : Request) → (r.Answer → Unit) → Prop
  | head (f) : DeleteNext () .deleteHead f
  | body (f) : DeleteNext () .deleteBody f
  | att (attId : String) (f) : DeleteNext () (.deleteAtt attId) f
  | list (f) : DeleteNext () .listAtts f

variable {Φ α : Type} {next : Φ → (r : Request) → (r.Answer → Φ) → Prop}
  {ends : Φ → Except DraftError α → Prop} {φ : Φ}
  {r : Request} {k : r.Value → DraftProg α}

theorem obeys_kv {f : r.Answer → Φ} (hnext : next φ r f)
    (hok : ∀ a, Obeys next ends (f (.ok a)) (k a)) (herror : ∀ err,
      ends (f (.error err)) (.error (.request err))) : Obeys next ends φ (kv r >>= k) := by
  refine ⟨f, hnext, fun a => ?_⟩
  cases a with
  | ok a => exact hok a
  | error err => exact herror err

theorem obeys_kvCas {f : r.Answer → Φ} (hnext : next φ r f)
    (hok : ∀ a, Obeys next ends (f (.ok a)) (k a)) (herror : ∀ err err',
      ends (f (.error err)) (.error err')) : Obeys next ends φ (kvCas r >>= k) := by
  refine ⟨f, hnext, fun a => ?_⟩
  cases a with
  | ok a => exact hok a
  | error err =>
    cases err with
    | storageConflict => exact herror .storageConflict .conflict
    | failed => exact herror .failed (.request .failed)

variable {base : DraftBase}

def UploadEnds : SavePhase → Except DraftError (List String) → Prop
  | .before, .ok _ | .refused, .error _ => True
  | _, _ => False

theorem obeys_uploads (want : List (String × AttachmentInput)) (stored : List String) :
    Obeys (SaveNext base) UploadEnds .before (uploads want stored) := by
  induction want generalizing stored with
  | nil => exact trivial
  | cons e want ih =>
    unfold uploads
    split
    · exact ih stored
    · exact obeys_kv (.upload e.1 (toBase64 e.2.content)) (fun _ => ih _) fun _ => trivial

theorem obeys_removals (w v : ℕ) (want : List (String × AttachmentInput))
    (rest stored : List String) :
    Obeys (SaveNext base) (fun φ out => φ = .after w v ∧ ∃ stored', out = .ok stored') (.after w v)
      (removals want rest stored) := by
  induction rest generalizing stored with
  | nil => exact ⟨rfl, stored, rfl⟩
  | cons attId rest ih =>
    unfold removals
    split
    · exact ih stored
    · refine ⟨_, .remove w v attId, fun a => ?_⟩
      cases a with
      | ok _ => exact ih _
      | error _ => exact ih _

theorem obeys_save (content : DraftContent) (base : DraftBase) (updatedAt : ℕ) :
    Obeys (SaveNext base) SaveEnds .before (save content base updatedAt false) := by
  unfold save
  apply Obeys.bind (obeys_uploads content.want _)
  · intro φ stored hφ
    cases φ with
    | before =>
      apply obeys_kvCas (.body content.body)
      · intro v
        apply obeys_kvCas (.head v (content.head updatedAt))
        · intro w
          apply Obeys.bind (obeys_removals w v content.want stored stored)
          · rintro φ left ⟨rfl, -⟩
            exact ⟨rfl, rfl⟩
          · rintro φ err ⟨-, left, hleft⟩
            cases hleft
        · exact fun _ _ => trivial
      · exact fun _ _ => trivial
    | _ => cases hφ
  · intro φ err hφ
    cases φ with
    | refused => trivial
    | _ => cases hφ

theorem obeys_loadAtts (w v : ℕ) (atts : List StoredAttachment) :
    Obeys LoadNext (fun φ out => (φ = .both w v ∧ ∃ l, out = .ok l) ∨ φ = .nothing ∧
      ∃ err, out = .error err) (.both w v)
      (loadAtts atts) := by
  induction atts with
  | nil => exact .inl ⟨rfl, [], rfl⟩
  | cons a atts ih =>
    unfold loadAtts
    apply obeys_kv (.att w v a.id)
    · intro bytes
      apply Obeys.bind ih
      · intro φ loaded hφ
        cases (bytes : Option (Entry String)) with
        | none => exact .inl ⟨(hφ.resolve_right fun h => by cases h.2.choose_spec).1, _, rfl⟩
        | some bytes => exact .inl ⟨(hφ.resolve_right fun h => by cases h.2.choose_spec).1, _, rfl⟩
      · intro φ err hφ
        exact .inr ⟨(hφ.resolve_left fun h => by cases h.2.choose_spec).1, err, rfl⟩
    · exact fun err => .inr ⟨rfl, _, rfl⟩

theorem obeys_loadStored : Obeys LoadNext LoadEnds .start loadStored := by
  unfold loadStored
  apply obeys_kv .head
  · intro head
    cases (head : Option (Entry StoredHead)) with
    | none => exact trivial
    | some head =>
      apply obeys_kv (.body head.version)
      · intro body
        cases (body : Option (Entry StoredBody)) with
        | none => exact trivial
        | some body =>
          apply Obeys.bind (obeys_loadAtts head.version body.version head.value.attachments)
          · rintro φ atts (⟨rfl, -⟩ | ⟨-, err, herr⟩)
            · exact ⟨rfl, rfl⟩
            · cases herr
          · rintro φ err (⟨-, l, hl⟩ | ⟨rfl, -⟩)
            · cases hl
            · trivial
      · exact fun _ => trivial
  · exact fun _ => trivial

theorem obeys_delete : Obeys DeleteNext (fun _ _ => True) () delete := by
  have hatts : ∀ keys : List String, Obeys DeleteNext (fun _ _ => True) () (deleteAtts keys) := by
    intro keys
    induction keys with
    | nil => exact trivial
    | cons attId keys ih =>
      unfold deleteAtts
      exact obeys_kv (.att attId fun _ => ()) (fun _ => ih) fun _ => trivial
  unfold delete
  apply obeys_kv (.head fun _ => ()) _ fun _ => trivial
  intro _
  apply obeys_kv (.body fun _ => ()) _ fun _ => trivial
  intro _
  exact obeys_kv (.list fun _ => ()) (fun keys => hatts keys) fun _ => trivial

end Phases

section World

/-- The storage, with the versions that the row and the body have had and the saves that put them,
the newest first. -/
structure Shelf where
  kv : Kv
  headLog : List (ℕ × ℕ)
  bodyLog : List (ℕ × ℕ)

def writer {α : Type} (cur : Option (Entry α)) (log : List (ℕ × ℕ)) : Option ℕ :=
  cur.bind fun _ => log.head?.map Prod.snd

def Shelf.headWriter (s : Shelf) : Option ℕ := writer s.kv.head s.headLog

def Shelf.bodyWriter (s : Shelf) : Option ℕ := writer s.kv.body s.bodyLog

def Shelf.serve (s : Shelf) (id : ℕ) (r : Request) : r.Answer × Shelf :=
  let out := Drafts.serve r s.kv
  (out.1, ⟨out.2,
    match r, out.1 with
    | .putHead _ _, .ok w => (w, id) :: s.headLog
    | _, _ => s.headLog,
    match r, out.1 with
    | .putBody _ _, .ok v => (v, id) :: s.bodyLog
    | _, _ => s.bodyLog⟩)

structure Held where
  base : DraftBase
  head : Option ℕ
  body : Option ℕ

def Held.new : Held := ⟨NEW_DRAFT_BASE, none, none⟩

/-- What a device is doing. A save keeps in mind what it has put its row and its body over, once it
has. -/
inductive Task where
  | loading (prog : DraftProg (Option LoadedDraft)) (head body : Option ℕ)
  | saving (id : ℕ) (held : Held) (prog : DraftProg DraftBase)
    (overHead overBody : Option (Option ℕ))
  | deleting (prog : DraftProg Unit)

structure SaveOutcome where
  held : Held
  result : Except DraftError DraftBase
  overHead : Option (Option ℕ)
  overBody : Option (Option ℕ)

structure World (ι : Type) where
  shelf : Shelf
  nextId : ℕ
  /-- The bases that devices have got. -/
  helds : List Held
  tasks : ι → Option Task
  outcomes : List SaveOutcome

inductive Op where
  | load
  | save (content : DraftContent) (held : ℕ) (updatedAt : ℕ)
  | delete

inductive DeviceEvent (ι : Type) where
  | begin (i : ι) (op : Op)
  | step (i : ι)

def readHead (s : Shelf) (head : Option ℕ) : Request → Option ℕ
  | .getHead => s.headWriter
  | _ => head

def readBody (s : Shelf) (body : Option ℕ) : Request → Option ℕ
  | .getBody => s.bodyWriter
  | _ => body

def putOverHead (s : Shelf) (prior : Option (Option ℕ)) : (r : Request) → r.Answer →
    Option (Option ℕ)
  | .putHead _ _, .ok _ => some s.headWriter
  | _, _ => prior

def putOverBody (s : Shelf) (prior : Option (Option ℕ)) : (r : Request) → r.Answer →
    Option (Option ℕ)
  | .putBody _ _, .ok _ => some s.bodyWriter
  | _, _ => prior

namespace World

variable {ι : Type} [DecidableEq ι]

def start : World ι := ⟨⟨Kv.empty, [], []⟩, 0, [], fun _ => none, []⟩

def begin' (w : World ι) (i : ι) : Op → World ι
  | .load => { w with tasks := Function.update w.tasks i (some (.loading loadStored none none)) }
  | .save content held updatedAt =>
    let held := w.helds.getD held .new
    { w with
      nextId := w.nextId + 1
      tasks := Function.update w.tasks i
        (some (.saving w.nextId held (save content held.base updatedAt false) none none)) }
  | .delete => { w with tasks := Function.update w.tasks i (some (.deleting delete)) }

def advance (w : World ι) (i : ι) (shelf : Shelf) (task : Task) : World ι :=
  { w with shelf := shelf, tasks := Function.update w.tasks i (some task) }

def finish (w : World ι) (i : ι) (helds : List Held) (outcomes : List SaveOutcome) : World ι :=
  { w with
    tasks := Function.update w.tasks i none
    helds := w.helds ++ helds
    outcomes := w.outcomes ++ outcomes }

def stepTask (w : World ι) (i : ι) : Task → World ι
  | .loading (.ret none) _ _ => w.finish i [] []
  | .loading (.ret (some loaded)) head body => w.finish i [⟨loaded.base, head, body⟩] []
  | .loading (.fail _) _ _ => w.finish i [] []
  | .loading (.ask r cont) head body =>
    let out := w.shelf.serve 0 r
    w.advance i out.2 (.loading (cont out.1) (readHead w.shelf head r) (readBody w.shelf body r))
  | .saving id held (.ret base) overHead overBody =>
    w.finish i [⟨base, some id, some id⟩] [⟨held, .ok base, overHead, overBody⟩]
  | .saving _ held (.fail err) overHead overBody =>
    w.finish i [] [⟨held, .error err, overHead, overBody⟩]
  | .saving id held (.ask r cont) overHead overBody =>
    let out := w.shelf.serve id r
    w.advance i out.2
      (.saving id held (cont out.1) (putOverHead w.shelf overHead r out.1)
        (putOverBody w.shelf overBody r out.1))
  | .deleting (.ret _) => w.finish i [] []
  | .deleting (.fail _) => w.finish i [] []
  | .deleting (.ask r cont) =>
    let out := w.shelf.serve 0 r
    w.advance i out.2 (.deleting (cont out.1))

def step (w : World ι) : DeviceEvent ι → World ι
  | .begin i op => if (w.tasks i).isSome then w else w.begin' i op
  | .step i =>
    match w.tasks i with
    | some task => w.stepTask i task
    | none => w

end World

def Task.Between : Task → Prop
  | .saving _ _ _ overHead overBody => overHead = none ∧ overBody ≠ none
  | _ => False

/-- What the next request of a save may find: a body is put on a new base where there was no body
ever, and else, where its version is that of the base, so is that of the row, and both are of one
save. -/
def Shelf.Takes (s : Shelf) (held : Held) : Request → Prop
  | .putBody _ expected => (expected = 0 → s.bodyLog = []) ∧
      (expected ≠ 0 → (s.kv.body.map Entry.version).getD 0 = expected →
        s.kv.head.map Entry.version = some held.base.head ∧ s.headWriter = s.bodyWriter)
  | _ => True

def World.Spares {ι : Type} (w : World ι) : Request → Prop
  | .deleteHead | .deleteBody => ∀ j, ∀ task ∈ w.tasks j, ¬ task.Between
  | _ => True

def Task.Careful {ι : Type} (w : World ι) : Task → Prop
  | .saving _ held (.ask r _) _ _ => w.shelf.Takes held r
  | .deleting (.ask r _) => w.Spares r
  | _ => True

def DeviceEvent.Careful {ι : Type} (w : World ι) : DeviceEvent ι → Prop
  | .begin _ _ => True
  | .step i => ∀ task ∈ w.tasks i, task.Careful w

section Decidable

variable {ι : Type}

instance : (task : Task) → Decidable task.Between
  | .saving _ _ _ _ _ => inferInstanceAs (Decidable (_ ∧ _))
  | .loading _ _ _ | .deleting _ => isFalse id

instance (s : Shelf) (held : Held) : (r : Request) → Decidable (s.Takes held r)
  | .putBody _ _ => inferInstanceAs (Decidable (_ ∧ _))
  | .getHead | .getBody | .getAtt _ | .putHead _ _ | .putAtt _ _ | .deleteHead | .deleteBody
  | .deleteAtt _ | .listAtts =>
    isTrue trivial

instance [Fintype ι] (w : World ι) : (r : Request) → Decidable (w.Spares r)
  | .deleteHead | .deleteBody =>
    inferInstanceAs (Decidable (∀ j, ∀ task ∈ w.tasks j, ¬ task.Between))
  | .getHead | .getBody | .getAtt _ | .putHead _ _ | .putBody _ _ | .putAtt _ _ | .deleteAtt _
  | .listAtts => isTrue trivial

instance [Fintype ι] (w : World ι) : (task : Task) → Decidable (task.Careful w)
  | .saving _ held (.ask r _) _ _ => inferInstanceAs (Decidable (w.shelf.Takes held r))
  | .deleting (.ask r _) => inferInstanceAs (Decidable (w.Spares r))
  | .loading _ _ _ | .saving _ _ (.ret _) _ _ | .saving _ _ (.fail _) _ _ | .deleting (.ret _)
  | .deleting (.fail _) =>
    isTrue trivial

instance [Fintype ι] (w : World ι) : (e : DeviceEvent ι) → Decidable (e.Careful w)
  | .begin _ _ => isTrue trivial
  | .step i => inferInstanceAs (Decidable (∀ task ∈ w.tasks i, task.Careful w))

end Decidable

/-- A save that failed has put neither, and one that resolved has put both over the row and the body
of one save, which are those of its base, or its base was new and there was nothing. -/
structure SaveOutcome.Faithful (o : SaveOutcome) : Prop where
  failed : ∀ err, o.result = .error err → o.overHead = none ∧ o.overBody = none
  resolved : ∀ base, o.result = .ok base →
    (o.held = .new ∧ o.overHead = some none ∧ o.overBody = some none) ∨
      ∃ id, o.held.head = some id ∧ o.held.body = some id ∧ o.overHead = some (some id) ∧
        o.overBody = some (some id)

end World

section Versions

variable {α : Type} {cur : Option (Entry α)} {log : List (ℕ × ℕ)} {e : Entry α} {a : ℕ}

structure Versions (cur : Option (Entry α)) (log : List (ℕ × ℕ)) : Prop where
  positive : ∀ p ∈ log, p.1 ≠ 0
  newest : ∀ e, cur = some e → ∃ a rest, log = (e.version, a) :: rest ∧ ∀ p ∈ rest, p.1 < e.version

theorem Versions.none {log : List (ℕ × ℕ)} (h : ∀ p ∈ log, p.1 ≠ 0) : Versions (α := α) none log :=
  ⟨h, fun _ he => nomatch he⟩

theorem Versions.exists_writer (h : Versions cur log) (hcur : cur = some e) :
    ∃ a, writer cur log = some a ∧ (e.version, a) ∈ log := by
  obtain ⟨a, rest, hlog, -⟩ := h.newest e hcur
  refine ⟨a, ?_, ?_⟩
  · rw [hcur, hlog]
    rfl
  · rw [hlog]
    exact List.mem_cons_self

theorem Versions.writer_eq (h : Versions cur log) (hcur : cur = some e)
    (hmem : (e.version, a) ∈ log) :
    writer cur log = some a := by
  obtain ⟨b, rest, hlog, hless⟩ := h.newest e hcur
  rw [hlog] at hmem ⊢
  rw [hcur]
  rcases List.mem_cons.mp hmem with heq | hold
  · cases heq
    rfl
  · exact absurd (hless _ hold) (Nat.lt_irrefl _)

theorem Versions.put (h : Versions cur log) (hcur : cur = Option.none → log = []) (value : α)
    (id : ℕ) :
    Versions (some ⟨value, (cur.map Entry.version).getD 0 + 1⟩)
      (((cur.map Entry.version).getD 0 + 1, id) :: log) := by
  refine ⟨fun p hp => ?_, fun e he => ?_⟩
  · rcases List.mem_cons.mp hp with rfl | hold
    · exact Nat.succ_ne_zero _
    · exact h.positive p hold
  · cases he
    refine ⟨id, log, rfl, fun p hp => ?_⟩
    cases hcase : cur with
    | none =>
      rw [hcur hcase] at hp
      cases hp
    | some e =>
      obtain ⟨a, rest, hlog, hless⟩ := h.newest e hcase
      rw [hlog] at hp
      change p.1 < e.version + 1
      rcases List.mem_cons.mp hp with rfl | hold
      · exact Nat.lt_succ_self _
      · exact Nat.lt_succ_of_lt (hless p hold)

end Versions

section Invariant

structure Shelf.Ordered (s : Shelf) : Prop where
  head : Versions s.kv.head s.headLog
  body : Versions s.kv.body s.bodyLog

def Held.Known (s : Shelf) (held : Held) : Prop :=
  held = .new ∨ ∃ a b, held.head = some a ∧ (held.base.head, a) ∈ s.headLog ∧ held.body = some b ∧
    (held.base.body, b) ∈ s.bodyLog

structure Halfway (s : Shelf) (id : ℕ) (held : Held) (v : ℕ) (prior : Option ℕ) : Prop where
  body : s.kv.body ≠ none
  written : ∃ rest, s.bodyLog = (v, id) :: rest
  unnamed : ∀ p ∈ s.headLog, p.2 ≠ id
  row : (held = .new ∧ s.kv.head = none ∧ s.headLog = [] ∧ prior = none) ∨
    ∃ a head, held.head = some a ∧ held.body = some a ∧ prior = some a ∧ s.kv.head = some head ∧
      head.version = held.base.head ∧ s.headWriter = some a

def SavePhase.Ok (s : Shelf) (id : ℕ) (held : Held) (overHead overBody : Option (Option ℕ)) :
    SavePhase → Prop
  | .before => overHead = none ∧ overBody = none ∧ (∀ p ∈ s.headLog, p.2 ≠ id) ∧ ∀ p ∈ s.bodyLog,
    p.2 ≠ id
  | .between v => overHead = none ∧ ∃ prior, overBody = some prior ∧ Halfway s id held v prior
  | .after w v => (w, id) ∈ s.headLog ∧ (v, id) ∈ s.bodyLog ∧ overHead ≠ none ∧
      ∀ result, SaveOutcome.Faithful ⟨held, .ok result, overHead, overBody⟩
  | .refused => overHead = none ∧ overBody = none
  | .broken => False

def LoadPhase.Ok (s : Shelf) (head body : Option ℕ) : LoadPhase → Prop
  | .start | .nothing => True
  | .head w => ∃ a, head = some a ∧ (w, a) ∈ s.headLog
  | .both w v => (∃ a, head = some a ∧ (w, a) ∈ s.headLog) ∧ ∃ b, body = some b ∧ (v, b) ∈ s.bodyLog

def Task.Ok (s : Shelf) (nextId : ℕ) : Task → Prop
  | .loading prog head body => ∃ φ, Obeys LoadNext LoadEnds φ prog ∧ φ.Ok s head body
  | .saving id held prog overHead overBody => id < nextId ∧ held.Known s ∧
      ∃ φ, Obeys (SaveNext held.base) SaveEnds φ prog ∧ φ.Ok s id held overHead overBody
  | .deleting prog => Obeys DeleteNext (fun _ _ => True) () prog

def Task.id : Task → Option ℕ
  | .saving id _ _ _ _ => some id
  | _ => none

variable {s s' : Shelf} {n n' : ℕ}

theorem Held.Known.mono {held : Held} (h : held.Known s) (hhead : s.headLog ⊆ s'.headLog)
    (hbody : s.bodyLog ⊆ s'.bodyLog) :
    held.Known s' := by
  rcases h with hnew | ⟨a, b, ha, hhead', hb, hbody'⟩
  · exact .inl hnew
  · exact .inr ⟨a, b, ha, hhead hhead', hb, hbody hbody'⟩

/-- A shelf on which others have gone on: nothing is gone from the logs, nothing is new in them but
by other saves. -/
structure Shelf.Onward (s s' : Shelf) (id : Option ℕ) : Prop where
  head : s.headLog ⊆ s'.headLog
  body : s.bodyLog ⊆ s'.bodyLog
  headNew : ∀ p ∈ s'.headLog, p ∈ s.headLog ∨ some p.2 ≠ id
  bodyNew : ∀ p ∈ s'.bodyLog, p ∈ s.bodyLog ∨ some p.2 ≠ id

theorem Task.Ok.onward {t : Task} (h : t.Ok s n) (hn : n ≤ n') (hs : s.Onward s' t.id)
    (hhalf : t.Between → s'.kv.head = s.kv.head ∧ s'.kv.body = s.kv.body ∧ s'.headLog = s.headLog ∧
      s'.bodyLog = s.bodyLog) :
    t.Ok s' n' := by
  cases t with
  | loading prog head body =>
    obtain ⟨φ, hobeys, hφ⟩ := h
    refine ⟨φ, hobeys, ?_⟩
    cases φ with
    | start => trivial
    | nothing => trivial
    | head w =>
      obtain ⟨a, ha, hmem⟩ := hφ
      exact ⟨a, ha, hs.head hmem⟩
    | both w v =>
      obtain ⟨⟨a, ha, hmem⟩, b, hb, hmem'⟩ := hφ
      exact ⟨⟨a, ha, hs.head hmem⟩, b, hb, hs.body hmem'⟩
  | saving id held prog overHead overBody =>
    obtain ⟨hid, hheld, φ, hobeys, hφ⟩ := h
    refine ⟨hid.trans_le hn, hheld.mono hs.head hs.body, φ, hobeys, ?_⟩
    cases φ with
    | before =>
      obtain ⟨hoverHead, hoverBody, hhead, hbody⟩ := hφ
      refine ⟨hoverHead, hoverBody, fun p hp => ?_, fun p hp => ?_⟩
      · rcases hs.headNew p hp with hold | hnew
        · exact hhead p hold
        · exact fun heq => hnew (congrArg some heq)
      · rcases hs.bodyNew p hp with hold | hnew
        · exact hbody p hold
        · exact fun heq => hnew (congrArg some heq)
    | between v =>
      obtain ⟨hoverHead, prior, hprior, hway⟩ := hφ
      obtain ⟨hhead, hbody, hheadLog, hbodyLog⟩ :=
        hhalf ⟨hoverHead, by rw [hprior]; exact Option.some_ne_none prior⟩
      refine ⟨hoverHead, prior, hprior, ?_⟩
      obtain ⟨h₁, h₂, h₃, h₄⟩ := hway
      refine ⟨by rwa [hbody], by rwa [hbodyLog], by rwa [hheadLog], ?_⟩
      unfold Shelf.headWriter at h₄ ⊢
      rw [hhead, hheadLog]
      exact h₄
    | after w v =>
      obtain ⟨hhead, hbody, hprior, hfaithful⟩ := hφ
      exact ⟨hs.head hhead, hs.body hbody, hprior, hfaithful⟩
    | refused => exact hφ
    | broken => exact hφ
  | deleting prog => exact h

end Invariant

section Step

variable {ι : Type} [DecidableEq ι] {w : World ι} {i : ι} {t : Task}

structure World.Ok (w : World ι) : Prop where
  shelf : w.shelf.Ordered
  begun : w.shelf.bodyLog = [] → w.shelf.headLog = []
  named : (∀ p ∈ w.shelf.headLog, p.2 < w.nextId) ∧ ∀ p ∈ w.shelf.bodyLog, p.2 < w.nextId
  helds : ∀ held ∈ w.helds, held.Known w.shelf
  tasks : ∀ i t, w.tasks i = some t → t.Ok w.shelf w.nextId
  ids : ∀ i j t u, w.tasks i = some t → w.tasks j = some u → t.id = u.id → t.id ≠ none → i = j
  outcomes : ∀ o ∈ w.outcomes, o.Faithful

omit [DecidableEq ι] in
theorem World.ok_start : (start : World ι).Ok where
  shelf := ⟨Versions.none fun _ hp => absurd hp List.not_mem_nil, Versions.none fun _ hp =>
    absurd hp List.not_mem_nil⟩
  begun := fun _ => rfl
  named := ⟨fun _ hp => absurd hp List.not_mem_nil, fun _ hp => absurd hp List.not_mem_nil⟩
  helds := fun _ hheld => absurd hheld List.not_mem_nil
  tasks := fun _ _ ht => nomatch ht
  ids := fun _ _ _ _ ht => nomatch ht
  outcomes := fun _ ho => absurd ho List.not_mem_nil

structure Shelf.Adds (s s' : Shelf) (id : Option ℕ) : Prop where
  head : s'.headLog = s.headLog ∨ ∃ a w, id = some a ∧ s'.headLog = (w, a) :: s.headLog
  body : s'.bodyLog = s.bodyLog ∨ ∃ a v, id = some a ∧ s'.bodyLog = (v, a) :: s.bodyLog

theorem Shelf.Adds.onward {s s' : Shelf} {id id' : Option ℕ} (h : s.Adds s' id)
    (hne : id ≠ none → id ≠ id') :
    s.Onward s' id' := by
  have hlog : ∀ {log log' : List (ℕ × ℕ)},
      (log' = log ∨ ∃ a w, id = some a ∧ log' = (w, a) :: log) →
      log ⊆ log' ∧ ∀ p ∈ log', p ∈ log ∨ some p.2 ≠ id' := by
    rintro log log' (rfl | ⟨a, w, hid, rfl⟩)
    · exact ⟨fun p hp => hp, fun p hp => .inl hp⟩
    · refine ⟨List.subset_cons_self _ _, fun p hp => ?_⟩
      rcases List.mem_cons.mp hp with rfl | hold
      · right
        rw [← hid]
        exact hne (by rw [hid]; exact Option.some_ne_none a)
      · exact .inl hold
  exact ⟨(hlog h.head).1, (hlog h.body).1, (hlog h.head).2, (hlog h.body).2⟩

theorem World.Ok.advance (h : w.Ok) (hi : w.tasks i = some t) {shelf : Shelf} {t' : Task}
    (hordered : shelf.Ordered) (hbegun : shelf.bodyLog = [] → shelf.headLog = [])
    (hid : t'.id = t.id) (ht' : t'.Ok shelf w.nextId) (hadds : w.shelf.Adds shelf t.id)
    (hhalf : ∀ j u, j ≠ i → w.tasks j = some u → u.Between → shelf.kv.head = w.shelf.kv.head ∧
      shelf.kv.body = w.shelf.kv.body ∧ shelf.headLog = w.shelf.headLog ∧
        shelf.bodyLog = w.shelf.bodyLog) :
    (w.advance i shelf t').Ok := by
  have hold : w.shelf.Onward shelf none := hadds.onward fun h => h
  have hbound : ∀ a, t.id = some a → a < w.nextId := by
    intro a ha
    have hti := h.tasks i t hi
    cases t with
    | saving id held prog overHead overBody =>
      cases ha
      exact hti.1
    | _ => cases ha
  have hlogs : ∀ {log log' : List (ℕ × ℕ)}, (∀ p ∈ log, p.2 < w.nextId) →
      (log' = log ∨ ∃ a v, t.id = some a ∧ log' = (v, a) :: log) → ∀ p ∈ log', p.2 < w.nextId := by
    rintro log log' hlog (rfl | ⟨a, v, ha, rfl⟩) p hp
    · exact hlog p hp
    · rcases List.mem_cons.mp hp with rfl | hp
      · exact hbound a ha
      · exact hlog p hp
  refine ⟨hordered, hbegun, ⟨hlogs h.named.1 hadds.head, hlogs h.named.2 hadds.body⟩,
    fun held hheld => ?_, fun j u hu => ?_, fun j k u v hu hv heq hne => ?_, h.outcomes⟩
  · exact (h.helds held hheld).mono hold.head hold.body
  · by_cases hj : j = i
    · subst hj
      change Function.update w.tasks j (some t') j = some u at hu
      rw [Function.update_self] at hu
      cases hu
      exact ht'
    · change Function.update w.tasks i (some t') j = some u at hu
      rw [Function.update_of_ne hj] at hu
      have hdistinct : t.id ≠ none → t.id ≠ u.id := by
        intro hne heq
        exact hj (h.ids i j t u hi hu heq hne).symm
      exact (h.tasks j u hu).onward le_rfl (hadds.onward hdistinct) (hhalf j u hj hu)
  · have htask : ∀ l x, (w.advance i shelf t').tasks l = some x → ∃ y, w.tasks l = some y ∧
        y.id = x.id := by
      intro l x hx
      change Function.update w.tasks i (some t') l = some x at hx
      by_cases hl : l = i
      · subst hl
        rw [Function.update_self] at hx
        cases hx
        exact ⟨t, hi, hid.symm⟩
      · rw [Function.update_of_ne hl] at hx
        exact ⟨x, hx, rfl⟩
    obtain ⟨u', hu', hid₁⟩ := htask j u hu
    obtain ⟨v', hv', hid₂⟩ := htask k v hv
    apply h.ids j k u' v' hu' hv'
    · rw [hid₁, hid₂, heq]
    · rwa [hid₁]

theorem World.Ok.finish (h : w.Ok) (i : ι) {helds : List Held} {outcomes : List SaveOutcome}
    (hhelds : ∀ held ∈ helds, held.Known w.shelf) (houtcomes : ∀ o ∈ outcomes, o.Faithful) :
    (w.finish i helds outcomes).Ok := by
  have htask : ∀ l x, (w.finish i helds outcomes).tasks l = some x → w.tasks l = some x := by
    intro l x hx
    change Function.update w.tasks i none l = some x at hx
    by_cases hl : l = i
    · subst hl
      rw [Function.update_self] at hx
      cases hx
    · rwa [Function.update_of_ne hl] at hx
  refine ⟨h.shelf, h.begun, h.named, fun held hheld => ?_, fun j u hu => h.tasks j u (htask j u hu),
    fun j k u v hu hv => h.ids j k u v (htask j u hu) (htask k v hv), fun o ho => ?_⟩
  · rcases List.mem_append.mp hheld with hold | hnew
    · exact h.helds held hold
    · exact hhelds held hnew
  · rcases List.mem_append.mp ho with hold | hnew
    · exact h.outcomes o hold
    · exact houtcomes o hnew

theorem World.Ok.enlist (h : w.Ok) (hi : w.tasks i = none) {n : ℕ} (hn : w.nextId ≤ n)
    (ht : t.Ok w.shelf n) (hid : t.id = none ∨ t.id = some w.nextId) :
    World.Ok { w with nextId := n, tasks := Function.update w.tasks i (some t) } := by
  have htask : ∀ l x, Function.update w.tasks i (some t) l = some x → l ≠ i ∧ w.tasks l = some x ∨
      l = i ∧ x = t := by
    intro l x hx
    by_cases hl : l = i
    · subst hl
      rw [Function.update_self] at hx
      cases hx
      exact .inr ⟨rfl, rfl⟩
    · rw [Function.update_of_ne hl] at hx
      exact .inl ⟨hl, hx⟩
  have hfresh : ∀ l x, w.tasks l = some x → t.id ≠ none → x.id ≠ t.id := by
    intro l x hx hne heq
    have hok := h.tasks l x hx
    cases x with
    | saving id held prog overHead overBody =>
      rw [hid.resolve_left hne] at heq
      cases heq
      exact absurd hok.1 (Nat.lt_irrefl _)
    | _ => exact hne heq.symm
  refine ⟨h.shelf, h.begun,
    ⟨fun p hp => (h.named.1 p hp).trans_le hn, fun p hp => (h.named.2 p hp).trans_le hn⟩, h.helds,
    fun j u hu => ?_, fun j k u v hu hv heq hne => ?_, h.outcomes⟩
  · rcases htask j u hu with ⟨-, hold⟩ | ⟨-, rfl⟩
    · have hsame : w.shelf.Onward w.shelf u.id :=
        ⟨fun p hp => hp, fun p hp => hp, fun p hp => .inl hp, fun p hp => .inl hp⟩
      exact (h.tasks j u hold).onward hn hsame fun _ => ⟨rfl, rfl, rfl, rfl⟩
    · exact ht
  · rcases htask j u hu with ⟨-, hu'⟩ | ⟨rfl, rfl⟩
    · rcases htask k v hv with ⟨-, hv'⟩ | ⟨rfl, rfl⟩
      · exact h.ids j k u v hu' hv' heq hne
      · exact absurd heq (hfresh j u hu' (by rwa [← heq]))
    · rcases htask k v hv with ⟨-, hv'⟩ | ⟨rfl, rfl⟩
      · exact absurd heq.symm (hfresh k v hv' hne)
      · rfl

def Request.Quiet : Request → Prop
  | .putHead _ _ | .putBody _ _ | .deleteHead | .deleteBody => False
  | _ => True

theorem Shelf.serve_quiet (s : Shelf) (id : ℕ) {r : Request} (h : r.Quiet) :
    (s.serve id r).2.kv.head = s.kv.head ∧ (s.serve id r).2.kv.body = s.kv.body ∧
      (s.serve id r).2.headLog = s.headLog ∧ (s.serve id r).2.bodyLog = s.bodyLog := by
  cases r with
  | putHead _ _ => exact h.elim
  | putBody _ _ => exact h.elim
  | deleteHead => exact h.elim
  | deleteBody => exact h.elim
  | putAtt attId content =>
    unfold Shelf.serve
    rw [serve_putAtt]
    exact ⟨rfl, rfl, rfl, rfl⟩
  | _ => exact ⟨rfl, rfl, rfl, rfl⟩

theorem World.Ok.quiet (h : w.Ok) (hi : w.tasks i = some t) {r : Request} (hquiet : r.Quiet)
    (id : ℕ) {t' : Task} (hid : t'.id = t.id) (ht' : t'.Ok (w.shelf.serve id r).2 w.nextId) :
    (w.advance i (w.shelf.serve id r).2 t').Ok := by
  obtain ⟨hhead, hbody, hheadLog, hbodyLog⟩ := w.shelf.serve_quiet id hquiet
  apply h.advance hi _ _ hid ht' ⟨.inl hheadLog, .inl hbodyLog⟩ fun _ _ _ _ _ =>
    ⟨hhead, hbody, hheadLog, hbodyLog⟩
  · constructor
    · rw [hhead, hheadLog]
      exact h.shelf.head
    · rw [hbody, hbodyLog]
      exact h.shelf.body
  · rw [hheadLog, hbodyLog]
    exact h.begun

theorem World.Ok.load_step (h : w.Ok) {prog : DraftProg (Option LoadedDraft)} {head body : Option ℕ}
    (hi : w.tasks i = some (.loading prog head body)) :
    (w.stepTask i (.loading prog head body)).Ok := by
  obtain ⟨φ, hobeys, hφ⟩ := h.tasks i _ hi
  rcases prog with (_ | loaded) | err | ⟨r, cont⟩
  · exact h.finish i (fun _ hheld => absurd hheld List.not_mem_nil) fun _ ho =>
      absurd ho List.not_mem_nil
  · refine h.finish i (fun held hheld => ?_) fun _ ho => absurd ho List.not_mem_nil
    rw [List.mem_singleton.mp hheld]
    cases φ with
    | both w v =>
      obtain ⟨hw, hv⟩ := hobeys
      obtain ⟨⟨a, ha, hmem⟩, b, hb, hmem'⟩ := hφ
      rw [← hw] at hmem
      rw [← hv] at hmem'
      exact .inr ⟨a, b, ha, hmem, hb, hmem'⟩
    | _ => cases hobeys
  · exact h.finish i (fun _ hheld => absurd hheld List.not_mem_nil) fun _ ho =>
      absurd ho List.not_mem_nil
  · obtain ⟨f, hnext, hcont⟩ := hobeys
    change (w.advance i (w.shelf.serve 0 r).2
      (.loading (cont (w.shelf.serve 0 r).1) (readHead w.shelf head r)
        (readBody w.shelf body r))).Ok
    cases hnext with
    | head =>
      refine h.quiet hi (show Request.Quiet .getHead from trivial) 0 ?_ ⟨_, hcont _, ?_⟩
      · rfl
      have hanswer : (w.shelf.serve 0 .getHead).1 = .ok w.shelf.kv.head := rfl
      rw [hanswer]
      cases hhead : w.shelf.kv.head with
      | none => trivial
      | some e =>
        obtain ⟨a, hwriter, hmem⟩ := h.shelf.head.exists_writer hhead
        exact ⟨a, hwriter, hmem⟩
    | body v =>
      refine h.quiet hi (show Request.Quiet .getBody from trivial) 0 ?_ ⟨_, hcont _, ?_⟩
      · rfl
      have hanswer : (w.shelf.serve 0 .getBody).1 = .ok w.shelf.kv.body := rfl
      rw [hanswer]
      cases hbody : w.shelf.kv.body with
      | none => trivial
      | some e =>
        obtain ⟨a, hwriter, hmem⟩ := h.shelf.body.exists_writer hbody
        exact ⟨hφ, a, hwriter, hmem⟩
    | att u v attId =>
      refine h.quiet hi (show Request.Quiet (.getAtt attId) from trivial) 0 ?_ ⟨_, hcont _, hφ⟩
      rfl

theorem World.Ok.delete_step (h : w.Ok) {prog : DraftProg Unit}
    (hi : w.tasks i = some (.deleting prog)) (hcareful : Task.Careful w (.deleting prog)) :
    (w.stepTask i (.deleting prog)).Ok := by
  have hobeys := h.tasks i _ hi
  rcases prog with a | err | ⟨r, cont⟩
  · exact h.finish i (fun _ hheld => absurd hheld List.not_mem_nil) fun _ ho =>
      absurd ho List.not_mem_nil
  · exact h.finish i (fun _ hheld => absurd hheld List.not_mem_nil) fun _ ho =>
      absurd ho List.not_mem_nil
  · obtain ⟨f, hnext, hcont⟩ := hobeys
    change (w.advance i (w.shelf.serve 0 r).2 (.deleting (cont (w.shelf.serve 0 r).1))).Ok
    cases hnext with
    | head =>
      apply h.advance hi
      · exact ⟨Versions.none h.shelf.head.positive, h.shelf.body⟩
      · exact h.begun
      · rfl
      · exact hcont _
      · exact ⟨.inl rfl, .inl rfl⟩
      · exact fun j u _ hu hbetween => absurd hbetween (hcareful j u hu)
    | body =>
      apply h.advance hi
      · exact ⟨h.shelf.head, Versions.none h.shelf.body.positive⟩
      · exact h.begun
      · rfl
      · exact hcont _
      · exact ⟨.inl rfl, .inl rfl⟩
      · exact fun j u _ hu hbetween => absurd hbetween (hcareful j u hu)
    | att attId =>
      refine h.quiet hi (show Request.Quiet (.deleteAtt attId) from trivial) 0 ?_ (hcont _)
      rfl
    | list =>
      refine h.quiet hi (show Request.Quiet .listAtts from trivial) 0 ?_ (hcont _)
      rfl

theorem Held.Known.new_of_base {s : Shelf} {held : Held} (h : held.Known s) (hs : s.Ordered)
    (hzero : held.base.body = 0 ∨ held.base.head = 0) : held = .new := by
  rcases h with hnew | ⟨a, b, -, hhead, -, hbody⟩
  · exact hnew
  · rcases hzero with hzero | hzero
    · exact absurd hzero (hs.body.positive _ hbody)
    · exact absurd hzero (hs.head.positive _ hhead)

theorem World.stepTask_saving (w : World ι) (i : ι) (id : ℕ) (held : Held) (r : Request)
    (cont : r.Answer → DraftProg DraftBase) (overHead overBody : Option (Option ℕ)) :
    w.stepTask i (.saving id held (.ask r cont) overHead overBody) =
      w.advance i (w.shelf.serve id r).2 (.saving id held (cont (w.shelf.serve id r).1)
        (putOverHead w.shelf overHead r (w.shelf.serve id r).1)
          (putOverBody w.shelf overBody r (w.shelf.serve id r).1)) := rfl

omit [DecidableEq ι] in
theorem World.Ok.before_body (h : w.Ok) {id : ℕ} {held : Held} {value : StoredBody}
    {cont : Request.Answer (.putBody value held.base.body) → DraftProg DraftBase}
    {overHead overBody : Option (Option ℕ)} (hi : w.tasks i =
      some (.saving id held (.ask (.putBody value held.base.body) cont) overHead overBody))
    (hcareful : Task.Careful w
      (.saving id held (.ask (.putBody value held.base.body) cont) overHead overBody))
    (hput : held.base.body = 0 ∨ (w.shelf.kv.body.map Entry.version).getD 0 = held.base.body) :
    (w.shelf.kv.body = none → w.shelf.bodyLog = []) ∧
      ((held = .new ∧ w.shelf.kv.head = none ∧ w.shelf.headLog = [] ∧ w.shelf.bodyWriter = none) ∨
        ∃ a head, held.head = some a ∧ held.body = some a ∧ w.shelf.bodyWriter = some a ∧
          w.shelf.kv.head = some head ∧ head.version = held.base.head ∧
            w.shelf.headWriter = some a) ∧
      ∀ j u, w.tasks j = some u → ¬ u.Between := by
  obtain ⟨-, hheld, -⟩ := h.tasks i _ hi
  obtain ⟨hfirst, hlater⟩ := hcareful
  -- a save that is halfway has put the newest body, which no row is of
  have halfway : ∀ j u, w.tasks j = some u → u.Between →
      ∃ a v rest, w.shelf.bodyLog = (v, a) :: rest ∧ w.shelf.kv.body ≠ none ∧ ∀ p ∈ w.shelf.headLog,
        p.2 ≠ a := by
    intro j u hu hbetween
    have hok := h.tasks j u hu
    cases u with
    | saving a held' prog oh ob =>
      obtain ⟨hoh, hob⟩ := hbetween
      obtain ⟨-, -, φ, -, hφ⟩ := hok
      cases φ with
      | before => exact absurd hφ.2.1 hob
      | between v =>
        obtain ⟨-, prior, -, hway⟩ := hφ
        obtain ⟨rest, hlog⟩ := hway.written
        exact ⟨a, v, rest, hlog, hway.body, hway.unnamed⟩
      | after _ _ => exact absurd hoh hφ.2.2.1
      | refused => exact absurd hφ.2 hob
      | broken => exact hφ.elim
    | loading _ _ _ => exact hbetween.elim
    | deleting _ => exact hbetween.elim
  by_cases hzero : held.base.body = 0
  · have hnothing := hfirst hzero
    have hnoHead := h.begun hnothing
    have hkvHead : w.shelf.kv.head = none := by
      cases hcase : w.shelf.kv.head with
      | none => rfl
      | some e =>
        obtain ⟨a, rest, hlog, -⟩ := h.shelf.head.newest e hcase
        rw [hnoHead] at hlog
        cases hlog
    have hwriter : w.shelf.bodyWriter = none := by
      cases hcase : w.shelf.kv.body with
      | none =>
        unfold Shelf.bodyWriter
        rw [hcase]
        rfl
      | some e =>
        obtain ⟨a, rest, hlog, -⟩ := h.shelf.body.newest e hcase
        rw [hnothing] at hlog
        cases hlog
    refine ⟨fun _ => hnothing, .inl ⟨hheld.new_of_base h.shelf (.inl hzero), hkvHead, hnoHead,
      hwriter⟩, fun j u hu hbetween => ?_⟩
    obtain ⟨a, v, rest, hlog, -⟩ := halfway j u hu hbetween
    rw [hnothing] at hlog
    cases hlog
  · have hversion := hput.resolve_left hzero
    obtain ⟨hheadVersion, hsame⟩ := hlater hzero hversion
    obtain ⟨body, hbody, hbodyVersion⟩ : ∃ body, w.shelf.kv.body = some body ∧
        body.version = held.base.body := by
      cases hcase : w.shelf.kv.body with
      | none =>
        rw [hcase] at hversion
        exact absurd hversion.symm hzero
      | some body =>
        rw [hcase] at hversion
        exact ⟨body, rfl, hversion⟩
    obtain ⟨head, hhead, hheadVersion⟩ := Option.map_eq_some_iff.mp hheadVersion
    refine ⟨fun hnone => ?_, .inr ?_, fun j u hu hbetween => ?_⟩
    · rw [hbody] at hnone
      cases hnone
    · rcases hheld with rfl | ⟨a, b, ha, hmem, hb, hmem'⟩
      · exact absurd rfl hzero
      · rw [← hheadVersion] at hmem
        rw [← hbodyVersion] at hmem'
        have hwriter := h.shelf.head.writer_eq hhead hmem
        have hwriter' := h.shelf.body.writer_eq hbody hmem'
        have heq : some a = some b := hwriter.symm.trans (hsame.trans hwriter')
        exact ⟨a, head, ha, hb.trans heq.symm, hwriter'.trans heq.symm, hhead, hheadVersion,
          hwriter⟩
    · obtain ⟨a, v, rest, hlog, hne, hunnamed⟩ := halfway j u hu hbetween
      obtain ⟨b, hwriter, hmem⟩ := h.shelf.head.exists_writer hhead
      have hwriter' : w.shelf.bodyWriter = some a := by
        unfold Shelf.bodyWriter
        rw [hbody, hlog]
        rfl
      have heq : some b = some a := hwriter.symm.trans (hsame.trans hwriter')
      exact hunnamed _ hmem (Option.some.inj heq)

theorem World.Ok.putBody_step (h : w.Ok) {id : ℕ} {held : Held} {value : StoredBody}
    {cont : Request.Answer (.putBody value held.base.body) → DraftProg DraftBase}
    {overHead overBody : Option (Option ℕ)} (hi : w.tasks i =
      some (.saving id held (.ask (.putBody value held.base.body) cont) overHead overBody))
    (hcareful : Task.Careful w
      (.saving id held (.ask (.putBody value held.base.body) cont) overHead overBody))
    (hφ : SavePhase.before.Ok w.shelf id held overHead overBody)
    (hok : ∀ v, Obeys (SaveNext held.base) SaveEnds (.between v) (cont (.ok v)))
    (herror : ∀ err, Obeys (SaveNext held.base) SaveEnds .refused (cont (.error err))) :
    (w.stepTask i
      (.saving id held (.ask (.putBody value held.base.body) cont) overHead overBody)).Ok := by
  obtain ⟨hid, hheld, -⟩ := h.tasks i _ hi
  obtain ⟨hoverHead, hoverBody, hunnamed, -⟩ := hφ
  by_cases hput : held.base.body = 0 ∨ (w.shelf.kv.body.map Entry.version).getD 0 = held.base.body
  · obtain ⟨hnone, hrow, halone⟩ := h.before_body hi hcareful hput
    let v := (w.shelf.kv.body.map Entry.version).getD 0 + 1
    let shelf : Shelf :=
      ⟨{ w.shelf.kv with body := some ⟨value, v⟩ }, w.shelf.headLog, (v, id) :: w.shelf.bodyLog⟩
    have hserve : w.shelf.serve id (.putBody value held.base.body) = (.ok v, shelf) := by
      unfold Shelf.serve
      rw [serve_putBody hput]
      rfl
    have hstep : w.stepTask i
        (.saving id held (.ask (.putBody value held.base.body) cont) overHead overBody) =
        w.advance i shelf (.saving id held (cont (.ok v)) overHead (some w.shelf.bodyWriter)) := by
      rw [World.stepTask_saving, hserve]
      rfl
    rw [hstep]
    apply h.advance hi
    · exact ⟨h.shelf.head, h.shelf.body.put hnone value id⟩
    · exact fun hempty => absurd hempty (List.cons_ne_nil _ _)
    · rfl
    · refine ⟨hid, hheld.mono (fun p hp => hp) (List.subset_cons_self _ _), .between v, hok v,
        hoverHead, _, rfl, ?_⟩
      exact ⟨Option.some_ne_none _, ⟨_, rfl⟩, hunnamed, hrow⟩
    · exact ⟨.inl rfl, .inr ⟨id, v, rfl, rfl⟩⟩
    · exact fun j u _ hu hbetween => absurd hbetween (halone j u hu)
  · rw [not_or] at hput
    have hserve : w.shelf.serve id (.putBody value held.base.body) =
        (.error .storageConflict, w.shelf) := by
      unfold Shelf.serve Drafts.serve
      dsimp only
      rw [put_conflict hput.1 hput.2]
    have hstep : w.stepTask i
        (.saving id held (.ask (.putBody value held.base.body) cont) overHead overBody) =
        w.advance i w.shelf
          (.saving id held (cont (.error .storageConflict)) overHead overBody) := by
      rw [World.stepTask_saving, hserve]
      rfl
    rw [hstep]
    apply h.advance hi
    · exact h.shelf
    · exact h.begun
    · rfl
    · exact ⟨hid, hheld, .refused, herror .storageConflict, hoverHead, hoverBody⟩
    · exact ⟨.inl rfl, .inl rfl⟩
    · exact fun _ _ _ _ _ => ⟨rfl, rfl, rfl, rfl⟩

theorem World.Ok.putHead_step (h : w.Ok) {id : ℕ} {held : Held} {value : StoredHead}
    {cont : Request.Answer (.putHead value held.base.head) → DraftProg DraftBase}
    {overHead overBody : Option (Option ℕ)} (hi : w.tasks i =
      some (.saving id held (.ask (.putHead value held.base.head) cont) overHead overBody))
    {v : ℕ} (hφ : (SavePhase.between v).Ok w.shelf id held overHead overBody)
    (hok : ∀ u, Obeys (SaveNext held.base) SaveEnds (.after u v) (cont (.ok u))) :
    (w.stepTask i
      (.saving id held (.ask (.putHead value held.base.head) cont) overHead overBody)).Ok := by
  obtain ⟨hid, hheld, -⟩ := h.tasks i _ hi
  obtain ⟨hoverHead, prior, hoverBody, hway⟩ := hφ
  obtain ⟨rest, hlog⟩ := hway.written
  have hput : held.base.head = 0 ∨ (w.shelf.kv.head.map Entry.version).getD 0 = held.base.head := by
    rcases hway.row with ⟨rfl, -⟩ | ⟨a, head, -, -, -, hhead, hversion, -⟩
    · exact .inl rfl
    · right
      rw [hhead]
      exact hversion
  have hnone : w.shelf.kv.head = none → w.shelf.headLog = [] := by
    intro hnone
    rcases hway.row with ⟨-, -, hempty, -⟩ | ⟨a, head, -, -, -, hhead, -⟩
    · exact hempty
    · rw [hnone] at hhead
      cases hhead
  have hfaithful : ∀ result,
      SaveOutcome.Faithful ⟨held, .ok result, some w.shelf.headWriter, overBody⟩ := by
    intro result
    refine ⟨fun err herr => (nomatch herr), fun base hbase => ?_⟩
    rcases hway.row with ⟨hnew, hhead, -, hprior⟩ | ⟨a, head, ha, hb, hprior, -, -, hwriter⟩
    · left
      refine ⟨hnew, ?_, by rw [hoverBody, hprior]⟩
      unfold Shelf.headWriter
      rw [hhead]
      rfl
    · exact .inr ⟨a, ha, hb, by rw [hwriter], by rw [hoverBody, hprior]⟩
  let u := (w.shelf.kv.head.map Entry.version).getD 0 + 1
  let shelf : Shelf :=
    ⟨{ w.shelf.kv with head := some ⟨value, u⟩ }, (u, id) :: w.shelf.headLog, w.shelf.bodyLog⟩
  have hserve : w.shelf.serve id (.putHead value held.base.head) = (.ok u, shelf) := by
    unfold Shelf.serve
    rw [serve_putHead hput]
    rfl
  have hstep :
      w.stepTask i (.saving id held (.ask (.putHead value held.base.head) cont) overHead overBody) =
      w.advance i shelf (.saving id held (cont (.ok u)) (some w.shelf.headWriter) overBody) := by
    rw [World.stepTask_saving, hserve]
    rfl
  rw [hstep]
  apply h.advance hi
  · exact ⟨h.shelf.head.put hnone value id, h.shelf.body⟩
  · intro hempty
    change w.shelf.bodyLog = [] at hempty
    rw [hlog] at hempty
    cases hempty
  · rfl
  · refine ⟨hid, hheld.mono (List.subset_cons_self _ _) (fun p hp => hp), .after u v, hok u,
      List.mem_cons_self, ?_, Option.some_ne_none _, hfaithful⟩
    change (v, id) ∈ w.shelf.bodyLog
    rw [hlog]
    exact List.mem_cons_self
  · exact ⟨.inr ⟨id, u, rfl, rfl⟩, .inl rfl⟩
  · -- no other save is halfway: the newest body would be of both
    intro j t hj ht hbetween
    have hok' := h.tasks j t ht
    cases t with
    | saving a held' prog oh ob =>
      obtain ⟨hoh, hob⟩ := hbetween
      obtain ⟨-, -, φ, -, hφ'⟩ := hok'
      cases φ with
      | before => exact absurd hφ'.2.1 hob
      | between v' =>
        obtain ⟨-, prior', -, hway'⟩ := hφ'
        obtain ⟨rest', hlog'⟩ := hway'.written
        rw [hlog] at hlog'
        cases hlog'
        exact absurd (h.ids j i _ _ ht hi rfl (Option.some_ne_none _)) hj
      | after _ _ => exact absurd hoh hφ'.2.2.1
      | refused => exact absurd hφ'.2 hob
      | broken => exact hφ'.elim
    | loading _ _ _ => exact hbetween.elim
    | deleting _ => exact hbetween.elim

theorem World.Ok.save_step (h : w.Ok) {id : ℕ} {held : Held} {prog : DraftProg DraftBase}
    {overHead overBody : Option (Option ℕ)}
    (hi : w.tasks i = some (.saving id held prog overHead overBody))
    (hcareful : Task.Careful w (.saving id held prog overHead overBody)) :
    (w.stepTask i (.saving id held prog overHead overBody)).Ok := by
  obtain ⟨hid, hheld, φ, hobeys, hφ⟩ := h.tasks i _ hi
  rcases prog with base | err | ⟨r, cont⟩
  · cases φ with
    | after u v =>
      obtain ⟨hu, hv⟩ := hobeys
      obtain ⟨hmem, hmem', -, hfaithful⟩ := hφ
      rw [← hu] at hmem
      rw [← hv] at hmem'
      refine h.finish i (fun held' hheld' => ?_) fun o ho => ?_
      · rw [List.mem_singleton.mp hheld']
        exact .inr ⟨id, id, rfl, hmem, rfl, hmem'⟩
      · rw [List.mem_singleton.mp ho]
        exact hfaithful base
    | _ => cases hobeys
  · refine h.finish i (fun _ hheld' => absurd hheld' List.not_mem_nil) fun o ho => ?_
    rw [List.mem_singleton.mp ho]
    cases φ with
    | refused => exact ⟨fun _ _ => hφ, fun base hbase => (nomatch hbase)⟩
    | broken => exact hφ.elim
    | _ => cases hobeys
  · obtain ⟨f, hnext, hcont⟩ := hobeys
    cases hnext with
    | upload attId content =>
      have hserve : (w.shelf.serve id (.putAtt attId content)).1 =
          .ok (((w.shelf.kv.atts.lookup attId).map Entry.version).getD 0 + 1) := by
        unfold Shelf.serve
        rw [serve_putAtt]
      obtain ⟨-, -, hheadLog, hbodyLog⟩ :=
        w.shelf.serve_quiet id (show Request.Quiet (.putAtt attId content) from trivial)
      refine h.quiet hi (show Request.Quiet (.putAtt attId content) from trivial) id rfl
        ⟨hid, ?_, .before, ?_, ?_⟩
      · exact hheld.mono (fun p hp => by rwa [hheadLog]) (fun p hp => by rwa [hbodyLog])
      · rw [hserve]
        exact hcont (.ok _)
      · obtain ⟨hoverHead, hoverBody, hunnamed, hunnamed'⟩ := hφ
        exact ⟨hoverHead, hoverBody, by rwa [hheadLog], by rwa [hbodyLog]⟩
    | body value =>
      exact h.putBody_step hi hcareful hφ (fun v => hcont (.ok v)) fun err => hcont (.error err)
    | head v value => exact h.putHead_step hi hφ fun u => hcont (.ok u)
    | remove u v attId =>
      refine h.quiet hi (show Request.Quiet (.deleteAtt attId) from trivial) id rfl
        ⟨hid, hheld, .after u v, hcont _, hφ⟩

theorem World.Ok.step (h : w.Ok) (e : DeviceEvent ι) (he : e.Careful w) : (w.step e).Ok := by
  unfold World.step
  cases e with
  | begin i op =>
    dsimp only
    split
    · exact h
    · next hidle =>
      have hi : w.tasks i = none := Option.not_isSome_iff_eq_none.mp hidle
      cases op with
      | load => exact h.enlist hi le_rfl ⟨.start, obeys_loadStored, trivial⟩ (.inl rfl)
      | delete => exact h.enlist hi le_rfl obeys_delete (.inl rfl)
      | save content held updatedAt =>
        have hheld : (w.helds.getD held .new).Known w.shelf := by
          rw [List.getD_eq_getElem?_getD]
          cases hget : w.helds[held]? with
          | none => exact .inl rfl
          | some held' => exact h.helds held' (List.mem_of_getElem? hget)
        refine h.enlist hi (Nat.le_succ _)
          ⟨Nat.lt_succ_self _, hheld, .before, obeys_save content _ updatedAt, ?_⟩ (.inr rfl)
        exact ⟨rfl, rfl, fun p hp => (h.named.1 p hp).ne, fun p hp => (h.named.2 p hp).ne⟩
  | step i =>
    dsimp only
    split
    · next t hi =>
      cases t with
      | loading prog head body => exact h.load_step hi
      | saving id held prog overHead overBody => exact h.save_step hi (he _ hi)
      | deleting prog => exact h.delete_step hi (he _ hi)
    · exact h

/-- In every interleaving whose steps are careful, a save that fails leaves the row and the body,
and one that resolves is put over the row and the body of one save, those of its base. -/
theorem no_text_overwritten {events : List (DeviceEvent ι)}
    (h : Machine.Along World.step DeviceEvent.Careful (World.start : World ι) events) :
    Machine.Throughout World.step (fun w => ∀ o ∈ w.outcomes, o.Faithful) (World.start : World ι)
      events := by
  have hok := Machine.throughout_of_along World.ok_start (fun w e hw he => World.Ok.step hw e he) h
  exact hok.imp fun w hw => hw.outcomes

end Step

namespace Phone

def draft (text : String) : DraftContent :=
  ⟨"me@example.org", ["you@example.org"], [], [], ⟨"", "", ""⟩, false, "Plans", false, text, "",
    none, []⟩

def steps (i : Bool) (n : ℕ) : List (DeviceEvent Bool) := List.replicate n (.step i)

def save (i : Bool) (text : String) (held : ℕ) : DeviceEvent Bool :=
  .begin i (.save (draft text) held 10)

def written : List (DeviceEvent Bool) := save false "one" 0 :: steps false 3

def torn : List (DeviceEvent Bool) :=
  written ++ [.begin true .load, .step true] ++ save false "two" 0 :: steps false 3 ++
    steps true 2 ++
    save true "three" 2 :: steps true 3

def halved : List (DeviceEvent Bool) :=
  written ++ [save false "two" 0, .step false] ++ .begin true .load :: steps true 3 ++
    save true "three" 1 :: steps true 3 ++
    steps false 2

/-- The phone loads; the laptop deletes the draft and saves it anew; and the phone saves. -/
def reborn : List (DeviceEvent Bool) :=
  written ++ .begin true .load :: steps true 3 ++ .begin false .delete :: steps false 4 ++
    save false "two" 9 :: steps false 3 ++
    save true "three" 1 :: steps true 3

structure Summary where
  conflicted : Bool
  overHead : Option (Option ℕ)
  overBody : Option (Option ℕ)
  deriving DecidableEq

def summary (o : SaveOutcome) : Summary := ⟨o.result = .error .conflict, o.overHead, o.overBody⟩

def outcomes (events : List (DeviceEvent Bool)) : List Summary :=
  (Machine.run World.step World.start events).outcomes.map summary

def text (events : List (DeviceEvent Bool)) : Option String :=
  (Machine.run World.step World.start events).shelf.kv.body.map fun body => body.value.text

/-- A save that conflicts has put its body over that of another save; it has again, where the other
save was put over the row and the body of different saves; and a save is put over a draft that it
has never seen. -/
theorem text_overwritten :
    outcomes torn = [⟨false, some none, some none⟩, ⟨false, some (some 0), some (some 0)⟩,
      ⟨true, none, some (some 1)⟩] ∧
      text torn = some "three" ∧
      outcomes halved = [⟨false, some none, some none⟩, ⟨false, some (some 0), some (some 1)⟩,
        ⟨true, none, some (some 0)⟩] ∧
      text halved = some "three" ∧
      outcomes reborn = [⟨false, some none, some none⟩, ⟨false, some none, some none⟩,
        ⟨false, some (some 1), some (some 1)⟩] ∧
      text reborn = some "three" := by
  decide

/-- The phone conflicts with the laptop, loads what it saved, and saves over that. -/
theorem text_kept : Machine.Throughout World.step (fun w => ∀ o ∈ w.outcomes, o.Faithful)
    (World.start : World Bool) (written ++ .begin true .load :: steps true 3 ++
      save false "two" 0 :: steps false 3 ++ save true "three" 1 :: steps true 2 ++
      .begin true .load :: steps true 3 ++ save true "four" 3 :: steps true 3 ++
        .begin false .delete :: steps false 4) :=
  no_text_overwritten (by decide)

end Phone

end Dmcn.Web.Drafts
