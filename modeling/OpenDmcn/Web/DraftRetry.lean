import OpenDmcn.Lib.Run
import OpenDmcn.Web.Drafts

/-! A draft on one device alone, whose requests get lost (`api/draftStore.ts`, as
`components/ComposeDialog.tsx` and `hooks/useDrafts.ts` use it). The base that is held moves only
when a whole save resolves, and the copy on the device has the base of the moment at which it was
written. -/

namespace Dmcn.Web.Drafts

open Requests

structure SaveReport where
  updatedAt : ℕ
  result : Except DraftError DraftBase
  copy : Option LocalDraft

structure Tab where
  kv : Kv
  base : Option DraftBase
  copy : Option LocalDraft
  reports : List SaveReport

inductive TabEvent where
  | saveLocal (content : DraftContent) (updatedAt : ℕ)
  /-- A save by the composer, and the copy that is written meanwhile. -/
  | save (content : DraftContent) (updatedAt : ℕ) (faults : Request → Fault)
    (meanwhile : Option (DraftContent × ℕ))
  /-- Passes over a draft that is open. -/
  | settleLocal (now : ℕ) (faults : Request → Fault)
  | load (faults : Request → Fault)
  | close

namespace Tab

def start (kv : Kv) (opened : Bool) : Tab :=
  ⟨kv, if opened then some NEW_DRAFT_BASE else none, none, []⟩

variable (keepLocal : Bool)

def saveLocal (s : Tab) (base : DraftBase) (content : DraftContent) (updatedAt : ℕ) :
    Option LocalDraft :=
  if keepLocal then some ⟨content, base, updatedAt⟩ else s.copy

def copyMeanwhile (s : Tab) (base : DraftBase) : Option (DraftContent × ℕ) → Option LocalDraft
  | some (content, updatedAt) => s.saveLocal keepLocal base content updatedAt
  | none => s.copy

def save (s : Tab) (base : DraftBase) (content : DraftContent) (updatedAt : ℕ)
    (faults : Request → Fault) (meanwhile : Option (DraftContent × ℕ)) : Tab :=
  let copy := s.copyMeanwhile keepLocal base meanwhile
  match Prog.run (serveWith faults) (Drafts.save content base updatedAt false) s.kv with
  | (.ok base, kv) =>
    let copy := clearLocal copy updatedAt
    ⟨kv, some base, copy, s.reports ++ [⟨updatedAt, .ok base, copy⟩]⟩
  | (.error err, kv) => ⟨kv, some base, copy, s.reports ++ [⟨updatedAt, .error err, copy⟩]⟩

def settle (s : Tab) (d : LocalDraft) (faults : Request → Fault) : Tab :=
  match Prog.run (serveWith faults) (Drafts.save d.content d.base d.updatedAt false) s.kv with
  | (.ok base, kv) =>
    let copy := clearLocal s.copy d.updatedAt
    ⟨kv, none, copy, s.reports ++ [⟨d.updatedAt, .ok base, copy⟩]⟩
  | (.error .conflict, kv) =>
    let removed := d.base.head > 0 ∧ (Prog.run (serveWith faults) isStored kv).1.toOption =
      some false
    let copy := if removed then clearLocal s.copy d.updatedAt else s.copy
    ⟨kv, none, copy, s.reports ++ [⟨d.updatedAt, .error .conflict, copy⟩]⟩
  | (.error err, kv) => ⟨kv, none, s.copy, s.reports ++ [⟨d.updatedAt, .error err, s.copy⟩]⟩

def load (s : Tab) (faults : Request → Fault) : Tab :=
  match s.copy with
  | some mine => { s with base := some mine.base }
  | none =>
    match Prog.run (serveWith faults) loadStored s.kv with
    | (.ok (some loaded), kv) => { s with kv := kv, base := some loaded.base }
    | (_, kv) => { s with kv := kv, base := none }

def step (s : Tab) : TabEvent → Tab
  | .saveLocal content updatedAt =>
    match s.base with
    | some base => { s with copy := s.saveLocal keepLocal base content updatedAt }
    | none => s
  | .save content updatedAt faults meanwhile =>
    match s.base with
    | some base => s.save keepLocal base content updatedAt faults meanwhile
    | none => s
  | .settleLocal now faults =>
    match s.base, s.copy with
    | none, some d => if now < d.updatedAt + LOCAL_SETTLE_MS then s else s.settle d faults
    | _, _ => s
  | .load faults => s.load faults
  | .close => { s with base := none }

end Tab

def DraftBase.New (base : DraftBase) : Prop := base.head = 0 ∧ base.body = 0

instance (base : DraftBase) : Decidable base.New := inferInstanceAs (Decidable (_ ∧ _))

def Arrives (content : DraftContent) (base : DraftBase) (updatedAt : ℕ) (faults : Request → Fault) :
    Prop :=
  ¬ base.New → faults (.putBody content.body base.body) ≠ .after ∧
    faults (.putHead (content.head updatedAt) base.head) = .none

instance (content : DraftContent) (base : DraftBase) (updatedAt : ℕ) (faults : Request → Fault) :
    Decidable (Arrives content base updatedAt faults) := inferInstanceAs (Decidable (_ → _))

/-- A save arrives, and when it was on a base that is not new, no copy that is newer was written
before its end. -/
def TabEvent.Calm (keepLocal : Bool) (s : Tab) : TabEvent → Prop
  | .save content updatedAt faults meanwhile => ∀ base ∈ s.base,
    Arrives content base updatedAt faults ∧
      (¬ base.New → ∀ d ∈ s.copyMeanwhile keepLocal base meanwhile, d.updatedAt ≤ updatedAt)
  | .settleLocal _ faults => ∀ d ∈ s.copy, Arrives d.content d.base d.updatedAt faults
  | _ => True

instance (keepLocal : Bool) (s : Tab) : (event : TabEvent) → Decidable (event.Calm keepLocal s)
  | .save content updatedAt faults meanwhile => inferInstanceAs (Decidable (∀ base ∈ s.base,
      Arrives content base updatedAt faults ∧
        (¬ base.New → ∀ d ∈ s.copyMeanwhile keepLocal base meanwhile, d.updatedAt ≤ updatedAt)))
  | .settleLocal _ faults =>
    inferInstanceAs (Decidable (∀ d ∈ s.copy, Arrives d.content d.base d.updatedAt faults))
  | .saveLocal _ _ | .load _ | .close => isTrue trivial

section Current

variable {faults : Request → Fault}

def Kv.Current (s : Kv) (base : DraftBase) : Prop :=
  base.New ∨ s.head.map Entry.version = some base.head ∧ s.body.map Entry.version = some base.body

theorem Kv.Current.congr {s t : Kv} {base : DraftBase} (h : s.Current base)
    (hhead : t.head = s.head) (hbody : t.body = s.body) :
    t.Current base := by
  unfold Kv.Current at h ⊢
  rw [hhead, hbody]
  exact h

/-- What a save on such a base does: it fails and leaves what was there, unless the base is new, or
resolves to a base of this kind. -/
theorem run_save_current {s : Kv} {content : DraftContent} {base : DraftBase} (h : s.Current base)
    (updatedAt : ℕ) (harrives : Arrives content base updatedAt faults) :
    (∃ err t, Prog.run (serveWith faults) (save content base updatedAt false) s = (.error err, t) ∧
      err ≠ .conflict ∧ (¬ base.New → t.head = s.head ∧ t.body = s.body)) ∨
    ∃ base' t, Prog.run (serveWith faults) (save content base updatedAt false) s = (.ok base', t) ∧
      t.Current base' := by
  have hbodyOk : base.body = 0 ∨ (s.body.map Entry.version).getD 0 = base.body := by
    rcases h with hnew | ⟨-, hbody⟩
    · exact .inl hnew.2
    · right
      rw [hbody, Option.getD_some]
  have hheadOk : base.head = 0 ∨ (s.head.map Entry.version).getD 0 = base.head := by
    rcases h with hnew | ⟨hhead, -⟩
    · exact .inl hnew.1
    · right
      rw [hhead, Option.getD_some]
  obtain ⟨hhead, hbody, hnever⟩ :=
    run_uploads_frame faults content.want (base.atts.foldl setAdd []) s
  unfold save
  cases hrun : Prog.run (serveWith faults) (uploads content.want (base.atts.foldl setAdd [])) s with
  | mk out t =>
    rw [hrun] at hhead hbody hnever
    cases out with
    | error err =>
      left
      exact ⟨err, t, Prog.run_bind_error hrun, fun herr => hnever (congrArg _ herr), fun _ =>
        ⟨hhead, hbody⟩⟩
    | ok stored =>
      rw [Prog.run_bind_ok hrun]
      change t.head = s.head at hhead
      change t.body = s.body at hbody
      rw [← hbody] at hbodyOk
      rw [← hhead] at hheadOk
      let v := (t.body.map Entry.version).getD 0 + 1
      let w := (t.head.map Entry.version).getD 0 + 1
      let t₁ : Kv := { t with body := some ⟨content.body, v⟩ }
      let t₂ : Kv := { t₁ with head := some ⟨content.head updatedAt, w⟩ }
      have hputBody := serveWith_of_serve faults (@serve_putBody t content.body base.body hbodyOk)
      have hputHead :=
        serveWith_of_serve faults (@serve_putHead t₁ (content.head updatedAt) base.head hheadOk)
      cases hfault : faults (.putBody content.body base.body) with
      | before =>
        rw [hfault] at hputBody
        left
        refine ⟨.request .failed, t, run_kvCas_failed hputBody, nofun, fun _ => ⟨hhead, hbody⟩⟩
      | after =>
        rw [hfault] at hputBody
        left
        refine ⟨.request .failed, t₁, run_kvCas_failed hputBody, nofun, fun hold => ?_⟩
        exact absurd hfault (harrives hold).1
      | none =>
        rw [hfault] at hputBody
        have hwritten : ∀ (f : ℕ → DraftProg DraftBase), Prog.run (serveWith faults)
            (kvCas (.putBody content.body base.body) >>= f) t = Prog.run (serveWith faults) (f v)
              t₁ :=
          fun f => run_kvCas_ok hputBody
        cases hfault' : faults (.putHead (content.head updatedAt) base.head) with
        | before =>
          rw [hfault'] at hputHead
          left
          refine ⟨.request .failed, t₁, (hwritten _).trans (run_kvCas_failed hputHead), nofun,
            fun hold => ?_⟩
          rw [(harrives hold).2] at hfault'
          cases hfault'
        | after =>
          rw [hfault'] at hputHead
          left
          refine ⟨.request .failed, t₂, (hwritten _).trans (run_kvCas_failed hputHead), nofun,
            fun hold => ?_⟩
          rw [(harrives hold).2] at hfault'
          cases hfault'
        | none =>
          rw [hfault'] at hputHead
          right
          obtain ⟨hhead₃, hbody₃, stored', hstored⟩ :=
            run_removals_frame faults content.want stored stored t₂
          refine ⟨⟨w, v, stored'⟩,
            (Prog.run (serveWith faults) (removals content.want stored stored) t₂).2,
            (hwritten _).trans ((run_kvCas_ok hputHead).trans ?_), .inr ⟨?_, ?_⟩⟩
          · exact Prog.run_bind_ok (Prod.ext hstored rfl)
          · rw [hhead₃]
            rfl
          · rw [hbody₃]
            rfl

theorem run_loadStored_current (faults : Request → Fault) (s : Kv) :
    ∃ out, Prog.run (serveWith faults) loadStored s = (out, s) ∧ ∀ loaded, out = .ok (some loaded) →
      s.Current loaded.base := by
  have hgetHead : serve .getHead s = (.ok s.head, s) := rfl
  have hgetBody : serve .getBody s = (.ok s.body, s) := rfl
  unfold loadStored
  rcases run_kv_read faults hgetHead _ with hfailed | hread
  · exact ⟨_, hfailed, fun loaded h => nomatch h⟩
  · rw [hread]
    cases hhead : s.head with
    | none => exact ⟨.ok none, rfl, fun loaded h => nomatch h⟩
    | some head =>
      dsimp only
      rcases run_kv_read faults hgetBody _ with hfailed' | hread'
      · exact ⟨_, hfailed', fun loaded h => nomatch h⟩
      · rw [hread']
        cases hbody : s.body with
        | none => exact ⟨.ok none, rfl, fun loaded h => nomatch h⟩
        | some body =>
          dsimp only
          have hframe := run_loadAtts_frame faults head.value.attachments s
          cases hrun : Prog.run (serveWith faults) (loadAtts head.value.attachments) s with
          | mk out t =>
            rw [hrun] at hframe
            change t = s at hframe
            rw [hframe] at hrun
            cases out with
            | error err => exact ⟨_, Prog.run_bind_error hrun, fun loaded h => nomatch h⟩
            | ok atts =>
              refine ⟨_, Prog.run_bind_ok hrun, fun loaded h => .inr ?_⟩
              cases h
              rw [hhead, hbody]
              exact ⟨rfl, rfl⟩

end Current

section Alone

variable {keepLocal : Bool} {s : Tab}

/-- The bases that the device holds are current, and as long as its composer has a new one, so has
its copy. -/
structure Tab.Alone (s : Tab) : Prop where
  held : ∀ base ∈ s.base, s.kv.Current base
  copied : ∀ d ∈ s.copy, s.kv.Current d.base
  new : ∀ base ∈ s.base, base.New → ∀ d ∈ s.copy, d.base.New
  reported : ∀ report ∈ s.reports, report.result ≠ .error .conflict ∧
    ∀ base, report.result = .ok base → ∀ d ∈ report.copy, report.updatedAt < d.updatedAt

theorem newer_of_mem_clearLocal {copy : Option LocalDraft} {updatedAt : ℕ} {d : LocalDraft}
    (h : d ∈ clearLocal copy updatedAt) : d ∈ copy ∧ updatedAt < d.updatedAt := by
  unfold clearLocal at h
  rw [Option.mem_def, Option.filter_eq_some_iff] at h
  exact ⟨h.1, of_decide_eq_true h.2⟩

theorem Tab.saveLocal_cases {base : DraftBase} {content : DraftContent} {updatedAt : ℕ}
    {d : LocalDraft} (h : d ∈ s.saveLocal keepLocal base content updatedAt) : d.base = base ∨
    d ∈ s.copy := by
  unfold Tab.saveLocal at h
  split at h
  · left
    cases h
    rfl
  · exact .inr h

theorem Tab.copyMeanwhile_cases {base : DraftBase} {meanwhile : Option (DraftContent × ℕ)}
    {d : LocalDraft} (h : d ∈ s.copyMeanwhile keepLocal base meanwhile) : d.base = base ∨
    d ∈ s.copy := by
  cases meanwhile with
  | none => exact .inr h
  | some m => exact Tab.saveLocal_cases h

theorem Tab.Alone.save (h : s.Alone) {base : DraftBase} (hbase : base ∈ s.base)
    {content : DraftContent} {updatedAt : ℕ} {faults : Request → Fault}
    {meanwhile : Option (DraftContent × ℕ)} (harrives : Arrives content base updatedAt faults)
    (hnewest : ¬ base.New → ∀ d ∈ s.copyMeanwhile keepLocal base meanwhile, d.updatedAt ≤
      updatedAt) :
    (s.save keepLocal base content updatedAt faults meanwhile).Alone := by
  have hcopyNew : base.New → ∀ d ∈ s.copyMeanwhile keepLocal base meanwhile, d.base.New := by
    intro hnew d hd
    rcases Tab.copyMeanwhile_cases hd with heq | hold
    · rwa [heq]
    · exact h.new base hbase hnew d hold
  have hcopyCurrent : ∀ d ∈ s.copyMeanwhile keepLocal base meanwhile, s.kv.Current d.base := by
    intro d hd
    rcases Tab.copyMeanwhile_cases hd with heq | hold
    · rw [heq]
      exact h.held base hbase
    · exact h.copied d hold
  unfold Tab.save
  dsimp only
  rcases run_save_current (h.held base hbase) updatedAt harrives with
    ⟨err, t, hrun, hnever, hsame⟩ | ⟨base', t, hrun, hcurrent⟩
  · rw [hrun]
    have hkept : ∀ b, s.kv.Current b → (base.New → b.New) → t.Current b := by
      intro b hb hbnew
      by_cases hnew : base.New
      · exact .inl (hbnew hnew)
      · exact hb.congr (hsame hnew).1 (hsame hnew).2
    refine ⟨fun b hb => ?_, fun d hd => ?_, fun b hb hnew d hd => ?_, fun report hreport => ?_⟩
    · cases hb
      exact hkept base (h.held base hbase) id
    · exact hkept d.base (hcopyCurrent d hd) fun hnew => hcopyNew hnew d hd
    · cases hb
      exact hcopyNew hnew d hd
    · rcases List.mem_append.mp hreport with hold | hnew
      · exact h.reported report hold
      · rw [List.mem_singleton.mp hnew]
        exact ⟨fun heq => hnever (Except.error.inj heq), nofun⟩
  · rw [hrun]
    have hcleared : ∀ d ∈ clearLocal (s.copyMeanwhile keepLocal base meanwhile) updatedAt,
        d.base.New := by
      intro d hd
      obtain ⟨hmem, hlt⟩ := newer_of_mem_clearLocal hd
      by_cases hnew : base.New
      · exact hcopyNew hnew d hmem
      · exact absurd hlt (Nat.not_lt.mpr (hnewest hnew d hmem))
    refine ⟨fun b hb => ?_, fun d hd => .inl (hcleared d hd), fun _ _ _ d hd => hcleared d hd,
      fun report hreport => ?_⟩
    · cases hb
      exact hcurrent
    · rcases List.mem_append.mp hreport with hold | hnew
      · exact h.reported report hold
      · rw [List.mem_singleton.mp hnew]
        exact ⟨nofun, fun _ _ d hd => (newer_of_mem_clearLocal hd).2⟩

theorem Tab.Alone.settle (h : s.Alone) {d : LocalDraft} (hd : s.copy = some d)
    {faults : Request → Fault} (harrives : Arrives d.content d.base d.updatedAt faults) :
    (s.settle d faults).Alone := by
  unfold Tab.settle
  rcases run_save_current (h.copied d hd) d.updatedAt harrives with
    ⟨err, t, hrun, hnever, hsame⟩ | ⟨base', t, hrun, hcurrent⟩
  · rw [hrun]
    cases err with
    | conflict => exact absurd rfl hnever
    | request err =>
      refine ⟨fun b hb => (nomatch hb), fun d' hd' => ?_, fun b hb => (nomatch hb),
        fun report hreport => ?_⟩
      · change s.copy = some d' at hd'
        rw [hd] at hd'
        cases hd'
        by_cases hnew : d.base.New
        · exact .inl hnew
        · exact (h.copied d hd).congr (hsame hnew).1 (hsame hnew).2
      · rcases List.mem_append.mp hreport with hold | hnew
        · exact h.reported report hold
        · rw [List.mem_singleton.mp hnew]
          exact ⟨nofun, nofun⟩
  · rw [hrun]
    have hcleared : clearLocal s.copy d.updatedAt = none := by
      unfold clearLocal
      rw [hd]
      simp [Option.filter]
    refine ⟨nofun, fun d' hd' => ?_, nofun, fun report hreport => ?_⟩
    · change d' ∈ clearLocal s.copy d.updatedAt at hd'
      rw [hcleared] at hd'
      cases hd'
    · rcases List.mem_append.mp hreport with hold | hnew
      · exact h.reported report hold
      · rw [List.mem_singleton.mp hnew]
        exact ⟨nofun, fun _ _ d' hd' => (newer_of_mem_clearLocal hd').2⟩

theorem Tab.Alone.load (h : s.Alone) (faults : Request → Fault) : (s.load faults).Alone := by
  obtain ⟨kv, base, copy, reports⟩ := s
  unfold Tab.load
  cases copy with
  | some mine =>
    refine ⟨fun b hb => ?_, h.copied, fun b hb hnew d hd => ?_, h.reported⟩
    · cases hb
      exact h.copied mine rfl
    · cases hb
      cases hd
      exact hnew
  | none =>
    obtain ⟨out, hrun, hcurrent⟩ := run_loadStored_current faults kv
    dsimp only
    rw [hrun]
    rcases out with err | _ | loaded
    · exact ⟨fun b hb => (nomatch hb), h.copied, fun b hb => (nomatch hb), h.reported⟩
    · exact ⟨fun b hb => (nomatch hb), h.copied, fun b hb => (nomatch hb), h.reported⟩
    · refine ⟨fun b hb => ?_, h.copied, fun _ _ _ d hd => (nomatch hd), h.reported⟩
      cases hb
      exact hcurrent loaded rfl

theorem Tab.Alone.saveLocal (h : s.Alone) {base : DraftBase} (hbase : s.base = some base)
    (content : DraftContent) (updatedAt : ℕ) :
    Tab.Alone { s with copy := s.saveLocal keepLocal base content updatedAt } := by
  refine ⟨h.held, fun d hd => ?_, fun b hb hnew d hd => ?_, h.reported⟩
  · rcases Tab.saveLocal_cases hd with heq | hold
    · rw [heq]
      exact h.held base hbase
    · exact h.copied d hold
  · change b ∈ s.base at hb
    rcases Tab.saveLocal_cases hd with heq | hold
    · rw [hbase] at hb
      cases hb
      rwa [heq]
    · exact h.new b hb hnew d hold

theorem Tab.Alone.step (h : s.Alone) (event : TabEvent) (hcalm : event.Calm keepLocal s) :
    (s.step keepLocal event).Alone := by
  unfold Tab.step
  cases event with
  | saveLocal content updatedAt =>
    dsimp only
    split
    · next base hbase => exact h.saveLocal hbase content updatedAt
    · exact h
  | save content updatedAt faults meanwhile =>
    dsimp only
    split
    · next base hbase =>
      obtain ⟨harrives, hnewest⟩ := hcalm base hbase
      exact h.save hbase harrives hnewest
    · exact h
  | settleLocal now faults =>
    dsimp only
    split
    · next d hbase hcopy =>
      split
      · exact h
      · exact h.settle hcopy (hcalm d hcopy)
    · exact h
  | load faults => exact h.load faults
  | close => exact ⟨fun b hb => (nomatch hb), h.copied, fun b hb => (nomatch hb), h.reported⟩

end Alone

namespace Plans

def draft (text : String) : DraftContent :=
  ⟨"me@example.org", ["you@example.org"], [], [], ⟨"", "", ""⟩, false, "Plans", false, text, "",
    none, []⟩

def answered : Request → Fault := fun _ => .none

def lost : Request → Fault
  | .putHead _ _ => .after
  | _ => .none

def dropped : Request → Fault
  | .putHead _ _ => .before
  | _ => .none

def saved : List TabEvent := [.saveLocal (draft "one") 10, .save (draft "one") 20 answered none]

end Plans

end Dmcn.Web.Drafts
