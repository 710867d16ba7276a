import Mathlib.Data.List.GetD
import Mathlib.Data.List.Perm.Subperm
import OpenDmcn.Web.Autosave

/-! What the autosave of the composer keeps over whole runs of its event loop
(`lib/draftAutosave.ts`): the save in `running`, the touches that are saved, dropped or still to be
reported, and the quiet after `abandon`. -/

namespace Dmcn.Autosave

section Books

def Job.landing : Job → Option ℕ
  | .cleared run _ => some run
  | _ => none

def Job.unsettled : Job → Option ℕ
  | .cleared run _ | .followed run _ | .settled run _ => some run
  | _ => none

def State.unsettled (s : State) : List ℕ := s.inFlight ++ s.jobs.filterMap Job.unsettled

def Caller.Sound (s : State) : Caller → Prop
  | .flush asked => asked ≤ s.touches
  | .abandon => s.disposed = true

def Job.Sound (s : State) : Job → Prop
  | .cleared run ok | .followed run ok | .settled run ok =>
    run < s.starts.length ∧ (ok = true → s.starts.getD run 0 ≤ s.saved)
  | .handedOn => True
  | .resumed _ ok asked _ => asked ≤ s.touches ∧ (ok = true → asked ≤ s.saved)
  | .caught c | .looks c => c.Sound s

def Reaction.Sound (s : State) (run : ℕ) : Reaction → Prop
  | .saves asked _ => run < s.starts.length ∧ asked ≤ s.starts.getD run 0 ∧ asked ≤ s.touches
  | .waits c => c.Sound s

structure Grows (s t : State) : Prop where
  touches : s.touches ≤ t.touches
  saved : s.saved ≤ t.saved
  starts : s.starts <+: t.starts
  disposed : s.disposed = true → t.disposed = true

variable {run : ℕ}

theorem Grows.getD {s t : State} (h : Grows s t) (hrun : run < s.starts.length) :
    t.starts.getD run 0 = s.starts.getD run 0 := by
  obtain ⟨more, hmore⟩ := h.starts
  rw [← hmore, List.getD_append _ _ _ _ hrun]

theorem Caller.Sound.mono {s t : State} (h : Grows s t) {c : Caller} (hc : c.Sound s) :
    c.Sound t := by
  cases c with
  | flush asked => exact hc.trans h.touches
  | abandon => exact h.disposed hc

theorem Job.Sound.mono {s t : State} (h : Grows s t) {j : Job} (hj : j.Sound s) : j.Sound t := by
  cases j with
  | cleared run ok | followed run ok | settled run ok =>
    refine ⟨hj.1.trans_le h.starts.length_le, fun hok => ?_⟩
    rw [h.getD hj.1]
    exact (hj.2 hok).trans h.saved
  | handedOn => trivial
  | resumed run ok asked since => exact ⟨hj.1.trans h.touches, fun hok => (hj.2 hok).trans h.saved⟩
  | caught c | looks c => exact Caller.Sound.mono h hj

theorem Reaction.Sound.mono {s t : State} (h : Grows s t) {r : Reaction} (hr : r.Sound s run) :
    r.Sound t run := by
  cases r with
  | saves asked since =>
    refine ⟨hr.1.trans_le h.starts.length_le, ?_, hr.2.2.trans h.touches⟩
    rw [h.getD hr.1]
    exact hr.2.1
  | waits c => exact Caller.Sound.mono h hr

/-- The save in `running` is the one that has not ended, or the one whose `finally` has yet to clear
it; every save has a flush that awaits it until its promise settles. -/
structure Books (s : State) : Prop where
  slot : s.inFlight ++ s.jobs.filterMap Job.landing = s.running.toList
  known : ∀ run ∈ s.unsettled, run < s.starts.length
  nodup : s.unsettled.Nodup
  awaited : ∀ run ∈ s.unsettled, ∃ asked since, (run, Reaction.saves asked since) ∈ s.reactions
  jobs : ∀ j ∈ s.jobs, j.Sound s
  reactions : ∀ r ∈ s.reactions, r.2.Sound s r.1

variable {s : State}

theorem Books.inFlight_le (h : Books s) : s.inFlight.length ≤ 1 := by
  have hlength := congrArg List.length h.slot
  rw [List.length_append] at hlength
  cases hrun : s.running with
  | none => rw [hrun, Option.toList_none, List.length_nil] at hlength; omega
  | some run => rw [hrun, Option.toList_some, List.length_singleton] at hlength; omega

theorem Books.idle (h : Books s) (hrun : s.running = none) :
    s.inFlight = [] ∧ s.jobs.filterMap Job.landing = [] := by
  have hslot := h.slot
  rw [hrun] at hslot
  exact List.append_eq_nil_iff.mp hslot

/-- What a step has to show of the books: what it adds is sound, no save is open twice, and the
flush of an open save still awaits it. -/
theorem Books.of_grows (h : Books s) {t : State} (hgrows : Grows s t)
    (hslot : t.inFlight ++ t.jobs.filterMap Job.landing = t.running.toList)
    (hopen : t.unsettled.Subperm s.unsettled)
    (hkept : ∀ run ∈ t.unsettled, ∀ r, (run, r) ∈ s.reactions → (run, r) ∈ t.reactions)
    (hjobs : ∀ j ∈ t.jobs, j ∈ s.jobs ∨ j.Sound t)
    (hreactions : ∀ r ∈ t.reactions, r ∈ s.reactions ∨ r.2.Sound t r.1) : Books t where
  slot := hslot
  known run hrun := (h.known run (hopen.subset hrun)).trans_le hgrows.starts.length_le
  nodup := by
    obtain ⟨l, hperm, hsub⟩ := hopen
    exact (hperm.nodup_iff).mp (hsub.nodup h.nodup)
  awaited run hrun := by
    obtain ⟨asked, since, hmem⟩ := h.awaited run (hopen.subset hrun)
    exact ⟨asked, since, hkept run hrun _ hmem⟩
  jobs j hj := (hjobs j hj).elim (fun hold => (h.jobs j hold).mono hgrows) id
  reactions r hr := (hreactions r hr).elim (fun hold => (h.reactions r hold).mono hgrows) id

theorem Books.of_eq (h : Books s) {t : State} (hgrows : Grows s t)
    (hrunning : t.running = s.running) (hjobs : t.jobs = s.jobs)
    (hreactions : t.reactions = s.reactions) (hinFlight : t.inFlight = s.inFlight) :
    Books t := by
  refine h.of_grows hgrows ?_ ?_ ?_ ?_ ?_
  · rw [hinFlight, hjobs, hrunning]
    exact h.slot
  · unfold State.unsettled
    rw [hinFlight, hjobs]
  · intro run _ r hr
    rwa [hreactions]
  · intro j hj
    exact .inl (hjobs ▸ hj)
  · intro r hr
    exact .inl (hreactions ▸ hr)

theorem Books.waitFor (h : Books s) {c : Caller} (hc : c.Sound s) :
    Books (s.waitFor run (.waits c)) := by
  refine h.of_grows ⟨le_rfl, le_rfl, List.prefix_rfl, id⟩ h.slot (List.Subperm.refl _) ?_
    (fun j hj => .inl hj) ?_
  · intro run _ r hr
    exact List.mem_append_left _ hr
  · intro r hr
    refine (List.mem_append.mp hr).imp id fun hnew => ?_
    obtain rfl := List.mem_singleton.mp hnew
    exact hc

variable {js : List Job}

theorem Books.pop (h : Books s) {j : Job} (hjobs : s.jobs = j :: js) (hj : j.landing = none) :
    Books { s with jobs := js } := by
  have hsub : js.Sublist s.jobs := hjobs ▸ List.sublist_cons_self j js
  refine h.of_grows ⟨le_rfl, le_rfl, List.prefix_rfl, id⟩ ?_ ?_ (fun _ _ _ hr => hr) ?_
    (fun _ hr => .inl hr)
  · have hslot := h.slot
    rwa [hjobs, List.filterMap_cons_none hj] at hslot
  · exact ((hsub.filterMap Job.unsettled).append_left s.inFlight).subperm
  · exact fun i hi => .inl (hsub.subset hi)

theorem Books.start (h : Books s) (hrun : s.running = none) {asked : ℕ} (hasked : asked ≤ s.touches)
    (since : ℤ) :
    Books (s.start asked since) := by
  obtain ⟨hidle, hlanding⟩ := h.idle hrun
  have hgrows : Grows s (s.start asked since) := ⟨le_rfl, le_rfl, List.prefix_append .., id⟩
  have hopen : (s.start asked since).unsettled = s.starts.length :: s.unsettled := by
    simp [State.unsettled, State.start, State.waitFor, hidle]
  refine ⟨?_, ?_, ?_, ?_, ?_, ?_⟩
  · change (s.inFlight ++ [s.starts.length]) ++ s.jobs.filterMap Job.landing = [s.starts.length]
    rw [hidle, hlanding]
    rfl
  · intro run hopened
    have hlength : (s.start asked since).starts.length = s.starts.length + 1 := List.length_append
    rw [hopen] at hopened
    rw [hlength]
    rcases List.mem_cons.mp hopened with rfl | hold
    · exact Nat.lt_succ_self _
    · exact Nat.lt_succ_of_lt (h.known run hold)
  · rw [hopen]
    exact List.nodup_cons.mpr ⟨fun hmem => lt_irrefl _ (h.known _ hmem), h.nodup⟩
  · intro run hopened
    rw [hopen] at hopened
    rcases List.mem_cons.mp hopened with rfl | hold
    · exact ⟨asked, since, List.mem_append_right _ (List.mem_singleton_self _)⟩
    · obtain ⟨asked', since', hmem⟩ := h.awaited run hold
      exact ⟨asked', since', List.mem_append_left _ hmem⟩
  · intro j hj
    exact (h.jobs j hj).mono hgrows
  · intro r hr
    rcases List.mem_append.mp hr with hold | hnew
    · exact (h.reactions r hold).mono hgrows
    · obtain rfl := List.mem_singleton.mp hnew
      have hat : (s.starts ++ [s.touches]).getD s.starts.length 0 = s.touches := by
        rw [List.getD_append_right _ _ _ _ le_rfl, Nat.sub_self]
        rfl
      exact ⟨by simp [State.start, State.waitFor], hasked.trans_eq hat.symm, hasked⟩

theorem Books.flushFrom (h : Books s) {asked : ℕ} (hasked : asked ≤ s.touches) :
    Books (s.flushFrom asked) := by
  unfold State.flushFrom
  cases hrun : s.running with
  | some run => exact h.waitFor hasked
  | none =>
    cases s.dirtySince with
    | none => exact h.of_eq ⟨le_rfl, le_rfl, List.prefix_rfl, id⟩ rfl rfl rfl rfl
    | some since => exact h.start hrun hasked since

theorem Books.abandonFrom (h : Books s) (hdisposed : s.disposed = true) : Books s.abandonFrom := by
  unfold State.abandonFrom
  cases hrun : s.running with
  | some run => exact h.waitFor hdisposed
  | none => exact h.of_eq ⟨le_rfl, le_rfl, List.prefix_rfl, id⟩ hrun.symm rfl rfl rfl

theorem Books.putBack (h : Books s) (maxWaitMs since : ℤ) : Books (s.putBack maxWaitMs since) := by
  unfold State.putBack
  split <;> dsimp only <;> split <;> exact h.of_eq ⟨le_rfl, le_rfl, List.prefix_rfl, id⟩ rfl rfl rfl
    rfl

theorem Books.touch (h : Books s) (quietMs maxWaitMs now : ℤ) :
    Books (s.touch quietMs maxWaitMs now) := by
  unfold State.touch
  split
  · exact h
  · exact h.of_eq ⟨Nat.le_succ _, le_rfl, List.prefix_rfl, id⟩ rfl rfl rfl rfl

theorem Books.abandon (h : Books s) : Books s.abandon := by
  refine Books.abandonFrom ?_ rfl
  exact h.of_eq ⟨le_rfl, le_rfl, List.prefix_rfl, fun _ => rfl⟩ rfl rfl rfl rfl

theorem Books.flying (h : Books s) (hmem : run ∈ s.inFlight) :
    s.inFlight = [run] ∧ s.jobs.filterMap Job.landing = [] ∧ s.running = some run := by
  have hslot := h.slot
  cases hrun : s.running with
  | none => exact absurd ((h.idle hrun).1 ▸ hmem) List.not_mem_nil
  | some r =>
    rw [hrun, Option.toList_some] at hslot
    rcases List.append_eq_singleton_iff.mp hslot with ⟨hnil, -⟩ | ⟨hone, hlanding⟩
    · exact absurd (hnil ▸ hmem) List.not_mem_nil
    · obtain rfl := List.mem_singleton.mp (hone ▸ hmem)
      exact ⟨hone, hlanding, rfl⟩

theorem Books.landed (h : Books s) {ok : Bool} (hjobs : s.jobs = .cleared run ok :: js) :
    s.inFlight = [] ∧ js.filterMap Job.landing = [] := by
  have hslot := h.slot
  rw [hjobs] at hslot
  change s.inFlight ++ run :: js.filterMap Job.landing = s.running.toList at hslot
  have hlength := congrArg List.length hslot
  cases hrun : s.running with
  | none => simp [hrun] at hlength
  | some r =>
    simp only [hrun, List.length_append, List.length_cons, Option.toList_some, List.length_nil]
      at hlength
    exact ⟨List.length_eq_zero_iff.mp (by omega), List.length_eq_zero_iff.mp (by omega)⟩

theorem Books.finish (h : Books s) (run : ℕ) (ok : Bool) : Books (s.finish run ok) := by
  unfold State.finish
  split
  next hmem =>
    obtain ⟨hflying, hlanding, hrun⟩ := h.flying hmem
    have hopen : run ∈ s.unsettled := List.mem_append_left _ hmem
    have hsaved : s.saved ≤ if ok then max s.saved (s.starts.getD run 0) else s.saved := by
      split
      · exact le_max_left _ _
      · exact le_rfl
    refine h.of_grows ⟨le_rfl, hsaved, List.prefix_rfl, id⟩ ?_ ?_ (fun _ _ _ hr => hr) ?_
      (fun _ hr => .inl hr)
    · simp [hflying, hlanding, hrun, Job.landing]
    · refine List.Perm.subperm ?_
      simp only [State.unsettled, hflying, List.erase_cons_head, List.filterMap_append,
        List.nil_append]
      exact List.perm_append_comm
    · intro j hj
      refine (List.mem_append.mp hj).imp id fun hlast => ?_
      obtain rfl := List.mem_singleton.mp hlast
      refine ⟨h.known run hopen, fun hok => ?_⟩
      dsimp only
      rw [if_pos hok]
      exact le_max_right _ _
  next => exact h

theorem Books.follow (h : Books s) {j j' : Job} (hjobs : s.jobs = j :: js)
    (hlanding : j.landing = none) (hlanding' : j'.landing = none)
    (hopen : j'.unsettled = j.unsettled) (hsound : j.Sound s → j'.Sound s) :
    Books { s with jobs := js ++ [j'] } := by
  refine h.of_grows ⟨le_rfl, le_rfl, List.prefix_rfl, id⟩ ?_ ?_ (fun _ _ _ hr => hr) ?_
    (fun _ hr => .inl hr)
  · have hslot := h.slot
    rw [hjobs, List.filterMap_cons_none hlanding] at hslot
    dsimp only
    rw [List.filterMap_append, List.filterMap_cons_none hlanding', List.filterMap_nil,
      List.append_nil, hslot]
  · refine List.Perm.subperm ?_
    simp only [State.unsettled, hjobs, List.filterMap_append]
    refine List.Perm.append_left _ ?_
    rw [← List.singleton_append (l := js), List.filterMap_append]
    have hone : [j'].filterMap Job.unsettled = [j].filterMap Job.unsettled := by
      rw [List.filterMap_cons, List.filterMap_cons, hopen]
    rw [hone]
    exact List.perm_append_comm
  · intro i hi
    rcases List.mem_append.mp hi with hold | hlast
    · exact .inl (hjobs ▸ List.mem_cons_of_mem _ hold)
    · obtain rfl := List.mem_singleton.mp hlast
      exact .inr ((hsound (h.jobs j (hjobs ▸ List.mem_cons_self ..))).mono
        ⟨le_rfl, le_rfl, List.prefix_rfl, id⟩)

theorem Books.clear (h : Books s) {ok : Bool} (hjobs : s.jobs = .cleared run ok :: js) :
    Books { s with running := none, jobs := js ++ [.handedOn, .followed run ok] } := by
  obtain ⟨hidle, hlanding⟩ := h.landed hjobs
  have hsound : (Job.cleared run ok).Sound s := h.jobs _ (hjobs ▸ List.mem_cons_self ..)
  refine h.of_grows ⟨le_rfl, le_rfl, List.prefix_rfl, id⟩ ?_ ?_ (fun _ _ _ hr => hr) ?_
    (fun _ hr => .inl hr)
  · simp [hidle, hlanding, Job.landing]
  · refine List.Perm.subperm ?_
    simp only [State.unsettled, hjobs, List.filterMap_append, List.filterMap_cons, Job.unsettled,
      List.filterMap_nil]
    exact List.Perm.append_left _ List.perm_append_comm
  · intro i hi
    simp only [List.mem_append, List.mem_cons, List.not_mem_nil, or_false] at hi
    rcases hi with hold | rfl | rfl
    · exact .inl (hjobs ▸ List.mem_cons_of_mem _ hold)
    · exact .inr trivial
    · exact .inr hsound

theorem Books.settle (h : Books s) {ok : Bool} (hjobs : s.jobs = .settled run ok :: js)
    (maxWaitMs : ℤ) :
    Books ((Job.settled run ok).act maxWaitMs { s with jobs := js }) := by
  have hsound : (Job.settled run ok).Sound s := h.jobs _ (hjobs ▸ List.mem_cons_self ..)
  have hmoved : ∀ j ∈ (s.reactions.filter (·.1 = run)).map fun r => r.2.job run ok,
      j.Sound s ∧ j.landing = none ∧ j.unsettled = none := by
    intro j hj
    obtain ⟨⟨run', r⟩, hr, rfl⟩ := List.mem_map.mp hj
    obtain ⟨hmem, hrun⟩ := List.mem_filter.mp hr
    obtain rfl : run' = run := by simpa using hrun
    have hold : r.Sound s run' := h.reactions _ hmem
    cases r with
    | saves asked since => exact ⟨⟨hold.2.2, fun hok => hold.2.1.trans (hsound.2 hok)⟩, rfl, rfl⟩
    | waits c => exact ⟨hold, rfl, rfl⟩
  have hnone (f : Job → Option ℕ) (hf : ∀ j, j.landing = none ∧ j.unsettled = none → f j = none) :
      ((s.reactions.filter (·.1 = run)).map fun r => r.2.job run ok).filterMap f = [] :=
    List.filterMap_eq_nil_iff.mpr fun j hj => hf j (hmoved j hj).2
  have hopen : ((Job.settled run ok).act maxWaitMs { s with jobs := js }).unsettled =
      s.inFlight ++ js.filterMap Job.unsettled := by
    simp only [State.unsettled, Job.act, List.filterMap_append, hnone Job.unsettled fun j hj =>
      hj.2, List.append_nil]
  have hunsettled : s.unsettled = s.inFlight ++ run :: js.filterMap Job.unsettled := by
    simp only [State.unsettled, hjobs, List.filterMap_cons, Job.unsettled]
  refine h.of_grows ⟨le_rfl, le_rfl, List.prefix_rfl, id⟩ ?_ ?_ ?_ ?_ ?_
  · have hslot := h.slot
    rw [hjobs, List.filterMap_cons_none rfl] at hslot
    simp only [Job.act, List.filterMap_append, hnone Job.landing fun j hj => hj.1, List.append_nil]
    exact hslot
  · rw [hopen, hunsettled]
    exact ((List.sublist_cons_self run _).append_left _).subperm
  · intro run' hrun' r hr
    rw [hopen] at hrun'
    have hne : run' ≠ run := by
      rintro rfl
      have hnodup := h.nodup
      rw [hunsettled] at hnodup
      exact (List.nodup_cons.mp (List.perm_middle.nodup_iff.mp hnodup)).1 hrun'
    exact List.mem_filter.mpr ⟨hr, decide_eq_true hne⟩
  · intro j hj
    rcases List.mem_append.mp hj with hold | hnew
    · exact .inl (hjobs ▸ List.mem_cons_of_mem _ hold)
    · exact .inr ((hmoved j hnew).1.mono ⟨le_rfl, le_rfl, List.prefix_rfl, id⟩)
  · exact fun r hr => .inl (List.mem_filter.mp hr).1

theorem Books.act (h : Books s) {j : Job} (hjobs : s.jobs = j :: js) (maxWaitMs : ℤ) :
    Books (j.act maxWaitMs { s with jobs := js }) := by
  have hsound : j.Sound s := h.jobs j (hjobs ▸ List.mem_cons_self ..)
  cases j with
  | cleared run ok => exact h.clear hjobs
  | handedOn => exact h.pop hjobs rfl
  | followed run ok => exact h.follow hjobs rfl rfl rfl id
  | settled run ok => exact h.settle hjobs maxWaitMs
  | resumed run ok asked since =>
    have hpop := h.pop hjobs rfl
    cases ok with
    | true => exact hpop.of_eq ⟨le_rfl, le_rfl, List.prefix_rfl, id⟩ rfl rfl rfl rfl
    | false => exact hpop.putBack maxWaitMs since
  | caught c => exact h.follow hjobs rfl rfl rfl id
  | looks c =>
    have hpop := h.pop hjobs rfl
    cases c with
    | flush asked => exact hpop.flushFrom hsound
    | abandon => exact hpop.abandonFrom hsound

theorem Books.step (h : Books s) (quietMs maxWaitMs : ℤ) (e : Event) :
    Books (step quietMs maxWaitMs s e) := by
  have hclock (c : Clock) : Books { s with clock := c } :=
    h.of_eq ⟨le_rfl, le_rfl, List.prefix_rfl, id⟩ rfl rfl rfl rfl
  cases e with
  | touch now => exact h.touch quietMs maxWaitMs now
  | flush => exact (hclock _).flushFrom le_rfl
  | dispose => exact h.of_eq ⟨le_rfl, le_rfl, List.prefix_rfl, fun _ => rfl⟩ rfl rfl rfl rfl
  | abandon => exact h.abandon
  | fire handle =>
    unfold Autosave.step
    dsimp only
    split
    · exact (hclock _).flushFrom le_rfl
    · exact h
  | finish run ok => exact h.finish run ok
  | next =>
    unfold Autosave.step
    cases hjobs : s.jobs with
    | nil => exact h
    | cons j js => exact h.act hjobs maxWaitMs

theorem books_fresh : Books .fresh where
  slot := rfl
  known _ hrun := absurd hrun List.not_mem_nil
  nodup := List.nodup_nil
  awaited _ hrun := absurd hrun List.not_mem_nil
  jobs _ hj := absurd hj List.not_mem_nil
  reactions _ hr := absurd hr List.not_mem_nil

end Books

section Accounts

/-- While nothing is marked as pending, every touch is saved or dropped, or the last `run()` was
started after it and has not been reported. -/
def Accounted (s : State) : Prop :=
  s.dirtySince = none → s.touches ≤ s.saved ∨ s.touches ≤ s.dropped ∨
    ∃ run, run + 1 = s.starts.length ∧ s.touches ≤ s.starts.getD run 0 ∧
      (run ∈ s.inFlight ∨ run ∈ s.failing)

variable {s : State}

theorem accounted_of_pending {t : State} (h : t.dirtySince.isSome) : Accounted t := by
  intro hnone
  rw [hnone] at h
  exact nomatch h

theorem Accounted.of_eq (h : Accounted s) {t : State} (hdirty : t.dirtySince = s.dirtySince)
    (htouches : t.touches = s.touches) (hsaved : s.saved ≤ t.saved)
    (hdropped : t.dropped = s.dropped) (hstarts : t.starts = s.starts)
    (hopen : ∀ run, run ∈ s.inFlight ∨ run ∈ s.failing →
      run + 1 = s.starts.length → s.touches ≤ s.starts.getD run 0 →
      t.touches ≤ t.saved ∨ run ∈ t.inFlight ∨ run ∈ t.failing) : Accounted t := by
  intro hnone
  rw [htouches, hdropped, hstarts]
  rcases h (hdirty ▸ hnone) with hdone | hdrop | ⟨run, hlast, hat, hrun⟩
  · exact .inl (hdone.trans hsaved)
  · exact .inr (.inl hdrop)
  · rcases hopen run hrun hlast hat with hdone | hstill
    · exact .inl (htouches ▸ hdone)
    · exact .inr (.inr ⟨run, hlast, hat, hstill⟩)

theorem State.failing_pop {j : Job} {js : List Job} (hjobs : s.jobs = j :: js)
    (hj : j.failed = none) :
    { s with jobs := js }.failing = s.failing := by
  unfold State.failing
  rw [hjobs, List.filterMap_cons_none hj]

theorem Accounted.pop (h : Accounted s) {j : Job} {js : List Job} (hjobs : s.jobs = j :: js)
    (hj : j.failed = none) :
    Accounted { s with jobs := js } := by
  refine h.of_eq rfl rfl le_rfl rfl rfl fun run hrun _ _ => .inr (hrun.imp id fun hfailing => ?_)
  rwa [State.failing_pop hjobs hj]

theorem Accounted.follow (h : Accounted s) {j : Job} {js new : List Job} (hjobs : s.jobs = j :: js)
    (hnew : ∀ run, j.failed = some run → ∃ j' ∈ new, j'.failed = some run) :
    Accounted { s with jobs := js ++ new } := by
  refine h.of_eq rfl rfl le_rfl rfl rfl fun run hrun _ _ => .inr (hrun.imp id fun hfailing => ?_)
  obtain ⟨i, hi, hfailed⟩ := List.mem_filterMap.mp hfailing
  refine List.mem_filterMap.mpr ?_
  rcases List.mem_cons.mp (hjobs ▸ hi) with rfl | hold
  · obtain ⟨j', hj', hfailed'⟩ := hnew run hfailed
    exact ⟨j', List.mem_append_right _ hj', hfailed'⟩
  · exact ⟨i, List.mem_append_left _ hold, hfailed⟩

theorem Accounted.flushFrom (h : Accounted s) (asked : ℕ) : Accounted (s.flushFrom asked) := by
  unfold State.flushFrom
  cases hrun : s.running with
  | some run => exact h
  | none =>
    cases hdirty : s.dirtySince with
    | none =>
      intro _
      exact h hdirty
    | some since =>
      -- Whatever came before, the `run()` that starts now covers every touch.
      intro _
      refine .inr (.inr ⟨s.starts.length, ?_, ?_, .inl ?_⟩)
      · exact (List.length_append : (s.starts ++ [s.touches]).length = _).symm
      · change s.touches ≤ (s.starts ++ [s.touches]).getD s.starts.length 0
        rw [List.getD_append_right _ _ _ _ le_rfl, Nat.sub_self]
        exact le_rfl
      · exact List.mem_append_right _ (List.mem_singleton_self _)

theorem accounted_putBack (maxWaitMs since : ℤ) : Accounted (s.putBack maxWaitMs since) := by
  have hmarked :
      (if s.dirtySince.all (since < ·) then { s with dirtySince := some since }
        else s).dirtySince.isSome := by
    split
    next => rfl
    next hkeep =>
      cases hdirty : s.dirtySince with
      | none =>
        rw [hdirty] at hkeep
        exact absurd rfl hkeep
      | some d => rfl
  apply accounted_of_pending
  unfold State.putBack
  generalize (if s.dirtySince.all (since < ·) then { s with dirtySince := some since } else s) =
    t at hmarked
  dsimp only
  split
  · exact hmarked
  · exact hmarked

theorem Accounted.touch (h : Accounted s) (quietMs maxWaitMs now : ℤ) : Accounted
    (s.touch quietMs maxWaitMs now) := by
  unfold State.touch
  split
  · exact h
  · exact accounted_of_pending rfl

theorem Accounted.abandonFrom (h : Accounted s) : Accounted s.abandonFrom := by
  unfold State.abandonFrom
  cases hrun : s.running with
  | some run => exact h
  | none => exact h.of_eq rfl rfl le_rfl rfl rfl fun _ hopen _ _ => .inr hopen

theorem accounted_abandon : Accounted s.abandon :=
  Accounted.abandonFrom fun _ => .inr (.inl le_rfl)

theorem Accounted.finish (h : Accounted s) (run : ℕ) (ok : Bool) : Accounted (s.finish run ok) := by
  unfold State.finish
  split
  next hmem =>
    have hsaved : s.saved ≤ if ok then max s.saved (s.starts.getD run 0) else s.saved := by
      split
      · exact le_max_left _ _
      · exact le_rfl
    refine h.of_eq rfl rfl hsaved rfl rfl fun last hopen _ hat => ?_
    rcases hopen with hflying | hfailing
    · by_cases hlast : last = run
      · subst hlast
        cases ok with
        | true => exact .inl (hat.trans (le_max_right _ _))
        | false =>
          refine .inr (.inr (List.mem_filterMap.mpr ⟨.cleared last false, ?_, rfl⟩))
          exact List.mem_append_right _ (List.mem_singleton_self _)
      · exact .inr (.inl ((List.mem_erase_of_ne hlast).mpr hflying))
    · obtain ⟨j, hj, hfailed⟩ := List.mem_filterMap.mp hfailing
      exact .inr (.inr (List.mem_filterMap.mpr ⟨j, List.mem_append_left _ hj, hfailed⟩))
  next => exact h

theorem Accounted.act (h : Accounted s) (hbooks : Books s) {j : Job} {js : List Job}
    (hjobs : s.jobs = j :: js) (maxWaitMs : ℤ) :
    Accounted (j.act maxWaitMs { s with jobs := js }) := by
  cases j with
  | cleared run ok =>
    have hnext : Accounted { s with jobs := js ++ [.handedOn, .followed run ok] } := by
      refine h.follow hjobs fun failed hfailed => ?_
      cases ok with
      | true => exact nomatch hfailed
      | false => exact ⟨.followed run false, by simp, hfailed⟩
    exact hnext
  | handedOn => exact h.pop hjobs rfl
  | followed run ok =>
    refine h.follow hjobs fun failed hfailed => ?_
    cases ok with
    | true => exact nomatch hfailed
    | false => exact ⟨.settled run false, List.mem_singleton_self _, hfailed⟩
  | settled run ok =>
    have hnext : Accounted { s with
        jobs := js ++ (s.reactions.filter (·.1 = run)).map fun r => r.2.job run ok } := by
      refine h.follow hjobs fun failed hfailed => ?_
      cases ok with
      | true => exact nomatch hfailed
      | false =>
        -- The flush of the save is registered, so it hears of the failure.
        have hopen : run ∈ s.unsettled :=
          List.mem_append_right _ (List.mem_filterMap.mpr ⟨_, hjobs ▸ List.mem_cons_self .., rfl⟩)
        obtain ⟨asked, since, hmem⟩ := hbooks.awaited run hopen
        refine ⟨.resumed run false asked since,
          List.mem_map.mpr ⟨(run, .saves asked since), ?_, rfl⟩, hfailed⟩
        exact List.mem_filter.mpr ⟨hmem, decide_eq_true rfl⟩
    exact hnext
  | resumed run ok asked since =>
    cases ok with
    | true => exact h.pop hjobs rfl
    | false => exact accounted_putBack maxWaitMs since
  | caught c => exact h.follow hjobs fun _ hfailed => nomatch hfailed
  | looks c =>
    have hpop := h.pop hjobs rfl
    cases c with
    | flush asked => exact hpop.flushFrom asked
    | abandon => exact hpop.abandonFrom

theorem Accounted.step (h : Accounted s) (hbooks : Books s) (quietMs maxWaitMs : ℤ) (e : Event) :
    Accounted (step quietMs maxWaitMs s e) := by
  cases e with
  | touch now => exact h.touch quietMs maxWaitMs now
  | flush => exact Accounted.flushFrom (s := s.cancel) h s.touches
  | dispose => exact h
  | abandon => exact accounted_abandon
  | fire handle =>
    unfold Autosave.step
    dsimp only
    split
    · exact Accounted.flushFrom (s := State.cancel { s with clock := s.clock.fire handle }) h _
    · exact h
  | finish run ok => exact h.finish run ok
  | next =>
    unfold Autosave.step
    cases hjobs : s.jobs with
    | nil => exact h
    | cons j js => exact h.act hbooks hjobs maxWaitMs

theorem books_run (quietMs maxWaitMs : ℤ) (es : List Event) :
    Books (Machine.run (step quietMs maxWaitMs) .fresh es) ∧
      Accounted (Machine.run (step quietMs maxWaitMs) .fresh es) := by
  have hreach : Machine.Reachable (step quietMs maxWaitMs) .fresh
      (Machine.run (step quietMs maxWaitMs) .fresh es) :=
    ⟨es, rfl⟩
  refine Machine.Reachable.invariant (Q := fun s => Books s ∧ Accounted s) hreach
    ⟨books_fresh, fun _ => .inl le_rfl⟩ ?_
  exact fun _ e h => ⟨h.1.step quietMs maxWaitMs e, h.2.step h.1 quietMs maxWaitMs e⟩

end Accounts

section Answers

variable {s : State}

theorem kept_flushFrom (hbooks : Books s) (haccounted : Accounted s) (hreported : s.Reported)
    {asked : ℕ} (hasked : asked ≤ s.touches) (hkept : ∀ a ∈ s.answers, a.Kept) :
    ∀ a ∈ (s.flushFrom asked).answers, a.Kept := by
  unfold State.flushFrom
  cases hrun : s.running with
  | some run => exact hkept
  | none =>
    cases hdirty : s.dirtySince with
    | some since => exact hkept
    | none =>
      have hall : s.touches ≤ s.saved ∨ s.touches ≤ s.dropped := by
        rcases haccounted hdirty with hsaved | hdropped | ⟨run, hlast, -, hflying | hfailing⟩
        · exact .inl hsaved
        · exact .inr hdropped
        · exact absurd ((hbooks.idle hrun).1 ▸ hflying) List.not_mem_nil
        · exact .inr (hreported hrun hdirty run hfailing hlast)
      intro a ha
      rcases List.mem_append.mp ha with hold | hnew
      · exact hkept a hold
      · obtain rfl := List.mem_singleton.mp hnew
        exact hall.imp hasked.trans hasked.trans

theorem kept_act (hbooks : Books s) (haccounted : Accounted s) {j : Job} {js : List Job}
    (hjobs : s.jobs = j :: js) (hheeds : Heeds s .next) (maxWaitMs : ℤ)
    (hkept : ∀ a ∈ s.answers, a.Kept) :
    ∀ a ∈ (j.act maxWaitMs { s with jobs := js }).answers, a.Kept := by
  have hsound : j.Sound s := hbooks.jobs j (hjobs ▸ List.mem_cons_self ..)
  unfold Heeds at hheeds
  rw [hjobs] at hheeds
  cases j with
  | cleared run ok | handedOn | followed run ok | settled run ok | caught c => exact hkept
  | resumed run ok asked since =>
    cases ok with
    | true =>
      intro a ha
      rcases List.mem_append.mp ha with hold | hnew
      · exact hkept a hold
      · obtain rfl := List.mem_singleton.mp hnew
        exact .inl (hsound.2 rfl)
    | false =>
      change ∀ a ∈ (State.putBack _ _ _).answers, a.Kept
      unfold State.putBack
      split <;> dsimp only <;> split <;> exact hkept
  | looks c =>
    cases c with
    | flush asked =>
      refine kept_flushFrom (hbooks.pop hjobs rfl) (haccounted.pop hjobs rfl) ?_ hsound hkept
      intro hrun hdirty run hfailing
      exact hheeds hrun hdirty run (State.failing_pop hjobs rfl ▸ hfailing)
    | abandon =>
      change ∀ a ∈ (State.abandonFrom _).answers, a.Kept
      unfold State.abandonFrom
      split <;> exact hkept

theorem kept_step (hbooks : Books s) (haccounted : Accounted s) (quietMs maxWaitMs : ℤ) {e : Event}
    (hheeds : Heeds s e) (hkept : ∀ a ∈ s.answers, a.Kept) :
    ∀ a ∈ (step quietMs maxWaitMs s e).answers, a.Kept := by
  have hclock (c : Clock) : Books { s with clock := c } :=
    hbooks.of_eq ⟨le_rfl, le_rfl, List.prefix_rfl, id⟩ rfl rfl rfl rfl
  cases e with
  | touch now =>
    change ∀ a ∈ (State.touch _ _ _ _).answers, a.Kept
    unfold State.touch
    split <;> exact hkept
  | flush => exact kept_flushFrom (hclock s.clock.cancel) haccounted hheeds le_rfl hkept
  | dispose => exact hkept
  | abandon =>
    change ∀ a ∈ (State.abandonFrom _).answers, a.Kept
    unfold State.abandonFrom
    split <;> exact hkept
  | fire handle =>
    unfold step
    dsimp only
    split
    next hdue =>
      -- The queue is empty, so no failure is on its way.
      refine kept_flushFrom (hclock (s.clock.fire handle).cancel) haccounted
        (fun _ _ run hfailing => ?_) le_rfl hkept
      change run ∈ s.jobs.filterMap Job.failed at hfailing
      rw [hdue.1] at hfailing
      exact absurd hfailing List.not_mem_nil
    next => exact hkept
  | finish run ok =>
    change ∀ a ∈ (State.finish _ _ _).answers, a.Kept
    unfold State.finish
    split <;> exact hkept
  | next =>
    unfold step
    cases hjobs : s.jobs with
    | nil => exact hkept
    | cons j js => exact kept_act hbooks haccounted hjobs hheeds maxWaitMs hkept

end Answers

section Quiet

/-- Nothing can start a `run()` any more but a new flush: no flush waits, or it will find nothing
pending. -/
structure Quiet (s : State) : Prop where
  disposed : s.disposed = true
  running : s.running = none
  waits : s.flushWaits = true → s.dirtySince = none ∧ s.failing = []

variable {s : State}

theorem Quiet.of_eq (h : Quiet s) {t : State} (hdisposed : t.disposed = s.disposed)
    (hrunning : t.running = s.running) (hdirty : s.dirtySince = none → t.dirtySince = none)
    (hwaits : t.flushWaits = true → s.flushWaits = true)
    (hfailing : s.failing = [] → t.failing = []) : Quiet t where
  disposed := hdisposed.trans h.disposed
  running := hrunning.trans h.running
  waits hwait := (h.waits (hwaits hwait)).imp hdirty hfailing

theorem Quiet.pop (h : Quiet s) {j : Job} {js : List Job} (hjobs : s.jobs = j :: js) :
    Quiet { s with jobs := js } := by
  refine h.of_eq rfl rfl id (fun hwait => ?_) fun hnone => ?_
  · rw [State.flushWaits_pop hjobs, hwait, Bool.or_true]
  · unfold State.failing at hnone ⊢
    rw [hjobs] at hnone
    exact List.sublist_nil.mp (hnone ▸ (List.sublist_cons_self j js).filterMap Job.failed)

theorem Quiet.settle (h : Quiet s) {run : ℕ} {ok : Bool} {js : List Job}
    (hjobs : s.jobs = .settled run ok :: js) (maxWaitMs : ℤ) :
    Quiet ((Job.settled run ok).act maxWaitMs { s with jobs := js }) := by
  have hall := any_settled run ok (Reaction.job_waiting run ok) s.reactions
  refine h.of_eq rfl rfl id (fun hwait => ?_) fun hnone => ?_
  · rw [State.flushWaits_pop hjobs]
    simp only [State.flushWaits, Job.act, List.any_append, ← hall, Bool.or_eq_true] at hwait ⊢
    tauto
  · have hold := List.filterMap_eq_nil_iff.mp hnone
    have hok : ok = true := by
      have hhead := hold (.settled run ok) (hjobs ▸ List.mem_cons_self ..)
      cases ok with
      | true => rfl
      | false => cases hhead
    refine List.filterMap_eq_nil_iff.mpr fun j hj => ?_
    rcases List.mem_append.mp hj with hrest | hnew
    · exact hold j (hjobs ▸ List.mem_cons_of_mem _ hrest)
    · obtain ⟨⟨run', r⟩, -, rfl⟩ := List.mem_map.mp hnew
      subst hok
      cases r with
      | saves asked since => rfl
      | waits c => rfl

theorem Quiet.follow (h : Quiet s) {j j' : Job} {js : List Job} (hjobs : s.jobs = j :: js)
    (hwaiting : j'.waiting = j.waiting) (hfailed : j'.failed = j.failed) :
    Quiet { s with jobs := js ++ [j'] } := by
  refine h.of_eq rfl rfl id (fun hwait => ?_) fun hnone => ?_
  · rw [State.flushWaits_pop hjobs, ← hwaiting, Bool.or_comm]
    exact (State.flushWaits_push { s with jobs := js } j').symm.trans hwait
  · have hold := List.filterMap_eq_nil_iff.mp hnone
    refine List.filterMap_eq_nil_iff.mpr fun i hi => ?_
    rcases List.mem_append.mp hi with hrest | hlast
    · exact hold i (hjobs ▸ List.mem_cons_of_mem _ hrest)
    · obtain rfl := List.mem_singleton.mp hlast
      exact hfailed.trans (hold j (hjobs ▸ List.mem_cons_self ..))

theorem State.abandonFrom_of_idle (hrun : s.running = none) :
    s.abandonFrom = { s with abandoned := s.abandoned + 1 } := by
  unfold State.abandonFrom
  split
  next run hsome => exact nomatch hsome.symm.trans hrun
  next => rfl

theorem State.flushFrom_of_idle (hrun : s.running = none) (hdirty : s.dirtySince = none)
    (asked : ℕ) :
    s.flushFrom asked = s.answer asked := by
  unfold State.flushFrom
  split
  next run hsome => exact nomatch hsome.symm.trans hrun
  next =>
    split
    next => rfl
    next since hsome => exact nomatch hsome.symm.trans hdirty

theorem Quiet.abandonFrom (h : Quiet s) : Quiet s.abandonFrom := by
  rw [State.abandonFrom_of_idle h.running]
  exact ⟨h.disposed, h.running, h.waits⟩

theorem State.abandonFrom_starts (s : State) : s.abandonFrom.starts = s.starts := by
  unfold State.abandonFrom
  split <;> rfl

theorem State.putBack_starts (maxWaitMs : ℤ) (s : State) (since : ℤ) :
    (s.putBack maxWaitMs since).starts = s.starts := by
  unfold State.putBack
  split <;> dsimp only <;> split <;> rfl

theorem Quiet.act (h : Quiet s) (hbooks : Books s) {j : Job} {js : List Job}
    (hjobs : s.jobs = j :: js) (maxWaitMs : ℤ) : Quiet (j.act maxWaitMs { s with jobs := js }) ∧
      (j.act maxWaitMs { s with jobs := js }).starts = s.starts := by
  have hpop := h.pop hjobs
  cases j with
  | cleared run ok =>
    -- Nothing is running, so no `finally` is queued.
    have hlanding := (hbooks.idle h.running).2
    rw [hjobs] at hlanding
    exact nomatch hlanding
  | handedOn => exact ⟨hpop, rfl⟩
  | followed run ok =>
    refine ⟨h.follow hjobs rfl ?_, rfl⟩
    cases ok with
    | true => rfl
    | false => rfl
  | settled run ok => exact ⟨h.settle hjobs maxWaitMs, rfl⟩
  | resumed run ok asked since =>
    cases ok with
    | true => exact ⟨⟨hpop.disposed, hpop.running, hpop.waits⟩, rfl⟩
    | false =>
      refine ⟨?_, State.putBack_starts ..⟩
      -- A failure is on its way, so no flush waits.
      have hwaits : { s with jobs := js }.flushWaits = false := by
        refine Bool.eq_false_iff.mpr fun hwait => ?_
        have hnone := (h.waits (by rw [State.flushWaits_pop hjobs, hwait, Bool.or_true])).2
        unfold State.failing at hnone
        rw [hjobs] at hnone
        exact nomatch hnone
      change Quiet (State.putBack maxWaitMs { s with jobs := js } since)
      unfold State.putBack
      have hquiet (dirty : Option ℤ) (c : Clock) :
          Quiet { s with jobs := js, dirtySince := dirty, clock := c } :=
        ⟨h.disposed, h.running, fun hwait => absurd (hwaits.symm.trans hwait) Bool.false_ne_true⟩
      split <;> dsimp only <;> split <;> exact hquiet ..
  | caught c => exact ⟨h.follow hjobs (by cases c <;> rfl) rfl, rfl⟩
  | looks c =>
    cases c with
    | flush asked =>
      have hwait : s.flushWaits = true := by
        rw [State.flushWaits_pop hjobs]
        rfl
      have hdirty := (h.waits hwait).1
      have hlook : { s with jobs := js }.flushFrom asked = { s with jobs := js }.answer asked :=
        State.flushFrom_of_idle hpop.running hdirty asked
      change Quiet ({ s with jobs := js }.flushFrom asked) ∧
        ({ s with jobs := js }.flushFrom asked).starts = s.starts
      rw [hlook]
      exact ⟨⟨hpop.disposed, hpop.running, hpop.waits⟩, rfl⟩
    | abandon => exact ⟨hpop.abandonFrom, State.abandonFrom_starts _⟩

theorem Quiet.step (h : Quiet s) (hbooks : Books s) (htimed : Timed s) (quietMs maxWaitMs : ℤ)
    {e : Event} (hflush : e ≠ .flush) :
    Quiet (step quietMs maxWaitMs s e) ∧ (step quietMs maxWaitMs s e).starts = s.starts := by
  cases e with
  | touch now =>
    have hsame : s.touch quietMs maxWaitMs now = s := if_pos h.disposed
    change Quiet (s.touch quietMs maxWaitMs now) ∧ (s.touch quietMs maxWaitMs now).starts = s.starts
    rw [hsame]
    exact ⟨h, rfl⟩
  | flush => exact absurd rfl hflush
  | dispose => exact ⟨⟨rfl, h.running, h.waits⟩, rfl⟩
  | abandon =>
    refine ⟨Quiet.abandonFrom ⟨rfl, h.running, fun hwait => ⟨rfl, (h.waits hwait).2⟩⟩, ?_⟩
    exact State.abandonFrom_starts _
  | fire handle =>
    -- No timer is set any more.
    have hclock := htimed.clock
    unfold Clock.Wf at hclock
    rw [htimed.disposed h.disposed] at hclock
    have hno : ¬ (s.jobs = [] ∧ handle ∈ s.clock.set.map (·.1)) := by
      rintro ⟨-, hset⟩
      rw [hclock] at hset
      exact absurd hset List.not_mem_nil
    unfold Autosave.step
    dsimp only
    rw [if_neg hno]
    exact ⟨h, rfl⟩
  | finish run ok =>
    have hno : run ∉ s.inFlight := (hbooks.idle h.running).1 ▸ List.not_mem_nil
    have hsame : s.finish run ok = s := if_neg hno
    change Quiet (s.finish run ok) ∧ (s.finish run ok).starts = s.starts
    rw [hsame]
    exact ⟨h, rfl⟩
  | next =>
    unfold Autosave.step
    cases hjobs : s.jobs with
    | nil => exact ⟨h, rfl⟩
    | cons j js => exact h.act hbooks hjobs maxWaitMs

theorem State.flushFrom_abandoned (s : State) (asked : ℕ) :
    (s.flushFrom asked).abandoned = s.abandoned := by
  unfold State.flushFrom
  split
  · rfl
  · split <;> rfl

theorem quiet_of_abandonFrom (hdisposed : s.disposed = true) (hundisturbed : s.Undisturbed)
    (hresolved : s.abandoned < s.abandonFrom.abandoned) : Quiet s.abandonFrom := by
  cases hrun : s.running with
  | none => exact Quiet.abandonFrom ⟨hdisposed, hrun, hundisturbed hrun⟩
  | some run =>
    unfold State.abandonFrom at hresolved
    rw [hrun] at hresolved
    exact absurd hresolved (lt_irrefl _)

theorem quiet_of_resolved (hbooks : Books s) (quietMs maxWaitMs : ℤ) {e : Event}
    (hheeds : Heeds s e) (hresolved : s.abandoned < (step quietMs maxWaitMs s e).abandoned) :
    Quiet (step quietMs maxWaitMs s e) := by
  have hsame (h : (step quietMs maxWaitMs s e).abandoned = s.abandoned) :
      Quiet (step quietMs maxWaitMs s e) :=
    absurd (h ▸ hresolved) (lt_irrefl _)
  cases e with
  | touch now =>
    refine hsame ?_
    change (State.touch _ _ _ _).abandoned = _
    unfold State.touch
    split <;> rfl
  | flush => exact hsame (State.flushFrom_abandoned ..)
  | dispose => exact hsame rfl
  | abandon => exact quiet_of_abandonFrom rfl (fun hrun hwait => ⟨rfl, hheeds hrun hwait⟩) hresolved
  | fire handle =>
    refine hsame ?_
    unfold step
    dsimp only
    split
    · exact State.flushFrom_abandoned ..
    · rfl
  | finish run ok =>
    refine hsame ?_
    change (State.finish _ _ _).abandoned = _
    unfold State.finish
    split <;> rfl
  | next =>
    unfold step at hresolved ⊢
    unfold Heeds at hheeds
    cases hjobs : s.jobs with
    | nil =>
      rw [hjobs] at hresolved
      exact absurd hresolved (lt_irrefl _)
    | cons j js =>
      have hsound : j.Sound s := hbooks.jobs j (hjobs ▸ List.mem_cons_self ..)
      rw [hjobs] at hresolved hheeds
      have hno (h : (j.act maxWaitMs { s with jobs := js }).abandoned = s.abandoned) :
          Quiet (j.act maxWaitMs { s with jobs := js }) := absurd (h ▸ hresolved) (lt_irrefl _)
      cases j with
      | cleared run ok | handedOn | followed run ok | settled run ok | caught c => exact hno rfl
      | resumed run ok asked since =>
        refine hno ?_
        cases ok with
        | true => rfl
        | false =>
          change (State.putBack _ _ _).abandoned = _
          unfold State.putBack
          split <;> dsimp only <;> split <;> rfl
      | looks c =>
        cases c with
        | flush asked => exact hno (State.flushFrom_abandoned ..)
        | abandon =>
          refine quiet_of_abandonFrom hsound (fun hrun hwait => ?_) hresolved
          have hold := hheeds hrun (by rw [State.flushWaits_pop hjobs, hwait, Bool.or_true])
          exact ⟨hold.1, (State.failing_pop hjobs rfl).trans hold.2⟩

theorem Quiet.run (h : Quiet s) (hbooks : Books s) (htimed : Timed s) (quietMs maxWaitMs : ℤ)
    {es : List Event} (hflush : Event.flush ∉ es) :
    (Machine.run (Autosave.step quietMs maxWaitMs) s es).starts = s.starts := by
  induction es generalizing s with
  | nil => rfl
  | cons e es ih =>
    have hne : e ≠ .flush := fun heq => hflush (heq ▸ List.mem_cons_self ..)
    obtain ⟨hnext, hstarts⟩ := h.step hbooks htimed quietMs maxWaitMs hne
    have hrest := ih hnext (hbooks.step quietMs maxWaitMs e) (htimed.step quietMs maxWaitMs e)
      fun hmem => hflush (List.mem_cons_of_mem _ hmem)
    exact hrest.trans hstarts

end Quiet

section Claims

theorem inFlight_le_one (quietMs maxWaitMs : ℤ) (es : List Event) :
    (Machine.run (step quietMs maxWaitMs) .fresh es).inFlight.length ≤ 1 :=
  (books_run quietMs maxWaitMs es).1.inFlight_le

theorem timer_or_flush_of_pending (quietMs maxWaitMs : ℤ) (es : List Event)
    (hlive : (Machine.run (step quietMs maxWaitMs) .fresh es).disposed = false)
    (hpending : (Machine.run (step quietMs maxWaitMs) .fresh es).dirtySince.isSome) :
    (Machine.run (step quietMs maxWaitMs) .fresh es).clock.set ≠ [] ∨
      (Machine.run (step quietMs maxWaitMs) .fresh es).flushing = true := by
  have htimed := timed_run quietMs maxWaitMs es
  exact (htimed.pending hlive hpending).imp htimed.clock.set_ne_nil State.waits_flushing

/-- The scheduler keeps its promises in the runs in which no flush looks past a failure that is
still to be reported, and no `abandon` resolves beside a flush that waits for the change of a failed
save. -/
theorem autosave_laws (quietMs maxWaitMs : ℤ) (es : List Event)
    (h : Machine.Along (step quietMs maxWaitMs) Heeds .fresh es) : Laws quietMs maxWaitMs es where
  alone := inFlight_le_one quietMs maxWaitMs es
  kept := by
    have hall : Machine.Throughout (step quietMs maxWaitMs)
        (fun s => (Books s ∧ Accounted s) ∧ ∀ a ∈ s.answers, a.Kept) .fresh es := by
      refine Machine.throughout_of_along ⟨books_run quietMs maxWaitMs [], fun a ha =>
        absurd ha List.not_mem_nil⟩ ?_ h
      rintro s e ⟨⟨hbooks, haccounted⟩, hkept⟩ hheeds
      exact ⟨⟨hbooks.step quietMs maxWaitMs e, haccounted.step hbooks quietMs maxWaitMs e⟩,
        kept_step hbooks haccounted quietMs maxWaitMs hheeds hkept⟩
    exact hall.last.2
  timed := timer_or_flush_of_pending quietMs maxWaitMs es
  ended before e after hes hresolved hflush := by
    subst hes
    have hbooks := books_run quietMs maxWaitMs before
    have hbooks' := books_run quietMs maxWaitMs (before ++ [e])
    have htimed' := timed_run quietMs maxWaitMs (before ++ [e])
    have hheeds := (Machine.along_append.mp h).2.1
    rw [Machine.run_append] at hresolved hbooks' htimed'
    have hquiet := quiet_of_resolved hbooks.1 quietMs maxWaitMs hheeds hresolved
    have hrest := hquiet.run hbooks'.1 htimed' quietMs maxWaitMs hflush
    rw [Machine.run_append, Machine.run_append]
    exact hrest

instance : DecidablePred State.Reported :=
  fun s => inferInstanceAs (Decidable (_ → _ → ∀ run ∈ s.failing, _))

instance : DecidablePred State.Undisturbed := fun s =>
  inferInstanceAs (Decidable (_ → s.flushWaits = true → s.dirtySince = none ∧ s.failing = []))

instance (s : State) (e : Event) : Decidable (Heeds s e) := by
  unfold Heeds
  split
  · infer_instance
  · infer_instance
  · split <;> infer_instance
  · infer_instance

/-- A save fails and is put back, the next one succeeds, a change is touched and dropped, and a
flush is called. -/
def retried : List Event :=
  [.touch 0, .flush, .touch 100, .finish 0 false, .next, .next, .next, .next, .next, .flush,
    .finish 1 true, .next, .next, .next, .next, .next, .touch 200, .abandon, .flush]

theorem autosave_laws_retried : Laws 3000 15000 retried ∧
    (Machine.run (step 3000 15000) .fresh retried).answers = [⟨2, 2, 0⟩, ⟨3, 2, 3⟩] :=
  ⟨autosave_laws 3000 15000 retried (by decide), by decide⟩

/-- A save has failed and `finally` has cleared `running` when a flush is called, before the catch
of the first. -/
def unheard : List Event := [.touch 0, .flush, .finish 0 false, .next, .flush]

/-- A flush waits for a save that fails, and `abandon` resolves before the catch puts the change
back. -/
def revived : List Event := [.touch 0, .flush, .flush, .finish 0 false, .next, .abandon]

/-- The flush resolves with nothing saved, and a `run()` starts after `abandon` has resolved. -/
theorem autosave_forgets : ¬ Laws 3000 15000 unheard ∧
    ¬ Laws 3000 15000 (revived ++ List.replicate 6 .next) := by
  constructor
  · intro h
    have hkept : (Answer.mk 1 0 0).Kept := h.kept ⟨1, 0, 0⟩ (by decide)
    exact absurd hkept (by unfold Answer.Kept; decide)
  · intro h
    have hended := h.ended [.touch 0, .flush, .flush, .finish 0 false, .next] .abandon
      (List.replicate 6 .next) rfl
      (by decide) (by decide)
    exact absurd hended (by decide)

end Claims

end Dmcn.Autosave
