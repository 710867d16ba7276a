import Mathlib.Order.Lattice
import OpenDmcn.Lib.Run

/-! The composer's autosave (`lib/draftAutosave.ts`): a `SaveScheduler` and the event loop it runs
on. Its calls are cut where they await; what follows is a job of the loop's queue, in the order in
which promises queue their reactions. -/

namespace Dmcn.Autosave

structure Clock where
  timer : ℕ
  hasTimer : Bool
  set : List (ℕ × ℤ)
  nextHandle : ℕ

namespace Clock

def cancel (c : Clock) : Clock :=
  if !c.hasTimer then c else { c with set := c.set.filter (·.1 ≠ c.timer), hasTimer := false }

def schedule (c : Clock) (ms : ℤ) : Clock :=
  let c := c.cancel
  { c with
    hasTimer := true
    timer := c.nextHandle
    set := c.set ++ [(c.nextHandle, ms)]
    nextHandle := c.nextHandle + 1 }

def fire (c : Clock) (handle : ℕ) : Clock :=
  { c with set := c.set.filter (·.1 ≠ handle), hasTimer := false }

end Clock

/-- A call that waits out the save in `running`. Of a flush, `asked` is how many touches came before
it. -/
inductive Caller where
  | flush (asked : ℕ)
  | abandon
  deriving DecidableEq

/-- What is registered on the promise in `running`: the flush whose save it is, at `await
this.running`, or a call at `await this.running.catch(() => undefined)`. -/
inductive Reaction where
  | saves (asked : ℕ) (since : ℤ)
  | waits (c : Caller)
  deriving DecidableEq

/-- The jobs that the promises of the scheduler queue; `ok` says whether the `run()` has
succeeded. -/
inductive Job where
  -- The callback of `finally`.
  | cleared (run : ℕ) (ok : Bool)
  -- `finally` hands on what `run()` came to in a promise of its own; the one in `running` takes two
  -- jobs to follow it.
  | handedOn
  | followed (run : ℕ) (ok : Bool)
  | settled (run : ℕ) (ok : Bool)
  -- The flush that awaits its own save goes on.
  | resumed (run : ℕ) (ok : Bool) (asked : ℕ) (since : ℤ)
  -- The handler of `catch`, and the call that awaits it goes on.
  | caught (c : Caller)
  | looks (c : Caller)
  deriving DecidableEq

def Reaction.job (run : ℕ) (ok : Bool) : Reaction → Job
  | .saves asked since => .resumed run ok asked since
  | .waits c => .caught c

/-- A flush that has resolved, with how many touches the saves that had succeeded by then cover, and
how many `abandon` had dropped. -/
structure Answer where
  asked : ℕ
  saved : ℕ
  dropped : ℕ
  deriving DecidableEq

structure State where
  clock : Clock
  dirtySince : Option ℤ
  running : Option ℕ
  disposed : Bool
  -- The event loop: the jobs queued, what is registered on which promise, and the calls of `run()`
  -- that have not ended.
  jobs : List Job
  reactions : List (ℕ × Reaction)
  inFlight : List ℕ
  -- What has happened: the touches, the touches before each start of `run()`, and what came of the
  -- calls.
  touches : ℕ
  starts : List ℕ
  saved : ℕ
  dropped : ℕ
  answers : List Answer
  abandoned : ℕ

def State.fresh : State where
  clock := ⟨0, false, [], 0⟩
  dirtySince := none
  running := none
  disposed := false
  jobs := []
  reactions := []
  inFlight := []
  touches := 0
  starts := []
  saved := 0
  dropped := 0
  answers := []
  abandoned := 0

namespace State

def cancel (s : State) : State := { s with clock := s.clock.cancel }

def schedule (s : State) (ms : ℤ) : State := { s with clock := s.clock.schedule ms }

def touch (quietMs maxWaitMs now : ℤ) (s : State) : State :=
  if s.disposed then s else
  let since := s.dirtySince.getD now
  { s with dirtySince := some since, touches := s.touches + 1 }.schedule
    (max 0 (min quietMs (since + maxWaitMs - now)))

def waitFor (s : State) (run : ℕ) (r : Reaction) : State :=
  { s with reactions := s.reactions ++ [(run, r)] }

def answer (s : State) (asked : ℕ) : State :=
  { s with answers := s.answers ++ [⟨asked, s.saved, s.dropped⟩] }

def start (s : State) (asked : ℕ) (since : ℤ) : State :=
  { s with
    dirtySince := none
    running := some s.starts.length
    inFlight := s.inFlight ++ [s.starts.length]
    starts := s.starts ++ [s.touches] }.waitFor s.starts.length (.saves asked since)

def flushFrom (s : State) (asked : ℕ) : State :=
  match s.running with
  | some run => s.waitFor run (.waits (.flush asked))
  | none =>
    match s.dirtySince with
    | none => s.answer asked
    | some since => s.start asked since

def flush (s : State) : State := s.cancel.flushFrom s.touches

def putBack (maxWaitMs : ℤ) (s : State) (since : ℤ) : State :=
  let s := if s.dirtySince.all (since < ·) then { s with dirtySince := some since } else s
  if s.disposed then s else s.schedule maxWaitMs

def dispose (s : State) : State := { s with disposed := true }.cancel

def abandonFrom (s : State) : State :=
  match s.running with
  | some run => s.waitFor run (.waits .abandon)
  | none => { s with abandoned := s.abandoned + 1 }

def abandon (s : State) : State :=
  { s.dispose with dirtySince := none, dropped := s.touches }.abandonFrom

def finish (s : State) (run : ℕ) (ok : Bool) : State :=
  if run ∈ s.inFlight then
    { s with
      inFlight := s.inFlight.erase run
      jobs := s.jobs ++ [.cleared run ok]
      saved := if ok then max s.saved (s.starts.getD run 0) else s.saved }
  else s

end State

def Job.act (maxWaitMs : ℤ) (s : State) : Job → State
  | .cleared run ok => { s with running := none, jobs := s.jobs ++ [.handedOn, .followed run ok] }
  | .handedOn => s
  | .followed run ok => { s with jobs := s.jobs ++ [.settled run ok] }
  | .settled run ok =>
    { s with
      reactions := s.reactions.filter (·.1 ≠ run)
      jobs := s.jobs ++ (s.reactions.filter (·.1 = run)).map fun r => r.2.job run ok }
  | .resumed _ ok asked since => if ok then s.answer asked else s.putBack maxWaitMs since
  | .caught c => { s with jobs := s.jobs ++ [.looks c] }
  | .looks (.flush asked) => s.flushFrom asked
  | .looks .abandon => s.abandonFrom

/-- What can happen next. Calls come at any time, timers go off once the queue is empty. -/
inductive Event where
  | touch (now : ℤ)
  | flush
  | dispose
  | abandon
  | fire (handle : ℕ)
  | finish (run : ℕ) (ok : Bool)
  | next
  deriving DecidableEq

def step (quietMs maxWaitMs : ℤ) (s : State) : Event → State
  | .touch now => s.touch quietMs maxWaitMs now
  | .flush => s.flush
  | .dispose => s.dispose
  | .abandon => s.abandon
  | .fire handle =>
    if s.jobs = [] ∧ handle ∈ s.clock.set.map (·.1) then
      { s with clock := s.clock.fire handle }.flush
    else s
  | .finish run ok => s.finish run ok
  | .next =>
    match s.jobs with
    | [] => s
    | j :: js => j.act maxWaitMs { s with jobs := js }

section Laws

def Reaction.ofFlush : Reaction → Bool
  | .saves _ _ | .waits (.flush _) => true
  | .waits .abandon => false

def Reaction.waiting : Reaction → Bool
  | .waits (.flush _) => true
  | _ => false

def Job.ofFlush : Job → Bool
  | .resumed .. | .caught (.flush _) | .looks (.flush _) => true
  | _ => false

def Job.waiting : Job → Bool
  | .caught (.flush _) | .looks (.flush _) => true
  | _ => false

def Job.failed : Job → Option ℕ
  | .cleared run false | .followed run false | .settled run false | .resumed run false _ _ =>
    some run
  | _ => none

namespace State

def flushing (s : State) : Bool := s.reactions.any (·.2.ofFlush) || s.jobs.any Job.ofFlush

def flushWaits (s : State) : Bool := s.reactions.any (·.2.waiting) || s.jobs.any Job.waiting

def failing (s : State) : List ℕ := s.jobs.filterMap Job.failed

end State

/-- What was asked of the flush is saved, or it was dropped and nothing of it was pending. -/
def Answer.Kept (a : Answer) : Prop := a.asked ≤ a.saved ∨ a.asked ≤ a.dropped

structure Laws (quietMs maxWaitMs : ℤ) (es : List Event) : Prop where
  alone : (Machine.run (step quietMs maxWaitMs) .fresh es).inFlight.length ≤ 1
  kept : ∀ a ∈ (Machine.run (step quietMs maxWaitMs) .fresh es).answers, a.Kept
  timed : (Machine.run (step quietMs maxWaitMs) .fresh es).disposed = false →
    (Machine.run (step quietMs maxWaitMs) .fresh es).dirtySince.isSome →
    (Machine.run (step quietMs maxWaitMs) .fresh es).clock.set ≠ [] ∨
      (Machine.run (step quietMs maxWaitMs) .fresh es).flushing = true
  ended : ∀ before e after, es = before ++ e :: after →
    (Machine.run (step quietMs maxWaitMs) .fresh before).abandoned <
      (Machine.run (step quietMs maxWaitMs) .fresh (before ++ [e])).abandoned →
    Event.flush ∉ after →
    (Machine.run (step quietMs maxWaitMs) .fresh es).starts =
      (Machine.run (step quietMs maxWaitMs) .fresh (before ++ [e])).starts

/-- A flush that finds nothing running and nothing pending does not look while the last `run()` has
failed and its flush has yet to put the change back, unless `abandon` has dropped it. -/
def State.Reported (s : State) : Prop :=
  s.running = none → s.dirtySince = none → ∀ run ∈ s.failing, run + 1 = s.starts.length →
    s.touches ≤ s.dropped

/-- An `abandon` that finds nothing running does not leave a flush waiting for the change of a
failed `run()`. -/
def State.Undisturbed (s : State) : Prop :=
  s.running = none → s.flushWaits = true → s.dirtySince = none ∧ s.failing = []

def Heeds (s : State) : Event → Prop
  | .flush => s.Reported
  | .abandon => s.running = none → s.flushWaits = true → s.failing = []
  | .next =>
    match s.jobs with
    | .looks (.flush _) :: _ => s.Reported
    | .looks .abandon :: _ => s.Undisturbed
    | _ => True
  | _ => True

end Laws

section Timer

namespace Clock

def Wf (c : Clock) : Prop := c.set.map (·.1) = if c.hasTimer then [c.timer] else []

theorem Wf.filter {c : Clock} (h : c.Wf) : c.set.filter (·.1 ≠ c.timer) = [] := by
  refine List.filter_eq_nil_iff.mpr fun x hx => ?_
  have hmem : x.1 ∈ c.set.map (·.1) := List.mem_map_of_mem hx
  rw [h] at hmem
  split at hmem
  · simp [List.mem_singleton.mp hmem]
  · exact absurd hmem List.not_mem_nil

@[simp] theorem cancel_hasTimer (c : Clock) : c.cancel.hasTimer = false := by
  unfold cancel
  cases h : c.hasTimer
  · simpa using h
  · rfl

theorem Wf.cancel {c : Clock} (h : c.Wf) : c.cancel.set = [] := by
  unfold Clock.cancel
  cases hset : c.hasTimer with
  | true => exact h.filter
  | false =>
    unfold Wf at h
    rw [hset] at h
    exact List.map_eq_nil_iff.mp h

theorem Wf.cancel_wf {c : Clock} (h : c.Wf) : c.cancel.Wf := by
  unfold Wf
  rw [h.cancel, cancel_hasTimer]
  rfl

theorem Wf.schedule_wf {c : Clock} (h : c.Wf) (ms : ℤ) : (c.schedule ms).Wf := by
  unfold Wf schedule
  simp [h.cancel]

theorem Wf.fire_wf {c : Clock} (h : c.Wf) {handle : ℕ} (hset : handle ∈ c.set.map (·.1)) :
    (c.fire handle).Wf := by
  rw [h] at hset
  split at hset
  · obtain rfl := List.mem_singleton.mp hset
    unfold Wf fire
    rw [h.filter]
    rfl
  · exact absurd hset List.not_mem_nil

theorem Wf.set_ne_nil {c : Clock} (h : c.Wf) (htimer : c.hasTimer = true) : c.set ≠ [] := by
  intro hnil
  unfold Wf at h
  rw [hnil, htimer] at h
  exact absurd h (by simp)

end Clock

structure Ticking (s : State) : Prop where
  clock : s.clock.Wf
  disposed : s.disposed = true → s.clock.hasTimer = false

structure Timed (s : State) : Prop extends Ticking s where
  pending : s.disposed = false → s.dirtySince.isSome → s.clock.hasTimer = true ∨ s.flushWaits = true

theorem State.waits_flushing {s : State} (h : s.flushWaits = true) : s.flushing = true := by
  unfold State.flushWaits at h
  unfold State.flushing
  rw [Bool.or_eq_true] at h ⊢
  refine h.imp (fun hr => ?_) (fun hj => ?_)
  · obtain ⟨r, hr, hwait⟩ := List.any_eq_true.mp hr
    refine List.any_eq_true.mpr ⟨r, hr, ?_⟩
    revert hwait
    rcases r with ⟨run, _ | ⟨_ | _⟩⟩ <;> simp [Reaction.waiting, Reaction.ofFlush]
  · obtain ⟨j, hj, hwait⟩ := List.any_eq_true.mp hj
    refine List.any_eq_true.mpr ⟨j, hj, ?_⟩
    revert hwait
    rcases j with _ | _ | _ | _ | _ | ⟨_ | _⟩ | ⟨_ | _⟩ <;> simp [Job.waiting, Job.ofFlush]

end Timer

section Queue

theorem any_settled (run : ℕ) (ok : Bool) {p : Reaction → Bool} {q : Job → Bool}
    (hpq : ∀ r : Reaction, q (r.job run ok) = p r) (rs : List (ℕ × Reaction)) :
    ((rs.filter (·.1 ≠ run)).any (p ·.2) ||
      ((rs.filter (·.1 = run)).map fun r => r.2.job run ok).any q) =
      rs.any (p ·.2) := by
  induction rs with
  | nil => rfl
  | cons r rs ih =>
    by_cases hr : r.1 = run
    · simp only [ne_eq, hr, not_true_eq_false, decide_false, Bool.false_eq_true, not_false_eq_true,
        List.filter_cons_of_neg, decide_true, List.filter_cons_of_pos, List.map_cons, List.any_cons,
          hpq] at ih ⊢
      rw [← ih, Bool.or_left_comm]
    · simp only [ne_eq, hr, not_false_eq_true, decide_true, List.filter_cons_of_pos, decide_false,
        Bool.false_eq_true, List.filter_cons_of_neg, List.any_cons] at ih ⊢
      rw [← ih, Bool.or_assoc]

@[simp] theorem Reaction.job_waiting (run : ℕ) (ok : Bool) (r : Reaction) :
    (r.job run ok).waiting = r.waiting := by
  rcases r with _ | ⟨_ | _⟩ <;> rfl

namespace State

theorem waitFor_flushWaits (s : State) (run : ℕ) (r : Reaction) :
    (s.waitFor run r).flushWaits = (s.flushWaits || r.waiting) := by
  simp only [flushWaits, waitFor, List.any_append, List.any_cons, List.any_nil, Bool.or_false]
  rw [Bool.or_right_comm]

theorem flushWaits_pop {s : State} {j : Job} {js : List Job} (hj : s.jobs = j :: js) :
    s.flushWaits = (j.waiting || { s with jobs := js }.flushWaits) := by
  simp only [flushWaits, hj, List.any_cons]
  rw [Bool.or_left_comm]

theorem flushWaits_push (s : State) (j : Job) :
    { s with jobs := s.jobs ++ [j] }.flushWaits = (s.flushWaits || j.waiting) := by
  simp only [flushWaits, List.any_append, List.any_cons, List.any_nil, Bool.or_false, Bool.or_assoc]

end State

end Queue

section Pending

variable {s : State}

theorem Ticking.cancel (h : Ticking s) : Ticking s.cancel :=
  ⟨h.clock.cancel_wf, fun _ => s.clock.cancel_hasTimer⟩

theorem Ticking.fire (h : Ticking s) {handle : ℕ} (hset : handle ∈ s.clock.set.map (·.1)) :
    Ticking { s with clock := s.clock.fire handle } :=
  ⟨h.clock.fire_wf hset, fun _ => rfl⟩

theorem Ticking.schedule (h : Ticking s) (hlive : s.disposed = false) (ms : ℤ) :
    Timed (s.schedule ms) where
  clock := h.clock.schedule_wf ms
  disposed hd := absurd (hlive.symm.trans hd) Bool.false_ne_true
  pending _ _ := .inl rfl

theorem Timed.of_eq (h : Timed s) {t : State} (hclock : t.clock = s.clock)
    (hdisposed : t.disposed = s.disposed) (hpending : t.dirtySince = s.dirtySince)
    (hwaits : s.flushWaits = true → t.flushWaits = true) : Timed t where
  clock := hclock ▸ h.clock
  disposed hd := by
    rw [hclock]
    exact h.disposed (hdisposed ▸ hd)
  pending hd hs := by
    rw [hclock]
    exact (h.pending (hdisposed ▸ hd) (hpending ▸ hs)).imp id hwaits

theorem Ticking.flushFrom (h : Ticking s) (asked : ℕ) : Timed (s.flushFrom asked) := by
  unfold State.flushFrom
  cases hrun : s.running with
  | some run =>
    refine ⟨⟨h.clock, h.disposed⟩, fun _ _ => .inr ?_⟩
    rw [State.waitFor_flushWaits]
    exact Bool.or_true _
  | none =>
    cases hdirty : s.dirtySince with
    | none =>
      refine ⟨⟨h.clock, h.disposed⟩, fun _ hs => ?_⟩
      change s.dirtySince.isSome at hs
      rw [hdirty] at hs
      exact nomatch hs
    | some since => exact ⟨⟨h.clock, h.disposed⟩, fun _ hs => nomatch hs⟩

theorem Ticking.putBack (h : Ticking s) (maxWaitMs since : ℤ) :
    Timed (s.putBack maxWaitMs since) := by
  have hset : Ticking (if s.dirtySince.all (since < ·) then { s with dirtySince := some since }
    else s) := by
    split
    · exact ⟨h.clock, h.disposed⟩
    · exact h
  unfold State.putBack
  generalize (if s.dirtySince.all (since < ·) then { s with dirtySince := some since } else s) =
    t at hset
  dsimp only
  cases hlive : t.disposed with
  | true => exact ⟨hset, fun hd _ => absurd (hd.symm.trans hlive) Bool.false_ne_true⟩
  | false => exact hset.schedule hlive maxWaitMs

theorem Ticking.dispose (h : Ticking s) : Timed s.dispose where
  clock := h.clock.cancel_wf
  disposed _ := s.clock.cancel_hasTimer
  pending hd := nomatch hd

theorem Timed.abandonFrom (h : Timed s) : Timed s.abandonFrom := by
  unfold State.abandonFrom
  cases hrun : s.running with
  | none => exact h.of_eq rfl rfl rfl id
  | some run =>
    refine h.of_eq rfl rfl rfl fun hwaits => ?_
    rw [State.waitFor_flushWaits, hwaits]
    rfl

theorem Timed.touch (h : Timed s) (quietMs maxWaitMs now : ℤ) :
    Timed (s.touch quietMs maxWaitMs now) := by
  unfold State.touch
  split
  · exact h
  · have hlive := Bool.eq_false_iff.mpr ‹_›
    have hmarked :
        Ticking { s with dirtySince := some (s.dirtySince.getD now), touches := s.touches + 1 } :=
      ⟨h.clock, h.disposed⟩
    exact hmarked.schedule hlive _

theorem Timed.abandon (h : Timed s) : Timed s.abandon :=
  Timed.abandonFrom ⟨⟨h.toTicking.dispose.clock, h.toTicking.dispose.disposed⟩, fun hd =>
    nomatch hd⟩

theorem Timed.finish (h : Timed s) (run : ℕ) (ok : Bool) : Timed (s.finish run ok) := by
  unfold State.finish
  split
  · refine h.of_eq rfl rfl rfl fun hwaits => ?_
    have hpush := State.flushWaits_push { s with
      inFlight := s.inFlight.erase run
      saved := if ok then max s.saved (s.starts.getD run 0) else s.saved } (.cleared run ok)
    exact hpush.trans ((Bool.or_false _).trans hwaits)
  · exact h

theorem Timed.act (h : Timed s) {j : Job} {js : List Job} (hjobs : s.jobs = j :: js)
    (maxWaitMs : ℤ) :
    Timed (j.act maxWaitMs { s with jobs := js }) := by
  have hpop := State.flushWaits_pop hjobs
  have hticking : Ticking { s with jobs := js } := ⟨h.clock, h.disposed⟩
  have hnot (hwaiting : j.waiting = false) : Timed { s with jobs := js } := by
    refine h.of_eq rfl rfl rfl fun hwaits => ?_
    rwa [hpop, hwaiting, Bool.false_or] at hwaits
  cases j with
  | cleared run ok =>
    refine (hnot rfl).of_eq rfl rfl rfl fun hwaits => ?_
    simp only [State.flushWaits, Job.act, List.any_append, Bool.or_eq_true] at hwaits ⊢
    exact hwaits.imp id .inl
  | handedOn => exact hnot rfl
  | followed run ok =>
    refine (hnot rfl).of_eq rfl rfl rfl fun hwaits => ?_
    rw [Job.act, State.flushWaits_push, hwaits]
    rfl
  | settled run ok =>
    refine (hnot rfl).of_eq rfl rfl rfl fun hwaits => ?_
    have hall := any_settled run ok (Reaction.job_waiting run ok) s.reactions
    simp only [State.flushWaits, Job.act, List.any_append, ← hall, Bool.or_eq_true] at hwaits ⊢
    tauto
  | resumed run ok asked since =>
    cases ok with
    | true => exact (hnot rfl).of_eq rfl rfl rfl id
    | false => exact hticking.putBack maxWaitMs since
  | caught c =>
    refine h.of_eq rfl rfl rfl fun hwaits => ?_
    rw [Job.act, State.flushWaits_push]
    rw [hpop, Bool.or_comm] at hwaits
    cases c with
    | flush asked => exact hwaits
    | abandon => exact hwaits
  | looks c =>
    cases c with
    | flush asked => exact hticking.flushFrom asked
    | abandon => exact (hnot rfl).abandonFrom

theorem Timed.step (h : Timed s) (quietMs maxWaitMs : ℤ) (e : Event) :
    Timed (step quietMs maxWaitMs s e) := by
  cases e with
  | touch now => exact h.touch quietMs maxWaitMs now
  | flush => exact h.toTicking.cancel.flushFrom s.touches
  | dispose => exact h.toTicking.dispose
  | abandon => exact h.abandon
  | fire handle =>
    unfold Autosave.step
    dsimp only
    split
    · exact Ticking.flushFrom (h.toTicking.fire (by simp_all)).cancel _
    · exact h
  | finish run ok => exact h.finish run ok
  | next =>
    unfold Autosave.step
    cases hjobs : s.jobs with
    | nil => exact h
    | cons j js => exact h.act hjobs maxWaitMs

theorem timed_run (quietMs maxWaitMs : ℤ) (es : List Event) :
    Timed (Machine.run (step quietMs maxWaitMs) .fresh es) :=
  Machine.Reachable.invariant ⟨es, rfl⟩ ⟨⟨rfl, fun hd => nomatch hd⟩, fun _ hs => nomatch hs⟩
    fun _ e h => Timed.step h quietMs maxWaitMs e

end Pending

end Dmcn.Autosave
