import Mathlib.Data.List.Sort
import OpenDmcn.Lib.Run

/-! The backfill of the search index (`lib/search/backfill.ts`): one pass at a time plans from the
last candidates, and its two workers fetch and index what the index lacks. Every await is a step of
its own. -/

namespace Dmcn.Backfill

structure Candidate where
  hash : String
  sentAt : ℤ
  blocked : Bool
  deriving DecidableEq

structure Plan where
  fetch : List String
  remove : List String

def planPass (candidates : List Candidate) (has : String → Bool) (indexed : Option (List String)) :
    Plan :=
  let keep := candidates.filter (!·.blocked)
  let fetch := (keep.filter (!has ·.hash)).insertionSort (fun a b => b.sentAt ≤ a.sentAt)
  { fetch := fetch.map (·.hash)
    remove := (indexed.getD []).filter fun h => decide (h ∉ keep.map (·.hash)) }

def concurrency : ℕ := 2
def flushEvery : ℕ := 200
def flushAfterMs : ℤ := 20000
def maxFailures : ℕ := 3
def failureStreak : ℕ := 5

inductive Worker where
  | fetching (hash : String)
  | adding (hash : String)
  | flushing
  | done
  deriving DecidableEq

inductive Main where
  | idle
  | removing (plan : Plan)
  | working
  | flushing
  | compacting
  -- The pass is over, and the loop has yet to go on.
  | passed (ok : Bool)
  -- The loop is over, and the callback of its `finally` has yet to run.
  | ending

structure State where
  candidates : List Candidate
  complete : Bool
  running : Bool
  kicked : Bool
  stopped : Bool
  failures : String → ℕ
  main : Main
  -- The variables of the pass.
  queue : List String
  workers : List Worker
  sinceFlush : ℕ
  lastFlush : ℤ
  streak : ℕ
  gaveUp : Bool
  -- The messages that the index has, `deps.runnable()` and the clock.
  indexed : List String
  runnable : Bool
  now : ℤ

def State.fresh (indexed : List String) : State where
  candidates := []
  complete := false
  running := false
  kicked := false
  stopped := false
  failures := fun _ => 0
  main := .idle
  queue := []
  workers := []
  sinceFlush := 0
  lastFlush := 0
  streak := 0
  gaveUp := false
  indexed := indexed
  runnable := true
  now := 0

namespace State

def plan (s : State) : Plan :=
  planPass s.candidates (fun h => decide (h ∈ s.indexed))
    (if s.complete then some s.indexed else none)

def go (s : State) : Bool := !s.stopped && !s.kicked && !s.gaveUp && s.runnable

def turn (s : State) : State × Worker :=
  match s.queue with
  | [] => (s, .done)
  | hash :: rest => if s.go then ({ s with queue := rest }, .fetching hash) else (s, .done)

def spawn (s : State) : ℕ → State
  | 0 => s
  | n + 1 => spawn { s.turn.1 with workers := s.turn.1.workers ++ [s.turn.2] } n

def work (s : State) (fetch : List String) : State :=
  { s with
    main := .working
    queue := fetch.filter fun h => s.failures h < maxFailures
    workers := []
    sinceFlush := 0
    lastFlush := s.now
    streak := 0
    gaveUp := false }.spawn concurrency

def pass (s : State) : State :=
  if s.plan.remove = [] then s.work s.plan.fetch else { s with main := .removing s.plan }

def loop (s : State) : State := { s with kicked := false }.pass

def kick (s : State) : State :=
  if s.stopped then s
  else if s.running then { s with kicked := true }
  else { s with running := true }.loop

def update (s : State) (candidates : List Candidate) (complete : Bool) : State :=
  { s with candidates := candidates, complete := complete }.kick

def startFlush (s : State) : State := { s with sinceFlush := 0, lastFlush := s.now }

def afterMessage (s : State) : State × Worker :=
  if flushEvery ≤ s.sinceFlush ∨ 0 < s.sinceFlush ∧ flushAfterMs ≤ s.now - s.lastFlush
    then (s.startFlush, .flushing)
  else s.turn

def fail (s : State) (hash : String) : State :=
  { s with
    failures := Function.update s.failures hash (s.failures hash + 1)
    streak := s.streak + 1
    gaveUp := s.gaveUp || decide (failureStreak ≤ s.streak + 1) }

def set (next : State × Worker) (i : ℕ) : State :=
  { next.1 with workers := next.1.workers.set i next.2 }

def finish (s : State) (wants : Bool) : State :=
  if s.gaveUp then { s with main := .passed true }
  else if !s.stopped && !s.kicked && wants && s.runnable then { s with main := .compacting }
  else { s with main := .passed true }

end State

namespace State

def removed (s : State) : State :=
  match s.main with
  | .removing plan => { s with indexed := s.indexed.filter (· ∉ plan.remove) }.work plan.fetch
  | _ => s

def fetched (s : State) (i : ℕ) (ok : Bool) : State :=
  match s.main, s.workers[i]? with
  | .working, some (.fetching hash) =>
    if ok then { s with workers := s.workers.set i (.adding hash) }
      else set (s.fail hash).afterMessage i
  | _, _ => s

def grow (s : State) (hash : String) : State :=
  { s with
    indexed := if hash ∈ s.indexed then s.indexed else s.indexed ++ [hash]
    streak := 0
    sinceFlush := s.sinceFlush + 1 }

def added (s : State) (i : ℕ) (ok : Bool) : State :=
  match s.main, s.workers[i]? with
  | .working, some (.adding hash) =>
    if ok then set (s.grow hash).afterMessage i else set (s.fail hash).afterMessage i
  | _, _ => s

def flushed (s : State) (i : ℕ) : State :=
  match s.main, s.workers[i]? with
  | .working, some .flushing => set s.turn i
  | _, _ => s

def joined (s : State) (pending wants : Bool) : State :=
  match s.main with
  | .working =>
    if s.workers.all (· = .done) then
      if pending then { s.startFlush with main := .flushing } else s.finish wants
    else s
  | _ => s

def written (s : State) (wants : Bool) : State :=
  match s.main with
  | .flushing => s.finish wants
  | _ => s

def compacted (s : State) (ok : Bool) : State :=
  match s.main with
  | .compacting => { s with main := .passed ok }
  | _ => s

def looped (s : State) : State :=
  match s.main with
  | .passed true => if s.kicked && !s.stopped then s.loop else { s with main := .ending }
  | .passed false => { s with main := .ending }
  | _ => s

def cleared (s : State) : State :=
  match s.main with
  | .ending => { s with main := .idle, running := false }
  | _ => s

end State

/-- What can happen next; `i` is a worker, and what is awaited of the index comes with what the pass
reads of it. Calls of `remove` and `flush` end well. -/
inductive Event where
  | update (candidates : List Candidate) (complete : Bool)
  | kick
  | stop
  | removed
  | fetched (i : ℕ) (ok : Bool)
  | added (i : ℕ) (ok : Bool)
  | flushed (i : ℕ)
  | joined (pending wants : Bool)
  | written (wants : Bool)
  | compacted (ok : Bool)
  | looped
  | cleared
  | turnRunnable (runnable : Bool)
  | tick (now : ℤ)

def step (s : State) : Event → State
  | .update candidates complete => s.update candidates complete
  | .kick => s.kick
  | .stop => { s with stopped := true }
  | .removed => s.removed
  | .fetched i ok => s.fetched i ok
  | .added i ok => s.added i ok
  | .flushed i => s.flushed i
  | .joined pending wants => s.joined pending wants
  | .written wants => s.written wants
  | .compacted ok => s.compacted ok
  | .looped => s.looped
  | .cleared => s.cleared
  | .turnRunnable runnable => { s with runnable := runnable }
  | .tick now => { s with now := now }

section Claims

/-- What the claim is about: nothing fails but a compaction, `runnable()` is true and nobody stops
the backfill. -/
def Event.Calm : Event → Prop
  | .fetched _ ok | .added _ ok => ok = true
  | .turnRunnable runnable => runnable = true
  | .stop => False
  | _ => True

/-- Every candidate that is not blocked is indexed or among `rest`; if the candidates are complete,
nothing else is. -/
structure State.Covers (s : State) (rest : List String) : Prop where
  wanted : ∀ c ∈ s.candidates, c.blocked = false → c.hash ∈ s.indexed ∨ c.hash ∈ rest
  only : s.complete = true → ∀ h, h ∈ s.indexed ∨ h ∈ rest → ∃ c ∈ s.candidates, c.blocked = false ∧
    c.hash = h

/-- While no pass is running and no kick is left, the index is level with the candidates. -/
def State.Level (s : State) : Prop := s.running = false → s.kicked = false → s.Covers []

def State.Unlost (s : State) : Prop :=
  match s.main with
  | .ending | .idle => s.kicked = false
  | _ => True

/-- No kick comes after the last look at `kicked` and before the callback of `finally`, or in a pass
that fails. -/
def Served (s : State) : Event → Prop
  | .update _ _ | .kick =>
    match s.main with
    | .ending => False
    | _ => True
  | .looped =>
    match s.main with
    | .passed false => s.kicked = false
    | _ => True
  | _ => True

end Claims

section Plan

theorem mem_fetch {candidates : List Candidate} {has : String → Bool}
    {indexed : Option (List String)} {h : String} :
    h ∈ (planPass candidates has indexed).fetch ↔
      ∃ c ∈ candidates, c.blocked = false ∧ has c.hash = false ∧ c.hash = h := by
  simp only [planPass, List.mem_map, List.mem_insertionSort, List.mem_filter, Bool.not_eq_true',
    and_assoc]

theorem mem_remove {candidates : List Candidate} {has : String → Bool} {indexed : List String}
    {h : String} :
    h ∈ (planPass candidates has (some indexed)).remove ↔
      h ∈ indexed ∧ ¬ ∃ c ∈ candidates, c.blocked = false ∧ c.hash = h := by
  simp only [planPass, Option.getD_some, List.mem_filter, List.mem_map, Bool.not_eq_true',
    decide_eq_true_eq, and_assoc]

theorem covers_plan {s : State} {indexed : List String}
    (hindexed : ∀ h, h ∈ indexed ↔ h ∈ s.indexed ∧ h ∉ s.plan.remove) :
    { s with indexed := indexed }.Covers s.plan.fetch where
  wanted c hc hblocked := by
    by_cases hmem : c.hash ∈ s.indexed
    · refine .inl ((hindexed c.hash).mpr ⟨hmem, fun hremove => ?_⟩)
      unfold State.plan at hremove
      split at hremove
      · exact (mem_remove.mp hremove).2 ⟨c, hc, hblocked, rfl⟩
      · exact nomatch hremove
    · exact .inr (mem_fetch.mpr ⟨c, hc, hblocked, decide_eq_false hmem, rfl⟩)
  only hcomplete h hh := by
    rcases hh with hmem | hfetch
    · obtain ⟨hold, hkept⟩ := (hindexed h).mp hmem
      unfold State.plan at hkept
      rw [if_pos hcomplete] at hkept
      by_contra hnone
      exact hkept (mem_remove.mpr ⟨hold, hnone⟩)
    · obtain ⟨c, hc, hblocked, -, rfl⟩ := mem_fetch.mp hfetch
      exact ⟨c, hc, hblocked, rfl⟩

end Plan

section Pass

def Worker.hash : Worker → Option String
  | .fetching hash | .adding hash => some hash
  | _ => none

def State.inHand (s : State) : List String := s.queue ++ s.workers.filterMap Worker.hash

/-- Until it is kicked, a pass brings the index level by what it has in hand, and its workers leave
nothing behind. -/
structure Tended (s : State) : Prop where
  covers : s.Covers s.inHand
  done : Worker.done ∈ s.workers → s.queue = []

def SamePass (s t : State) : Prop :=
  t = { s with
    queue := t.queue
    workers := t.workers
    sinceFlush := t.sinceFlush
    lastFlush := t.lastFlush
    streak := t.streak }

theorem SamePass.trans {s t u : State} (h : SamePass s t) (h' : SamePass t u) : SamePass s u := by
  refine Eq.trans h' ?_
  exact congrArg (fun t : State => { t with
    queue := u.queue
    workers := u.workers
    sinceFlush := u.sinceFlush
    lastFlush := u.lastFlush
    streak := u.streak }) h

theorem SamePass.get {α : Type} {s t : State} (h : SamePass s t) (f : State → α)
    (hf : ∀ (s : State) q ws n ms k, f { s with
      queue := q, workers := ws, sinceFlush := n, lastFlush := ms, streak := k } = f s) : f t =
      f s := by
  unfold SamePass at h
  rw [h]
  exact hf ..

variable {s : State}

theorem turn_samePass : SamePass s s.turn.1 := by
  unfold State.turn
  split
  · rfl
  · split <;> rfl

theorem turn_workers : s.turn.1.workers = s.workers := by
  unfold State.turn
  split
  · rfl
  · split <;> rfl

theorem afterMessage_workers : s.afterMessage.1.workers = s.workers := by
  unfold State.afterMessage
  split
  · rfl
  · exact turn_workers

theorem afterMessage_samePass : SamePass s s.afterMessage.1 := by
  unfold State.afterMessage
  split
  · rfl
  · exact turn_samePass

theorem set_samePass {next : State × Worker} (h : SamePass s next.1) (i : ℕ) : SamePass s
    (State.set next i) := by
  have hset : SamePass next.1 (State.set next i) := rfl
  exact h.trans hset

def State.spawnOne (s : State) : State :=
  { s.turn.1 with workers := s.turn.1.workers ++ [s.turn.2] }

theorem spawnOne_samePass : SamePass s s.spawnOne := by
  have hpush : SamePass s.turn.1 s.spawnOne := rfl
  exact turn_samePass.trans hpush

theorem spawn_samePass (n : ℕ) : SamePass s (s.spawn n) := by
  induction n generalizing s with
  | zero => rfl
  | succ n ih => exact spawnOne_samePass.trans ih

theorem spawn_length (n : ℕ) : (s.spawn n).workers.length = s.workers.length + n := by
  induction n generalizing s with
  | zero => rfl
  | succ n ih =>
    have hone : s.spawnOne.workers.length = s.workers.length + 1 := by
      change (s.turn.1.workers ++ [s.turn.2]).length = _
      rw [turn_workers, List.length_append, List.length_singleton]
    calc (s.spawnOne.spawn n).workers.length = s.spawnOne.workers.length + n := ih
      _ = s.workers.length + (n + 1) := by rw [hone, Nat.add_assoc, Nat.add_comm 1]

theorem turn_of_go (hgo : s.go = true) :
    s.queue = s.turn.2.hash.toList ++ s.turn.1.queue ∧
      (s.turn.2 = .done → s.turn.1.queue = []) := by
  unfold State.turn
  split
  next hqueue => exact ⟨rfl, fun _ => hqueue⟩
  next hash rest hqueue =>
    rw [if_pos hgo]
    exact ⟨hqueue, fun h => nomatch h⟩

theorem State.Covers.of_mem {rest rest' : List String} (h : s.Covers rest) {t : State}
    (hcandidates : t.candidates = s.candidates) (hcomplete : t.complete = s.complete)
    (hmem : ∀ x, (x ∈ t.indexed ∨ x ∈ rest') ↔ (x ∈ s.indexed ∨ x ∈ rest)) : t.Covers rest' where
  wanted c hc hblocked := (hmem c.hash).mpr (h.wanted c (hcandidates ▸ hc) hblocked)
  only hall x hx := by
    rw [hcandidates]
    exact h.only (hcomplete ▸ hall) x ((hmem x).mp hx)

theorem Tended.spawnOne (h : Tended s) (hgo : s.go = true) : Tended s.spawnOne := by
  obtain ⟨hqueue, hdone⟩ := turn_of_go hgo
  have hsame : SamePass s s.spawnOne := spawnOne_samePass
  have hworkers : s.spawnOne.workers = s.workers ++ [s.turn.2] :=
    congrArg (· ++ [s.turn.2]) turn_workers
  constructor
  · refine h.covers.of_mem (hsame.get State.candidates fun _ _ _ _ _ _ => rfl)
      (hsame.get State.complete fun _ _ _ _ _ _ => rfl) fun x => ?_
    have hindexed : s.spawnOne.indexed = s.indexed := hsame.get State.indexed fun _ _ _ _ _ _ => rfl
    have hrest : s.spawnOne.queue = s.turn.1.queue := rfl
    unfold State.inHand
    rw [hindexed, hrest, hworkers, hqueue, List.filterMap_append]
    have hlast : [s.turn.2].filterMap Worker.hash = s.turn.2.hash.toList := by
      cases hhash : s.turn.2.hash with
      | none => exact List.filterMap_cons_none hhash
      | some hash => exact List.filterMap_cons_some hhash
    simp only [hlast, List.mem_append]
    tauto
  · intro hmem
    rw [hworkers] at hmem
    rcases List.mem_append.mp hmem with hold | hnew
    · have hnil := h.done hold
      rw [hqueue] at hnil
      exact (List.append_eq_nil_iff.mp hnil).2
    · exact hdone (List.mem_singleton.mp hnew).symm

theorem Tended.spawn (h : Tended s) (hgo : s.go = true) (n : ℕ) : Tended (s.spawn n) := by
  induction n generalizing s with
  | zero => exact h
  | succ n ih =>
    have hgo' : s.spawnOne.go = s.go := spawnOne_samePass.get State.go fun _ _ _ _ _ _ => rfl
    exact ih (h.spawnOne hgo) (hgo'.trans hgo)

theorem Tended.set (h : Tended s) {i : ℕ} {w v : Worker} (hi : s.workers[i]? = some w) {t : State}
    (hsame : SamePass s t) (hworkers : t.workers = s.workers.set i v)
    (hold : ∀ x, w.hash = some x → x ∈ s.indexed ∨ v.hash = some x)
    (hqueue : ∀ x, x ∈ s.queue → x ∈ t.queue ∨ v.hash = some x)
    (hnew : ∀ x, x ∈ t.queue ∨ v.hash = some x → x ∈ s.queue ∨ w.hash = some x)
    (hdone : s.queue = [] ∨ v = .done → t.queue = []) : Tended t := by
  have hw : w ∈ s.workers := List.mem_of_getElem? hi
  have hlt : i < s.workers.length := (List.getElem?_eq_some_iff.mp hi).1
  have hv : v ∈ t.workers := hworkers ▸ List.mem_set hlt v
  have hindexed : t.indexed = s.indexed := hsame.get State.indexed fun _ _ _ _ _ _ => rfl
  constructor
  · refine h.covers.of_mem (hsame.get State.candidates fun _ _ _ _ _ _ => rfl)
      (hsame.get State.complete fun _ _ _ _ _ _ => rfl) fun x => ?_
    simp only [State.inHand, hindexed, hworkers, List.mem_append, List.mem_filterMap]
    constructor
    · rintro (hx | hx | ⟨u, hu, hx⟩)
      · exact .inl hx
      · exact .inr ((hnew x (.inl hx)).imp id fun hw' => ⟨w, hw, hw'⟩)
      · rcases List.mem_or_eq_of_mem_set hu with hu | rfl
        · exact .inr (.inr ⟨u, hu, hx⟩)
        · exact .inr ((hnew x (.inr hx)).imp id fun hw' => ⟨w, hw, hw'⟩)
    · rintro (hx | hx | ⟨u, hu, hx⟩)
      · exact .inl hx
      · exact .inr ((hqueue x hx).imp id fun hv' => ⟨v, hworkers ▸ hv, hv'⟩)
      · obtain ⟨j, hj⟩ := List.mem_iff_getElem?.mp hu
        by_cases hij : i = j
        · subst hij
          obtain rfl : w = u := Option.some.inj (hi.symm.trans hj)
          exact (hold x hx).imp id fun hv' => .inr ⟨v, hworkers ▸ hv, hv'⟩
        · exact .inr
            (.inr ⟨u, List.mem_iff_getElem?.mpr ⟨j, (List.getElem?_set_ne hij).trans hj⟩, hx⟩)
  · intro hmem
    rw [hworkers] at hmem
    rcases List.mem_or_eq_of_mem_set hmem with hmem | rfl
    · exact hdone (.inl (h.done hmem))
    · exact hdone (.inr rfl)

theorem Tended.turn (h : Tended s) (hgo : s.go = true) {i : ℕ} {w : Worker}
    (hi : s.workers[i]? = some w) (hw : ∀ x, w.hash = some x → x ∈ s.indexed) :
    Tended (State.set s.turn i) := by
  obtain ⟨hqueue, hdone⟩ := turn_of_go hgo
  refine h.set hi (set_samePass turn_samePass i) (congrArg (·.set i s.turn.2) turn_workers) ?_ ?_ ?_
    ?_
  · exact fun x hx => .inl (hw x hx)
  · intro x hx
    rw [hqueue] at hx
    rcases List.mem_append.mp hx with hx | hx
    · exact .inr (Option.mem_toList.mp hx)
    · exact .inl hx
  · intro x hx
    refine .inl ?_
    rw [hqueue]
    rcases hx with hx | hx
    · exact List.mem_append_right _ hx
    · exact List.mem_append_left _ (Option.mem_toList.mpr hx)
  · rintro (hnil | hlast)
    · rw [hqueue] at hnil
      exact (List.append_eq_nil_iff.mp hnil).2
    · exact hdone hlast

theorem Tended.afterMessage (h : Tended s) (hgo : s.go = true) {i : ℕ} {w : Worker}
    (hi : s.workers[i]? = some w) (hw : ∀ x, w.hash = some x → x ∈ s.indexed) :
    Tended (State.set s.afterMessage i) := by
  unfold State.afterMessage
  split
  · refine h.set hi (v := .flushing) rfl rfl (fun x hx => .inl (hw x hx)) (fun x hx => .inl hx) ?_
      ?_
    · rintro x (hx | hx)
      · exact .inl hx
      · exact nomatch hx
    · rintro (hnil | hlast)
      · exact hnil
      · exact nomatch hlast
  · exact h.turn hgo hi hw

end Pass

section Invariant

structure Steady (s : State) : Prop where
  unfailed : ∀ hash, s.failures hash = 0
  live : s.stopped = false
  runnable : s.runnable = true
  going : s.gaveUp = false

def State.OnCourse (s : State) : Prop :=
  match s.main with
  | .removing plan => plan = s.plan
  | .working => Tended s
  | _ => s.Covers []

structure Sound (s : State) : Prop extends Steady s where
  running : match s.main with
    | .idle => s.running = false
    | _ => s.running = true
  staffed : match s.main with
    | .working => s.workers ≠ []
    | _ => True
  covered : s.kicked = false → s.OnCourse

variable {s : State}

theorem Steady.go (h : Steady s) (hkicked : s.kicked = false) : s.go = true := by
  unfold State.go
  rw [h.live, hkicked, h.going, h.runnable]
  rfl

theorem Steady.samePass (h : Steady s) {t : State} (hsame : SamePass s t) : Steady t where
  unfailed hash := by
    rw [hsame.get State.failures fun _ _ _ _ _ _ => rfl]
    exact h.unfailed hash
  live := (hsame.get State.stopped fun _ _ _ _ _ _ => rfl).trans h.live
  runnable := (hsame.get State.runnable fun _ _ _ _ _ _ => rfl).trans h.runnable
  going := (hsame.get State.gaveUp fun _ _ _ _ _ _ => rfl).trans h.going

theorem Sound.samePass (h : Sound s) (hmain : s.main = .working) {t : State} (hsame : SamePass s t)
    (hworkers : t.workers ≠ []) (htended : s.kicked = false → Tended t) : Sound t where
  toSteady := h.toSteady.samePass hsame
  running := by
    have hrun := h.running
    rw [hmain] at hrun
    rw [hsame.get State.main fun _ _ _ _ _ _ => rfl, hmain]
    exact (hsame.get State.running fun _ _ _ _ _ _ => rfl).trans hrun
  staffed := by
    rw [hsame.get State.main fun _ _ _ _ _ _ => rfl, hmain]
    exact hworkers
  covered hkicked := by
    rw [hsame.get State.kicked fun _ _ _ _ _ _ => rfl] at hkicked
    unfold State.OnCourse
    rw [hsame.get State.main fun _ _ _ _ _ _ => rfl, hmain]
    exact htended hkicked

theorem Steady.work (h : Steady s) (hrun : s.running = true) {fetch : List String}
    (hcovers : s.kicked = false → s.Covers fetch) : Sound (s.work fetch) := by
  have hqueue : (fetch.filter fun hash => s.failures hash < maxFailures) = fetch := by
    refine List.filter_eq_self.mpr fun hash _ => decide_eq_true ?_
    rw [h.unfailed hash]
    decide
  unfold State.work
  rw [hqueue]
  set base : State := { s with
    main := .working, queue := fetch, workers := [], sinceFlush := 0, lastFlush := s.now, streak :=
      0, gaveUp := false }
  have hsteady : Steady base := ⟨h.unfailed, h.live, h.runnable, rfl⟩
  have hsame : SamePass base (base.spawn concurrency) := spawn_samePass concurrency
  have hmain : (base.spawn concurrency).main = .working := hsame.get State.main fun _ _ _ _ _ _ =>
    rfl
  refine ⟨hsteady.samePass hsame, ?_, ?_, fun hkicked => ?_⟩
  · rw [hmain]
    exact (hsame.get State.running fun _ _ _ _ _ _ => rfl).trans hrun
  · rw [hmain]
    intro hnil
    have hlength : (base.spawn concurrency).workers.length = 0 + concurrency :=
      spawn_length concurrency
    rw [hnil] at hlength
    exact absurd hlength (by decide)
  · rw [hsame.get State.kicked fun _ _ _ _ _ _ => rfl] at hkicked
    unfold State.OnCourse
    rw [hmain]
    have htended : Tended base := by
      refine ⟨(hcovers hkicked).of_mem rfl rfl fun x => ?_, fun hmem =>
        absurd hmem List.not_mem_nil⟩
      have hhand : base.inHand = fetch := List.append_nil _
      rw [hhand]
    exact htended.spawn (hsteady.go hkicked) concurrency

theorem Steady.loop (h : Steady s) (hrun : s.running = true) : Sound s.loop := by
  have hsteady : Steady { s with kicked := false } := ⟨h.unfailed, h.live, h.runnable, h.going⟩
  unfold State.loop State.pass
  split
  next hremove =>
    refine hsteady.work hrun fun _ => ?_
    exact covers_plan (s := { s with kicked := false }) fun x => by rw [hremove]; simp
  next => exact ⟨⟨h.unfailed, h.live, h.runnable, h.going⟩, hrun, trivial, fun _ => rfl⟩

theorem Steady.kick (h : Steady s)
    (hrunning : match s.main with | .idle => s.running = false | _ => s.running = true)
    (hstaffed : match s.main with | .working => s.workers ≠ [] | _ => True) : Sound s.kick := by
  unfold State.kick
  split
  next hstop => exact absurd (h.live.symm.trans hstop) Bool.false_ne_true
  next =>
    split
    next =>
      exact ⟨⟨h.unfailed, h.live, h.runnable, h.going⟩, hrunning, hstaffed,
        fun hkicked => nomatch hkicked⟩
    next => exact Steady.loop ⟨h.unfailed, h.live, h.runnable, h.going⟩ rfl

theorem Steady.over (h : Steady s) (hrun : s.running = true)
    (hcovers : s.kicked = false → s.Covers []) {main : Main}
    (hmain : match main with
      | .flushing | .compacting | .passed _ | .ending => True
      | _ => False) :
    Sound { s with main := main } := by
  cases main with
  | idle | removing plan | working => exact hmain.elim
  | flushing | compacting | passed ok | ending =>
    refine ⟨⟨h.unfailed, h.live, h.runnable, h.going⟩, hrun, trivial, fun hkicked => ?_⟩
    exact ⟨(hcovers hkicked).wanted, (hcovers hkicked).only⟩

theorem Steady.finish (h : Steady s) (hrun : s.running = true)
    (hcovers : s.kicked = false → s.Covers []) (wants : Bool) : Sound (s.finish wants) := by
  unfold State.finish
  split
  · exact h.over hrun hcovers trivial
  · split
    · exact h.over hrun hcovers trivial
    · exact h.over hrun hcovers trivial

theorem Tended.covers_of_done (h : Tended s) (hworkers : s.workers ≠ [])
    (hall : ∀ w ∈ s.workers, w = .done) :
    s.Covers [] := by
  have hdone : Worker.done ∈ s.workers := by
    obtain ⟨w, hw⟩ := List.exists_mem_of_ne_nil _ hworkers
    exact hall w hw ▸ hw
  have hhand : s.inHand = [] := by
    unfold State.inHand
    rw [h.done hdone]
    refine List.filterMap_eq_nil_iff.mpr fun w hw => ?_
    rw [hall w hw]
    rfl
  exact hhand ▸ h.covers

theorem Sound.running_of (h : Sound s) {main : Main} (hmain : s.main = main)
    (hbusy : match main with | .idle => False | _ => True) : s.running = true := by
  have hrun := h.running
  rw [hmain] at hrun
  cases main with
  | idle => exact hbusy.elim
  | removing plan | working | flushing | compacting | passed ok | ending => exact hrun

theorem Sound.tended (h : Sound s) (hmain : s.main = .working) (hkicked : s.kicked = false) :
    Tended s := by
  have hcourse := h.covered hkicked
  unfold State.OnCourse at hcourse
  rwa [hmain] at hcourse

theorem Sound.workers_ne (h : Sound s) (hmain : s.main = .working) : s.workers ≠ [] := by
  have hstaffed := h.staffed
  rwa [hmain] at hstaffed

theorem set_ne_nil {ws : List Worker} (h : ws ≠ []) (i : ℕ) (w : Worker) : ws.set i w ≠ [] := by
  intro hnil
  have hlength := congrArg List.length hnil
  rw [List.length_set] at hlength
  exact h (List.length_eq_zero_iff.mp hlength)

theorem Sound.covers (h : Sound s) {main : Main} (hmain : s.main = main)
    (hover : match main with | .removing _ | .working => False | _ => True)
    (hkicked : s.kicked = false) :
    s.Covers [] := by
  have hcourse := h.covered hkicked
  unfold State.OnCourse at hcourse
  rw [hmain] at hcourse
  cases main with
  | removing plan | working => exact hover.elim
  | idle | flushing | compacting | passed ok | ending => exact hcourse

theorem Sound.removed (h : Sound s) : Sound s.removed := by
  unfold State.removed
  split
  next plan hmain =>
    have hsteady : Steady { s with indexed := s.indexed.filter (· ∉ plan.remove) } :=
      ⟨h.unfailed, h.live, h.runnable, h.going⟩
    refine hsteady.work (h.running_of hmain trivial) fun hkicked => ?_
    have hplan := h.covered hkicked
    unfold State.OnCourse at hplan
    rw [hmain] at hplan
    subst hplan
    exact covers_plan fun x => by simp
  next => exact h

theorem Sound.fetched (h : Sound s) (i : ℕ) : Sound (s.fetched i true) := by
  unfold State.fetched
  split
  next hash hmain hi =>
    rw [if_pos rfl]
    refine h.samePass hmain rfl (set_ne_nil (h.workers_ne hmain) i _) fun hkicked => ?_
    have htended := h.tended hmain hkicked
    refine htended.set hi rfl rfl (fun x hx => .inr hx) (fun x hx => .inl hx) (fun x hx => hx) ?_
    rintro (hnil | hlast)
    · exact hnil
    · exact nomatch hlast
  next => exact h

theorem mem_grow {hash x : String} : x ∈ (s.grow hash).indexed ↔ x ∈ s.indexed ∨ x = hash := by
  change x ∈ (if hash ∈ s.indexed then s.indexed else s.indexed ++ [hash]) ↔ _
  split
  next hold => exact ⟨.inl, fun hx => hx.elim id fun heq => heq ▸ hold⟩
  next => rw [List.mem_append, List.mem_singleton]

theorem Tended.grow (h : Tended s) {hash : String} (hhand : hash ∈ s.inHand) :
    Tended (s.grow hash) := by
  refine ⟨h.covers.of_mem rfl rfl fun x => ?_, h.done⟩
  have hsame : (s.grow hash).inHand = s.inHand := rfl
  rw [mem_grow, hsame]
  constructor
  · rintro ((hx | rfl) | hx)
    · exact .inl hx
    · exact .inr hhand
    · exact .inr hx
  · exact fun hx => hx.imp .inl id

theorem Sound.added (h : Sound s) (i : ℕ) : Sound (s.added i true) := by
  unfold State.added
  split
  next hash hmain hi =>
    rw [if_pos rfl]
    have hhand : hash ∈ s.inHand :=
      List.mem_append_right _ (List.mem_filterMap.mpr ⟨_, List.mem_of_getElem? hi, rfl⟩)
    have hgrown (hkicked : s.kicked = false) : Tended (s.grow hash) :=
      (h.tended hmain hkicked).grow hhand
    have hmain' : (s.grow hash).main = .working := hmain
    have hsound : Sound (s.grow hash) := by
      refine ⟨⟨h.unfailed, h.live, h.runnable, h.going⟩, h.running, h.staffed, fun hkicked => ?_⟩
      unfold State.OnCourse
      rw [hmain']
      exact hgrown hkicked
    refine hsound.samePass hmain' (set_samePass afterMessage_samePass i) ?_ fun hkicked => ?_
    · change (s.grow hash).afterMessage.1.workers.set i _ ≠ []
      rw [afterMessage_workers]
      exact set_ne_nil (h.workers_ne hmain) i _
    · refine (hgrown hkicked).afterMessage (hsound.go hkicked) hi fun x hx => ?_
      exact mem_grow.mpr (.inr (Option.some.inj hx).symm)
  next => exact h

theorem Sound.flushed (h : Sound s) (i : ℕ) : Sound (s.flushed i) := by
  unfold State.flushed
  split
  next hmain hi =>
    refine h.samePass hmain (set_samePass turn_samePass i) ?_ fun hkicked => ?_
    · change s.turn.1.workers.set i _ ≠ []
      rw [turn_workers]
      exact set_ne_nil (h.workers_ne hmain) i _
    · exact (h.tended hmain hkicked).turn (h.go hkicked) hi fun x hx => nomatch hx
  next => exact h

theorem Sound.joined (h : Sound s) (pending wants : Bool) : Sound (s.joined pending wants) := by
  unfold State.joined
  split
  next hmain =>
    split
    next hall =>
      have hrun := h.running_of hmain trivial
      have hcovers (hkicked : s.kicked = false) : s.Covers [] := by
        refine (h.tended hmain hkicked).covers_of_done (h.workers_ne hmain) fun w hw => ?_
        exact of_decide_eq_true (List.all_eq_true.mp hall w hw)
      split
      · have hsteady : Steady s.startFlush := ⟨h.unfailed, h.live, h.runnable, h.going⟩
        exact hsteady.over hrun (fun hkicked => ⟨(hcovers hkicked).wanted, (hcovers hkicked).only⟩)
          trivial
      · exact h.toSteady.finish hrun hcovers wants
    next => exact h
  next => exact h

theorem Sound.written (h : Sound s) (wants : Bool) : Sound (s.written wants) := by
  unfold State.written
  split
  next hmain => exact h.toSteady.finish (h.running_of hmain trivial) (h.covers hmain trivial) wants
  next => exact h

theorem Sound.compacted (h : Sound s) (ok : Bool) : Sound (s.compacted ok) := by
  unfold State.compacted
  split
  next hmain => exact h.toSteady.over (h.running_of hmain trivial) (h.covers hmain trivial) trivial
  next => exact h

theorem Sound.looped (h : Sound s) : Sound s.looped := by
  unfold State.looped
  split
  next hmain =>
    split
    · exact h.toSteady.loop (h.running_of hmain trivial)
    · exact h.toSteady.over (h.running_of hmain trivial) (h.covers hmain trivial) trivial
  next hmain => exact h.toSteady.over (h.running_of hmain trivial) (h.covers hmain trivial) trivial
  next => exact h

theorem Sound.cleared (h : Sound s) : Sound s.cleared := by
  unfold State.cleared
  split
  next hmain =>
    refine ⟨⟨h.unfailed, h.live, h.runnable, h.going⟩, rfl, trivial, fun hkicked => ?_⟩
    have hcovers := h.covers hmain trivial hkicked
    exact ⟨hcovers.wanted, hcovers.only⟩
  next => exact h

theorem State.OnCourse.outside (h : s.OnCourse) (runnable : Bool) (now : ℤ) :
    { s with runnable := runnable, now := now }.OnCourse := by
  unfold State.OnCourse at h ⊢
  dsimp only
  cases hmain : s.main with
  | removing plan =>
    rw [hmain] at h
    exact h
  | working =>
    rw [hmain] at h
    exact ⟨⟨h.covers.wanted, h.covers.only⟩, h.done⟩
  | idle | flushing | compacting | passed ok | ending =>
    rw [hmain] at h
    exact ⟨h.wanted, h.only⟩

theorem Sound.step (h : Sound s) {e : Event} (hcalm : e.Calm) : Sound (step s e) := by
  cases e with
  | update candidates complete =>
    exact Steady.kick (s := { s with candidates := candidates, complete := complete })
      ⟨h.unfailed, h.live, h.runnable, h.going⟩ h.running h.staffed
  | kick => exact h.toSteady.kick h.running h.staffed
  | stop => exact hcalm.elim
  | removed => exact h.removed
  | fetched i ok =>
    obtain rfl : ok = true := hcalm
    exact h.fetched i
  | added i ok =>
    obtain rfl : ok = true := hcalm
    exact h.added i
  | flushed i => exact h.flushed i
  | joined pending wants => exact h.joined pending wants
  | written wants => exact h.written wants
  | compacted ok => exact h.compacted ok
  | looped => exact h.looped
  | cleared => exact h.cleared
  | turnRunnable runnable =>
    refine ⟨⟨h.unfailed, h.live, hcalm, h.going⟩, h.running, h.staffed, fun hkicked => ?_⟩
    exact (h.covered hkicked).outside runnable s.now
  | tick now =>
    refine ⟨⟨h.unfailed, h.live, h.runnable, h.going⟩, h.running, h.staffed, fun hkicked => ?_⟩
    exact (h.covered hkicked).outside s.runnable now

theorem sound_fresh (indexed : List String) : Sound (.fresh indexed) where
  unfailed _ := rfl
  live := rfl
  runnable := rfl
  going := rfl
  running := rfl
  staffed := trivial
  covered _ := ⟨fun _ hc => absurd hc List.not_mem_nil, fun hcomplete => nomatch hcomplete⟩

theorem Sound.level (h : Sound s) : s.Level := by
  intro hidle hkicked
  cases hmain : s.main with
  | idle => exact h.covers hmain trivial hkicked
  | removing plan | working | flushing | compacting | passed ok | ending =>
    have hrun := h.running_of hmain trivial
    exact absurd (hrun.symm.trans hidle) Bool.noConfusion

end Invariant

section Lost

variable {s : State}

theorem work_main (fetch : List String) : (s.work fetch).main = .working := by
  unfold State.work
  exact (spawn_samePass concurrency).get State.main fun _ _ _ _ _ _ => rfl

theorem unlost_of_working (h : s.main = .working) : s.Unlost := by
  unfold State.Unlost
  rw [h]
  trivial

theorem loop_unlost : s.loop.Unlost := by
  unfold State.loop State.pass
  split
  · exact unlost_of_working (work_main _)
  · trivial

theorem finish_unlost (wants : Bool) : (s.finish wants).Unlost := by
  unfold State.finish
  split
  · trivial
  · split <;> trivial

theorem unlost_kick_iff (hlive : s.stopped = false)
    (hrunning : match s.main with | .idle => s.running = false | _ => s.running = true) :
    s.kick.Unlost ↔ match s.main with | .ending => False | _ => True := by
  unfold State.kick
  rw [if_neg (by rw [hlive]; exact Bool.false_ne_true)]
  cases hmain : s.main with
  | idle =>
    rw [hmain] at hrunning
    rw [if_neg (by rw [hrunning]; exact Bool.false_ne_true)]
    exact iff_of_true loop_unlost trivial
  | removing plan | working | flushing | compacting | passed ok =>
    rw [hmain] at hrunning
    rw [if_pos hrunning]
    refine iff_of_true ?_ trivial
    unfold State.Unlost
    trivial
  | ending =>
    rw [hmain] at hrunning
    rw [if_pos hrunning]
    refine iff_of_false (fun hunlost => ?_) id
    unfold State.Unlost at hunlost
    exact nomatch hunlost

theorem unlost_looped_iff (h : Sound s) (hunlost : s.Unlost) : s.looped.Unlost ↔
    Served s .looped := by
  change s.looped.Unlost ↔ (match s.main with | .passed false => s.kicked = false | _ => True)
  unfold State.looped
  split
  next hmain =>
    rw [hmain]
    refine iff_of_true ?_ trivial
    split
    next => exact loop_unlost
    next hlast =>
      rw [h.live, Bool.not_false, Bool.and_true, Bool.not_eq_true] at hlast
      exact hlast
  next hmain =>
    rw [hmain]
    exact Iff.rfl
  next hfirst hsecond =>
    refine iff_of_true hunlost ?_
    split
    next hmain => exact (hsecond hmain).elim
    next => trivial

theorem unlost_cleared (hunlost : s.Unlost) : s.cleared.Unlost := by
  unfold State.cleared
  split
  next hmain =>
    unfold State.Unlost at hunlost
    rw [hmain] at hunlost
    exact hunlost
  next => exact hunlost

theorem unlost_set {next : State × Worker} (hmain : s.main = .working) (h : SamePass s next.1)
    (i : ℕ) :
    (State.set next i).Unlost := by
  refine unlost_of_working ?_
  exact ((set_samePass h i).get State.main fun _ _ _ _ _ _ => rfl).trans hmain

theorem unlost_step_iff (h : Sound s) {e : Event} (hcalm : e.Calm) (hunlost : s.Unlost) :
    (step s e).Unlost ↔ Served s e := by
  cases e with
  | update candidates complete =>
    exact @unlost_kick_iff { s with candidates := candidates, complete := complete } h.live
      h.running
  | kick => exact unlost_kick_iff h.live h.running
  | stop => exact hcalm.elim
  | looped => exact unlost_looped_iff h hunlost
  | cleared => exact iff_of_true (unlost_cleared hunlost) trivial
  | removed =>
    refine iff_of_true ?_ trivial
    change s.removed.Unlost
    unfold State.removed
    split
    next => exact unlost_of_working (work_main _)
    next => exact hunlost
  | fetched i ok =>
    refine iff_of_true ?_ trivial
    obtain rfl : ok = true := hcalm
    change (s.fetched i true).Unlost
    unfold State.fetched
    split
    next hash hmain hi => exact unlost_of_working hmain
    next => exact hunlost
  | added i ok =>
    refine iff_of_true ?_ trivial
    obtain rfl : ok = true := hcalm
    change (s.added i true).Unlost
    unfold State.added
    split
    next hash hmain hi =>
      have hmain' : (s.grow hash).main = .working := hmain
      exact unlost_set hmain' afterMessage_samePass i
    next => exact hunlost
  | flushed i =>
    refine iff_of_true ?_ trivial
    change (s.flushed i).Unlost
    unfold State.flushed
    split
    next hmain hi => exact unlost_set hmain turn_samePass i
    next => exact hunlost
  | joined pending wants =>
    refine iff_of_true ?_ trivial
    change (s.joined pending wants).Unlost
    unfold State.joined
    split
    next =>
      split
      · split
        · trivial
        · exact finish_unlost wants
      · exact hunlost
    next => exact hunlost
  | written wants =>
    refine iff_of_true ?_ trivial
    change (s.written wants).Unlost
    unfold State.written
    split
    · exact finish_unlost wants
    · exact hunlost
  | compacted ok =>
    refine iff_of_true ?_ trivial
    change (s.compacted ok).Unlost
    unfold State.compacted
    split
    · trivial
    · exact hunlost
  | turnRunnable runnable => exact iff_of_true hunlost trivial
  | tick now => exact iff_of_true hunlost trivial

end Lost

section Converges

/-- What the backfill promises in a state: an index that is level once nothing is left to do, and no
lost kick. -/
def State.Converging (s : State) : Prop := s.Level ∧ s.Unlost

/-- In every calm run the index is level whenever no pass is running and no kick is left, and no
kick is lost exactly when none comes between the last look of a loop and its `finally`, or before
the end of a pass that fails. -/
theorem backfill_converges (indexed : List String) (es : List Event) (hcalm : ∀ e ∈ es, e.Calm) :
    Machine.Throughout step State.Level (.fresh indexed) es ∧
      (Machine.Throughout step State.Converging (.fresh indexed) es ↔
        Machine.Along step Served (.fresh indexed) es) := by
  have hcalms : Machine.Along step (fun _ e => e.Calm) (.fresh indexed) es :=
    Machine.along_of_mem fun e he _ => hcalm e he
  have hsound : Machine.Throughout step Sound (.fresh indexed) es :=
    Machine.throughout_of_along (sound_fresh indexed) (fun _ _ h he => h.step he) hcalms
  refine ⟨hsound.imp fun _ h => h.level, ?_⟩
  have hboth : Machine.Along step (fun s e => Sound s ∧ e.Calm) (.fresh indexed) es :=
    Machine.Along.and (Machine.Along.of_throughout hsound fun _ _ h => h) hcalms
  refine Machine.throughout_iff_along_of_steps hboth ⟨(sound_fresh indexed).level, rfl⟩ ?_
  rintro s e ⟨hs, he⟩ ⟨-, hunlost⟩
  rw [← unlost_step_iff hs he hunlost]
  exact and_iff_right (hs.step he).level

instance : (e : Event) → Decidable e.Calm
  | .fetched _ ok | .added _ ok => inferInstanceAs (Decidable (ok = true))
  | .turnRunnable runnable => inferInstanceAs (Decidable (runnable = true))
  | .stop => isFalse id
  | .update .. | .kick | .removed | .flushed _ | .joined .. | .written _ | .compacted _ | .looped
  | .cleared
  | .tick _ => isTrue trivial

def hello : Candidate := ⟨"a1", 1, false⟩

/-- A message is indexed and then blocked while the pass compacts; the loop takes another turn and
removes it. -/
def blockedLater : List Event :=
  [.update [hello] true, .removed, .fetched 0 true, .added 0 true, .joined true false,
    .written true, .update [{ hello with blocked := true }] true, .compacted true, .looped,
      .removed, .joined true false,
    .written false, .looped, .cleared]

theorem backfill_converges_blocked :
    Machine.Throughout step State.Level (.fresh ["b2"]) blockedLater ∧
      (Machine.Throughout step State.Converging (.fresh ["b2"]) blockedLater ↔
        Machine.Along step Served (.fresh ["b2"]) blockedLater) ∧
      (Machine.run step (.fresh ["b2"]) (blockedLater.take 6)).indexed = ["a1"] ∧
      (Machine.run step (.fresh ["b2"]) blockedLater).indexed = [] ∧
      (Machine.run step (.fresh ["b2"]) blockedLater).running = false := by
  have h := backfill_converges ["b2"] blockedLater (by decide)
  exact ⟨h.1, h.2, by decide, by decide, by decide⟩

def lateMail : List Event :=
  [.update [] true, .joined false false, .looped, .update [hello] true, .cleared]

def failedPass : List Event :=
  [.update [] true, .joined false true, .update [hello] true, .compacted false, .looped, .cleared]

structure LosesKick (es : List Event) : Prop where
  calm : ∀ e ∈ es, e.Calm
  lost : ¬ Machine.Throughout step State.Converging (.fresh []) es
  stopped : (Machine.run step (.fresh []) es).running = false
  candidates : (Machine.run step (.fresh []) es).candidates = [hello]
  unindexed : (Machine.run step (.fresh []) es).indexed = []

theorem backfill_loses_kicks : LosesKick lateMail ∧ LosesKick failedPass := by
  have hlost (es : List Event) (hmain : (Machine.run step (.fresh []) es).Unlost → False) :
      ¬ Machine.Throughout step State.Converging (.fresh []) es := fun h => hmain h.last.2
  constructor
  · refine ⟨by decide, hlost _ fun h => ?_, rfl, rfl, rfl⟩
    exact absurd (show true = false from h) (by decide)
  · refine ⟨by decide, hlost _ fun h => ?_, rfl, rfl, rfl⟩
    exact absurd (show true = false from h) (by decide)

end Converges

end Dmcn.Backfill
