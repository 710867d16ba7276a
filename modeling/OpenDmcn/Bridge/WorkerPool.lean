import Mathlib.Data.List.AList
import OpenDmcn.Lib.Run

/-! The pool of domain workers (`bridge/bridge.go`). `enqueue` and a worker that decides to stop
hold the pool's lock; taking a job off a queue and handling it do not, and the goroutines of the
workers interleave with `enqueue` at will. -/

namespace Dmcn.Bridge

def outboundWorkers : ℕ := 8

def domainQueueSize : ℕ := 32

variable {Job : Type}

structure DomainWorker (Job : Type) where
  domain : String
  jobs : List Job

/-- Where `runWorker` stands: before its `select`, in `handleJob`, before it takes the lock, before
`nudge`. -/
inductive Phase (Job : Type) where
  | select
  | handling (job : Job)
  | deciding
  | leaving
  | returned

structure Goroutine (Job : Type) where
  worker : ℕ
  phase : Phase Job

def Phase.inLoop : Phase Job → Bool
  | select => true
  | handling _ => true
  | deciding => true
  | leaving => false
  | returned => false

/-- The pool, its workers and their goroutines; with the jobs for which `enqueue` returned true and
those that were handed to `handleJob`, under the domains they were queued for. -/
structure PoolRun (Job : Type) where
  active : AList fun _ : String => ℕ
  idle : List ℕ
  workers : ℕ → DomainWorker Job
  goroutines : List (Goroutine Job)
  wake : Bool
  accepted : List (String × Job)
  handled : List (String × Job)

def newWorkerPool : PoolRun Job where
  active := ∅
  idle := List.range outboundWorkers
  workers := fun _ => ⟨"", []⟩
  goroutines := []
  wake := false
  accepted := []
  handled := []

namespace PoolRun

def hasRoom (s : PoolRun Job) (domain : String) : Bool :=
  match s.active.lookup domain with
  | some w => (s.workers w).jobs.length < domainQueueSize
  | none => s.idle.length > 0

def send (s : PoolRun Job) (w : ℕ) (job : Job) : PoolRun Job × Bool :=
  if (s.workers w).jobs.length < domainQueueSize then
    ({ s with workers :=
      Function.update s.workers w ⟨(s.workers w).domain, (s.workers w).jobs ++ [job]⟩ }, true)
  else (s, false)

def start (s : PoolRun Job) (w : ℕ) (domain : String) : PoolRun Job :=
  { s with
    idle := s.idle.dropLast
    workers := Function.update s.workers w ⟨domain, (s.workers w).jobs⟩
    active := s.active.insert domain w
    goroutines := s.goroutines ++ [⟨w, .select⟩] }

def enqueue (s : PoolRun Job) (domain : String) (job : Job) : PoolRun Job × Bool :=
  match s.active.lookup domain with
  | some w => s.send w job
  | none =>
    match s.idle.getLast? with
    | none => (s, false)
    | some w => (s.start w domain).send w job

def setPhase (s : PoolRun Job) (i w : ℕ) (phase : Phase Job) : PoolRun Job :=
  { s with goroutines := s.goroutines.set i ⟨w, phase⟩ }

def take (s : PoolRun Job) (i w : ℕ) (job : Job) (rest : List Job) : PoolRun Job :=
  { s.setPhase i w (.handling job) with
    workers := Function.update s.workers w ⟨(s.workers w).domain, rest⟩
    handled := s.handled ++ [((s.workers w).domain, job)] }

def stop (s : PoolRun Job) (i w : ℕ) : PoolRun Job :=
  { s.setPhase i w .leaving with
    active := s.active.erase (s.workers w).domain
    workers := Function.update s.workers w ⟨"", (s.workers w).jobs⟩
    idle := s.idle ++ [w] }

def runWorker (s : PoolRun Job) (i : ℕ) : PoolRun Job :=
  match s.goroutines[i]? with
  | none => s
  | some ⟨w, .select⟩ =>
    match (s.workers w).jobs with
    | job :: rest => s.take i w job rest
    | [] => s.setPhase i w .deciding
  | some ⟨w, .handling _⟩ => s.setPhase i w .select
  | some ⟨w, .deciding⟩ => if (s.workers w).jobs.length > 0 then s.setPhase i w .select
    else s.stop i w
  | some ⟨w, .leaving⟩ => { s.setPhase i w .returned with wake := true }
  | some ⟨_, .returned⟩ => s

end PoolRun

/-- What happens next: a job is queued, a goroutine takes its next step, or the poll loop hears of a
free worker. -/
inductive PoolEvent (Job : Type) where
  | enqueue (domain : String) (job : Job)
  | runWorker (i : ℕ)
  | wake

namespace PoolRun

def enqueued (s : PoolRun Job) (domain : String) (job : Job) : Bool → PoolRun Job
  | true => { s with accepted := s.accepted ++ [(domain, job)] }
  | false => s

def step (s : PoolRun Job) : PoolEvent Job → PoolRun Job
  | .enqueue domain job => (s.enqueue domain job).1.enqueued domain job (s.enqueue domain job).2
  | .runWorker i => s.runWorker i
  | .wake => { s with wake := false }

def Drains (s : PoolRun Job) (i w : ℕ) : Prop :=
  ∃ phase, s.goroutines[i]? = some ⟨w, phase⟩ ∧ phase.inLoop = true

def queue (s : PoolRun Job) (domain : String) : List Job :=
  match s.active.lookup domain with
  | some w => (s.workers w).jobs
  | none => []

end PoolRun

def ofDomain (domain : String) (log : List (String × Job)) : List Job :=
  (log.filter fun entry => entry.1 = domain).map Prod.snd

@[simp] theorem ofDomain_append (domain : String) (log log' : List (String × Job)) :
    ofDomain domain (log ++ log') = ofDomain domain log ++ ofDomain domain log' := by
  simp [ofDomain]

@[simp] theorem ofDomain_self (domain : String) (job : Job) : ofDomain domain
    [(domain, job)] = [job] := by
  simp [ofDomain]

theorem ofDomain_other {domain other : String} (job : Job) (h : other ≠ domain) :
    ofDomain domain [(other, job)] = [] := by simp [ofDomain, h]

structure Conserved (s : PoolRun Job) : Prop where
  total : s.active.keys.length + s.idle.length = outboundWorkers
  idle_nodup : s.idle.Nodup
  idle_empty : ∀ w ∈ s.idle, (s.workers w).jobs = []
  idle_rests : ∀ w ∈ s.idle, ∀ i, ¬ s.Drains i w
  active_drained : ∀ domain w, s.active.lookup domain = some w →
    w ∉ s.idle ∧ (s.workers w).domain = domain ∧ ∃ i, s.Drains i w
  drains_active : ∀ i w, s.Drains i w → s.active.lookup (s.workers w).domain = some w
  drains_alone : ∀ i j w, s.Drains i w → s.Drains j w → i = j
  order : ∀ domain, ofDomain domain s.accepted = ofDomain domain s.handled ++ s.queue domain

namespace PoolRun

variable {s : PoolRun Job} {i j w v : ℕ}

theorem drains_setPhase {phase : Phase Job} (hi : s.goroutines[i]? = some ⟨w, phase⟩)
    (phase' : Phase Job) :
    (s.setPhase i w phase').Drains j v ↔ if j = i then v = w ∧ phase'.inLoop = true
      else s.Drains j v := by
  have hlength : i < s.goroutines.length := (List.getElem?_eq_some_iff.mp hi).1
  unfold Drains setPhase
  dsimp only
  by_cases hj : j = i
  · subst hj
    simp only [List.getElem?_set_self hlength, if_pos, Option.some.injEq, Goroutine.mk.injEq]
    constructor
    · rintro ⟨p, ⟨rfl, rfl⟩, hp⟩
      exact ⟨rfl, hp⟩
    · rintro ⟨rfl, hp⟩
      exact ⟨phase', ⟨rfl, rfl⟩, hp⟩
  · rw [List.getElem?_set_ne (Ne.symm hj), if_neg hj]

theorem drains_setPhase_of_same {phase phase' : Phase Job} (hi : s.goroutines[i]? = some ⟨w, phase⟩)
    (hsame : phase'.inLoop = phase.inLoop) : (s.setPhase i w phase').Drains j v ↔ s.Drains j v := by
  rw [drains_setPhase hi]
  by_cases hj : j = i
  · subst hj
    rw [if_pos rfl, hsame]
    unfold Drains
    simp only [hi, Option.some.injEq, Goroutine.mk.injEq]
    constructor
    · rintro ⟨rfl, hp⟩
      exact ⟨phase, ⟨rfl, rfl⟩, hp⟩
    · rintro ⟨p, ⟨rfl, rfl⟩, hp⟩
      exact ⟨rfl, hp⟩
  · rw [if_neg hj]

theorem drains_start (domain : String) :
    (s.start w domain).Drains j v ↔ s.Drains j v ∨ j = s.goroutines.length ∧ v = w := by
  unfold Drains start
  dsimp only
  rcases Nat.lt_trichotomy j s.goroutines.length with hlt | rfl | hgt
  · rw [List.getElem?_append_left hlt]
    simp [hlt.ne]
  · simp only [List.getElem?_concat_length, Option.some.injEq, Goroutine.mk.injEq,
      List.getElem?_eq_none le_rfl]
    constructor
    · rintro ⟨p, ⟨rfl, rfl⟩, -⟩
      exact .inr ⟨trivial, rfl⟩
    · rintro (⟨p, h, -⟩ | ⟨-, rfl⟩)
      · cases h
      · exact ⟨.select, ⟨rfl, rfl⟩, rfl⟩
  · rw [List.getElem?_eq_none (by simp; omega), List.getElem?_eq_none hgt.le]
    simp [hgt.ne']

end PoolRun

namespace Conserved

open PoolRun

variable {s : PoolRun Job} {i w : ℕ}

theorem init : Conserved (newWorkerPool : PoolRun Job) where
  total := by simp [newWorkerPool]
  idle_nodup := List.nodup_range
  idle_empty := fun _ _ => rfl
  idle_rests := by simp [newWorkerPool, Drains]
  active_drained := by simp [newWorkerPool]
  drains_active := by simp [newWorkerPool, Drains]
  drains_alone := by simp [newWorkerPool, Drains]
  order := by simp [newWorkerPool, queue, ofDomain]

theorem domain_unique (h : Conserved s) {domain other : String}
    (hd : s.active.lookup domain = some w) (ho : s.active.lookup other = some w) :
    domain = other := by
  rw [← (h.active_drained domain w hd).2.1, (h.active_drained other w ho).2.1]

theorem setPhase (h : Conserved s) {phase phase' : Phase Job}
    (hi : s.goroutines[i]? = some ⟨w, phase⟩) (hsame : phase'.inLoop = phase.inLoop) :
    Conserved (s.setPhase i w phase') where
  total := h.total
  idle_nodup := h.idle_nodup
  idle_empty := h.idle_empty
  idle_rests := by
    intro v hv j hj
    exact h.idle_rests v hv j ((drains_setPhase_of_same hi hsame).mp hj)
  active_drained := by
    intro domain v hv
    obtain ⟨hidle, hdomain, j, hj⟩ := h.active_drained domain v hv
    exact ⟨hidle, hdomain, j, (drains_setPhase_of_same hi hsame).mpr hj⟩
  drains_active := by
    intro j v hj
    exact h.drains_active j v ((drains_setPhase_of_same hi hsame).mp hj)
  drains_alone := by
    intro j j' v hj hj'
    apply h.drains_alone j j' v
    · exact (drains_setPhase_of_same hi hsame).mp hj
    · exact (drains_setPhase_of_same hi hsame).mp hj'
  order := h.order

theorem send (h : Conserved s) {domain : String} (hw : s.active.lookup domain = some w)
    (job : Job) :
    Conserved ((s.send w job).1.enqueued domain job (s.send w job).2) := by
  unfold PoolRun.send
  split
  · dsimp only [enqueued]
    have hdomains : ∀ v, (Function.update s.workers w
        ⟨(s.workers w).domain, (s.workers w).jobs ++ [job]⟩ v).domain = (s.workers v).domain := by
      intro v
      by_cases hv : v = w
      · subst hv
        rw [Function.update_self]
      · rw [Function.update_of_ne hv]
    refine ⟨h.total, h.idle_nodup, ?_, h.idle_rests, ?_, ?_, h.drains_alone, ?_⟩
    · intro v hv
      have hne : v ≠ w := by
        rintro rfl
        exact (h.active_drained domain v hw).1 hv
      dsimp only
      rw [Function.update_of_ne hne]
      exact h.idle_empty v hv
    · intro d v hv
      obtain ⟨hidle, hdomain, hdrains⟩ := h.active_drained d v hv
      exact ⟨hidle, (hdomains v).trans hdomain, hdrains⟩
    · intro j v hj
      dsimp only
      rw [hdomains]
      exact h.drains_active j v hj
    · intro d
      have horder := h.order d
      unfold queue at horder ⊢
      dsimp only
      by_cases hd : domain = d
      · subst hd
        rw [hw] at horder ⊢
        dsimp only at horder ⊢
        rw [ofDomain_append, ofDomain_self, Function.update_self, horder, List.append_assoc]
      · rw [ofDomain_append, ofDomain_other job hd, List.append_nil, horder]
        cases hv : s.active.lookup d with
        | none => rfl
        | some v =>
          have hne : v ≠ w := by
            rintro rfl
            exact hd (h.domain_unique hw hv)
          dsimp only
          rw [Function.update_of_ne hne]
  · exact h

theorem start (h : Conserved s) {domain : String} (hnone : s.active.lookup domain = none)
    (hlast : s.idle.getLast? = some w) : Conserved (s.start w domain) := by
  have hidle : s.idle.dropLast ++ [w] = s.idle := List.dropLast_append_getLast? w hlast
  have hmem : w ∈ s.idle := by
    rw [← hidle]
    simp
  have hnot : w ∉ s.idle.dropLast := by
    have hnodup := h.idle_nodup
    rw [← hidle] at hnodup
    intro hw
    exact (List.nodup_append.mp hnodup).2.2 w hw w (by simp) rfl
  have hinactive : ∀ d, s.active.lookup d ≠ some w := fun d hd => (h.active_drained d w hd).1 hmem
  have hworkers : ∀ v, v ≠ w → (s.start w domain).workers v = s.workers v :=
    fun v hv => Function.update_of_ne hv _ _
  have hdomain : ((s.start w domain).workers w).domain = domain := by
    unfold PoolRun.start
    dsimp only
    rw [Function.update_self]
  have hlookup : ∀ d v, (s.start w domain).active.lookup d = some v ↔
      if d = domain then v = w else s.active.lookup d = some v := by
    intro d v
    unfold PoolRun.start
    dsimp only
    by_cases hd : d = domain
    · subst hd
      rw [AList.lookup_insert, if_pos rfl, Option.some.injEq, eq_comm]
    · rw [AList.lookup_insert_ne hd, if_neg hd]
  refine ⟨?_, h.idle_nodup.sublist (List.dropLast_sublist _), ?_, ?_, ?_, ?_, ?_, ?_⟩
  · have htotal := h.total
    have hlength : s.idle.dropLast.length + 1 = s.idle.length := by
      rw [← congrArg List.length hidle, List.length_append, List.length_singleton]
    have hkeys : domain ∉ s.active.keys := by
      rw [← AList.mem_keys, ← AList.lookup_eq_none]
      exact hnone
    unfold PoolRun.start
    dsimp only
    rw [AList.keys_insert, List.erase_of_not_mem hkeys, List.length_cons]
    omega
  · intro v hv
    have hne : v ≠ w := by
      rintro rfl
      exact hnot hv
    rw [hworkers v hne]
    exact h.idle_empty v (List.mem_of_mem_dropLast hv)
  · intro v hv j hj
    rcases (drains_start domain).mp hj with hold | ⟨-, rfl⟩
    · exact h.idle_rests v (List.mem_of_mem_dropLast hv) j hold
    · exact hnot hv
  · intro d v hv
    rw [hlookup] at hv
    split at hv
    · next hd =>
      subst hv
      exact ⟨hnot, hdomain.trans hd.symm, _, (drains_start domain).mpr (.inr ⟨rfl, rfl⟩)⟩
    · obtain ⟨hout, hold, j, hj⟩ := h.active_drained d v hv
      have hne : v ≠ w := by
        rintro rfl
        exact hout hmem
      refine ⟨fun hin => hout (List.mem_of_mem_dropLast hin), ?_, j,
        (drains_start domain).mpr (.inl hj)⟩
      rw [hworkers v hne]
      exact hold
  · intro j v hj
    rw [hlookup]
    rcases (drains_start domain).mp hj with hold | ⟨-, rfl⟩
    · have hne : v ≠ w := by
        rintro rfl
        exact h.idle_rests v hmem j hold
      have hactive := h.drains_active j v hold
      rw [hworkers v hne, if_neg ?_]
      · exact hactive
      · intro hd
        rw [hd, hnone] at hactive
        cases hactive
    · rw [if_pos hdomain]
  · intro j j' v hj hj'
    rcases (drains_start domain).mp hj with hold | ⟨rfl, rfl⟩
    · rcases (drains_start domain).mp hj' with hold' | ⟨rfl, rfl⟩
      · exact h.drains_alone j j' v hold hold'
      · exact absurd hold (h.idle_rests v hmem j)
    · rcases (drains_start domain).mp hj' with hold' | ⟨rfl, -⟩
      · exact absurd hold' (h.idle_rests v hmem j')
      · rfl
  · intro d
    have hqueue : (s.start w domain).queue d = s.queue d := by
      unfold queue
      by_cases hd : d = domain
      · subst hd
        rw [(hlookup d w).mpr (by rw [if_pos rfl]), hnone]
        dsimp only [PoolRun.start]
        rw [Function.update_self]
        exact h.idle_empty w hmem
      · have hsame : (s.start w domain).active.lookup d = s.active.lookup d :=
          AList.lookup_insert_ne hd
        rw [hsame]
        cases hv : s.active.lookup d with
        | none => rfl
        | some v =>
          dsimp only
          rw [hworkers v (by rintro rfl; exact hinactive d hv)]
    rw [hqueue]
    exact h.order d

theorem enqueue (h : Conserved s) (domain : String) (job : Job) :
    Conserved ((s.enqueue domain job).1.enqueued domain job (s.enqueue domain job).2) := by
  unfold PoolRun.enqueue
  cases hw : s.active.lookup domain with
  | some w => exact h.send hw job
  | none =>
    dsimp only
    cases hlast : s.idle.getLast? with
    | none => exact h
    | some w =>
      apply (h.start hw hlast).send
      exact AList.lookup_insert _

/-- `enqueue` takes a job exactly when there is room for it: a worker at rest has an empty queue. -/
theorem enqueue_eq_hasRoom (h : Conserved s) (domain : String) (job : Job) :
    (s.enqueue domain job).2 = s.hasRoom domain := by
  have hsend : ∀ (t : PoolRun Job) w, (t.send w job).2 =
      decide ((t.workers w).jobs.length < domainQueueSize) := by
    intro t w
    unfold PoolRun.send
    split
    · next hroom => exact (decide_eq_true hroom).symm
    · next hroom => exact (decide_eq_false hroom).symm
  unfold PoolRun.enqueue hasRoom
  cases hw : s.active.lookup domain with
  | some w => exact hsend s w
  | none =>
    dsimp only
    cases hlast : s.idle.getLast? with
    | none =>
      rw [List.getLast?_eq_none_iff.mp hlast]
      rfl
    | some w =>
      have hmem : w ∈ s.idle := List.mem_of_getLast? hlast
      have hjobs : ((s.start w domain).workers w).jobs = [] := by
        unfold PoolRun.start
        dsimp only
        rw [Function.update_self]
        exact h.idle_empty w hmem
      dsimp only
      rw [hsend, hjobs]
      exact (decide_eq_true (List.length_pos_of_mem hmem)).symm

theorem take (h : Conserved s) (hi : s.goroutines[i]? = some ⟨w, .select⟩) {job : Job}
    {rest : List Job} (hjobs : (s.workers w).jobs = job :: rest) :
    Conserved (s.take i w job rest) := by
  have hphase := h.setPhase hi (show Phase.inLoop (.handling job) = Phase.inLoop .select from rfl)
  have hdrains : s.Drains i w := ⟨.select, hi, rfl⟩
  have hactive := h.drains_active i w hdrains
  have hdomains : ∀ v, ((s.take i w job rest).workers v).domain = (s.workers v).domain := by
    intro v
    unfold PoolRun.take
    dsimp only
    by_cases hv : v = w
    · subst hv
      rw [Function.update_self]
    · rw [Function.update_of_ne hv]
  refine ⟨h.total, h.idle_nodup, ?_, hphase.idle_rests, ?_, ?_, hphase.drains_alone, ?_⟩
  · intro v hv
    have hne : v ≠ w := by
      rintro rfl
      exact h.idle_rests v hv i hdrains
    have hold : (s.take i w job rest).workers v = s.workers v := Function.update_of_ne hne _ _
    rw [hold]
    exact h.idle_empty v hv
  · intro d v hv
    obtain ⟨hidle, hdomain, hrun⟩ := hphase.active_drained d v hv
    exact ⟨hidle, (hdomains v).trans hdomain, hrun⟩
  · intro j v hj
    rw [hdomains]
    exact hphase.drains_active j v hj
  · intro d
    have horder := h.order d
    unfold queue at horder ⊢
    dsimp only [PoolRun.take, PoolRun.setPhase]
    by_cases hd : (s.workers w).domain = d
    · subst hd
      rw [hactive] at horder ⊢
      dsimp only at horder ⊢
      rw [ofDomain_append, ofDomain_self, Function.update_self, horder, hjobs, List.append_assoc,
        List.singleton_append]
    · rw [ofDomain_append, ofDomain_other job hd, List.append_nil, horder]
      cases hv : s.active.lookup d with
      | none => rfl
      | some v =>
        have hne : v ≠ w := by
          rintro rfl
          exact hd (h.domain_unique hactive hv)
        dsimp only
        rw [Function.update_of_ne hne]

theorem stop (h : Conserved s) (hi : s.goroutines[i]? = some ⟨w, .deciding⟩)
    (hjobs : (s.workers w).jobs = []) :
    Conserved (s.stop i w) := by
  have hdrains : s.Drains i w := ⟨.deciding, hi, rfl⟩
  have hactive := h.drains_active i w hdrains
  have hout := (h.active_drained _ w hactive).1
  have hrest : ∀ j v, (s.stop i w).Drains j v ↔ j ≠ i ∧ s.Drains j v := by
    intro j v
    refine (drains_setPhase hi .leaving).trans ?_
    by_cases hj : j = i
    · simp [hj, Phase.inLoop]
    · simp [hj]
  have hother : ∀ {j v}, (s.stop i w).Drains j v → v ≠ w ∧ s.Drains j v := by
    intro j v hj
    obtain ⟨hne, hold⟩ := (hrest j v).mp hj
    refine ⟨?_, hold⟩
    rintro rfl
    exact hne (h.drains_alone j i v hold hdrains)
  have hworkers : ∀ v, v ≠ w → (s.stop i w).workers v = s.workers v :=
    fun v hv => Function.update_of_ne hv _ _
  have hlookup : ∀ d, d ≠ (s.workers w).domain → (s.stop i w).active.lookup d = s.active.lookup d :=
    fun d hd => AList.lookup_erase_ne hd
  have hgone : (s.stop i w).active.lookup (s.workers w).domain = none := AList.lookup_erase _ _
  refine ⟨?_, ?_, ?_, ?_, ?_, ?_, ?_, ?_⟩
  · have htotal := h.total
    have hkey : (s.workers w).domain ∈ s.active.keys := by
      rw [← AList.mem_keys, ← AList.lookup_isSome, hactive]
      rfl
    have hpos := List.length_pos_of_mem hkey
    dsimp only [PoolRun.stop, PoolRun.setPhase]
    rw [AList.keys_erase, List.length_erase_of_mem hkey, List.length_append, List.length_singleton]
    omega
  · refine List.nodup_append.mpr ⟨h.idle_nodup, List.nodup_singleton w, ?_⟩
    rintro v hv u hu rfl
    rw [List.mem_singleton.mp hu] at hv
    exact hout hv
  · intro v hv
    rcases List.mem_append.mp hv with hold | hnew
    · have hne : v ≠ w := by
        rintro rfl
        exact hout hold
      rw [hworkers v hne]
      exact h.idle_empty v hold
    · rw [List.mem_singleton.mp hnew]
      dsimp only [PoolRun.stop, PoolRun.setPhase]
      rw [Function.update_self]
      exact hjobs
  · intro v hv j hj
    obtain ⟨hne, hdrainsj⟩ := hother hj
    rcases List.mem_append.mp hv with hold | hnew
    · exact h.idle_rests v hold j hdrainsj
    · exact hne (List.mem_singleton.mp hnew)
  · intro d v hv
    have hd : d ≠ (s.workers w).domain := by
      rintro rfl
      rw [hgone] at hv
      cases hv
    rw [hlookup d hd] at hv
    obtain ⟨hidle, hdomain, j, hj⟩ := h.active_drained d v hv
    have hne : v ≠ w := by
      rintro rfl
      exact hd hdomain.symm
    refine ⟨?_, ?_, j, (hrest j v).mpr ⟨?_, hj⟩⟩
    · intro hin
      rcases List.mem_append.mp hin with hold | hnew
      · exact hidle hold
      · exact hne (List.mem_singleton.mp hnew)
    · rw [hworkers v hne]
      exact hdomain
    · rintro rfl
      obtain ⟨phase, hphase, -⟩ := hj
      rw [hi] at hphase
      cases hphase
      exact hne rfl
  · intro j v hj
    obtain ⟨hne, hold⟩ := hother hj
    have hold' := h.drains_active j v hold
    rw [hworkers v hne, hlookup _ ?_]
    · exact hold'
    · intro hd
      rw [hd, hactive] at hold'
      cases hold'
      exact hne rfl
  · intro j j' v hj hj'
    exact h.drains_alone j j' v (hother hj).2 (hother hj').2
  · intro d
    have hqueue : (s.stop i w).queue d = s.queue d := by
      unfold queue
      by_cases hd : d = (s.workers w).domain
      · subst hd
        rw [hgone, hactive]
        exact hjobs.symm
      · rw [hlookup d hd]
        cases hv : s.active.lookup d with
        | none => rfl
        | some v =>
          have hne : v ≠ w := by
            rintro rfl
            exact hd (h.active_drained d v hv).2.1.symm
          dsimp only
          rw [hworkers v hne]
    rw [hqueue]
    exact h.order d

theorem runWorker (h : Conserved s) (i : ℕ) : Conserved (s.runWorker i) := by
  unfold PoolRun.runWorker
  split
  · exact h
  · next w hi =>
    split
    · next job rest hjobs => exact h.take hi hjobs
    · exact h.setPhase hi rfl
  · next w job hi => exact h.setPhase hi rfl
  · next w hi =>
    split
    · exact h.setPhase hi rfl
    · next hjobs => exact h.stop hi (List.eq_nil_of_length_eq_zero (by omega))
  · next w hi =>
    have hphase :=
      h.setPhase hi (show Phase.inLoop (.returned : Phase Job) = Phase.inLoop .leaving from rfl)
    exact { hphase with }
  · exact h

theorem step (h : Conserved s) (event : PoolEvent Job) : Conserved (s.step event) := by
  cases event with
  | enqueue domain job => exact h.enqueue domain job
  | runWorker i => exact h.runWorker i
  | wake => exact { h with }

theorem run (h : Conserved s) (events : List (PoolEvent Job)) : Conserved
    (Machine.run PoolRun.step s events) :=
  (Machine.throughout_of_invariant h fun _ event h => h.step event).last

end Conserved

section Progress

open PoolRun

def Phase.untilSelect : Phase Job → ℕ
  | select => 1
  | _ => 2

theorem Phase.untilSelect_bounds (phase : Phase Job) : 1 ≤ phase.untilSelect ∧
    phase.untilSelect ≤ 2 := by
  cases phase with
  | select => exact ⟨le_rfl, Nat.le_succ 1⟩
  | _ => exact ⟨Nat.le_succ 1, le_rfl⟩

def PoolEvent.movesWorker (i : ℕ) : PoolEvent Job → Bool
  | runWorker j => j = i
  | _ => false

/-- The job at place `n` among those taken for the domain has not been handled; the goroutine `i`
gets to it within `k` of its steps. -/
structure Waits (s : PoolRun Job) (domain : String) (n i w k : ℕ) : Prop where
  active : s.active.lookup domain = some w
  drains : ∃ phase, s.goroutines[i]? = some ⟨w, phase⟩ ∧ phase.inLoop = true ∧
    2 * (n - (ofDomain domain s.handled).length) + phase.untilSelect ≤ k
  unhandled : (ofDomain domain s.handled).length ≤ n
  accepted : n < (ofDomain domain s.accepted).length

variable {s : PoolRun Job} {domain : String} {n i w k : ℕ}

theorem enqueue_frame (s : PoolRun Job) (domain : String) (job : Job) :
    (s.enqueue domain job).1.handled = s.handled ∧ (s.enqueue domain job).1.accepted = s.accepted ∧
      (∀ d w, s.active.lookup d = some w → (s.enqueue domain job).1.active.lookup d = some w) ∧
      ∀ (i : ℕ) g, s.goroutines[i]? = some g → (s.enqueue domain job).1.goroutines[i]? =
      some g := by
  have hsend : ∀ (t : PoolRun Job) w, (t.send w job).1.handled = t.handled ∧
      (t.send w job).1.accepted = t.accepted ∧ (t.send w job).1.active = t.active ∧
      (t.send w job).1.goroutines = t.goroutines := by
    intro t w
    unfold PoolRun.send
    split
    · exact ⟨rfl, rfl, rfl, rfl⟩
    · exact ⟨rfl, rfl, rfl, rfl⟩
  unfold PoolRun.enqueue
  cases hw : s.active.lookup domain with
  | some w =>
    dsimp only
    obtain ⟨hhandled, haccepted, hactive, hgoroutines⟩ := hsend s w
    rw [hactive, hgoroutines]
    exact ⟨hhandled, haccepted, fun _ _ h => h, fun _ _ h => h⟩
  | none =>
    dsimp only
    cases hlast : s.idle.getLast? with
    | none => exact ⟨rfl, rfl, fun _ _ h => h, fun _ _ h => h⟩
    | some w =>
      dsimp only
      obtain ⟨hhandled, haccepted, hactive, hgoroutines⟩ := hsend (s.start w domain) w
      rw [hactive, hgoroutines]
      refine ⟨hhandled, haccepted, fun d v hd => ?_, fun i g hi => ?_⟩
      · have hne : d ≠ domain := by
          rintro rfl
          rw [hw] at hd
          cases hd
        exact (AList.lookup_insert_ne hne).trans hd
      · exact (List.getElem?_append_left (List.getElem?_eq_some_iff.mp hi).1).trans hi

theorem enqueued_frame (s : PoolRun Job) (domain : String) (job : Job) (ok : Bool) :
    (s.enqueued domain job ok).handled = s.handled ∧
      s.accepted <+: (s.enqueued domain job ok).accepted ∧
      (s.enqueued domain job ok).active = s.active ∧ (s.enqueued domain job ok).goroutines =
      s.goroutines := by
  cases ok with
  | true => exact ⟨rfl, List.prefix_append _ _, rfl, rfl⟩
  | false => exact ⟨rfl, List.prefix_rfl, rfl, rfl⟩

theorem step_enqueue_frame (s : PoolRun Job) (domain : String) (job : Job) :
    (s.step (.enqueue domain job)).handled = s.handled ∧
      s.accepted <+: (s.step (.enqueue domain job)).accepted ∧
      (∀ d w, s.active.lookup d = some w → (s.step (.enqueue domain job)).active.lookup d =
        some w) ∧
      ∀ (i : ℕ) g, s.goroutines[i]? = some g → (s.step (.enqueue domain job)).goroutines[i]? =
      some g := by
  obtain ⟨hhandled, haccepted, hactive, hgoroutines⟩ := enqueue_frame s domain job
  obtain ⟨hhandled', haccepted', hactive', hgoroutines'⟩ :=
    enqueued_frame (s.enqueue domain job).1 domain job (s.enqueue domain job).2
  unfold PoolRun.step
  dsimp only
  rw [hactive', hgoroutines']
  exact ⟨hhandled'.trans hhandled, haccepted ▸ haccepted', hactive, hgoroutines⟩

theorem runWorker_frame (h : Conserved s) (hw : s.active.lookup domain = some w) (hi : s.Drains i w)
    {j : ℕ} (hj : j ≠ i) : ofDomain domain (s.runWorker j).handled = ofDomain domain s.handled ∧
      (s.runWorker j).accepted = s.accepted ∧ (s.runWorker j).active.lookup domain = some w ∧
      (s.runWorker j).goroutines[i]? = s.goroutines[i]? := by
  have hother : ∀ v, s.Drains j v → (s.workers v).domain ≠ domain := by
    rintro v hv rfl
    have hsame := h.drains_active j v hv
    rw [hw] at hsame
    cases hsame
    exact hj (h.drains_alone j i w hv hi)
  have hset : ∀ g : Goroutine Job, (s.goroutines.set j g)[i]? = s.goroutines[i]? :=
    fun g => List.getElem?_set_ne hj
  unfold PoolRun.runWorker
  split
  · exact ⟨rfl, rfl, hw, rfl⟩
  · next v hv =>
    split
    · next job rest hjobs =>
      refine ⟨?_, rfl, hw, hset _⟩
      have hne := hother v ⟨.select, hv, rfl⟩
      change ofDomain domain (s.handled ++ [((s.workers v).domain, job)]) = _
      rw [ofDomain_append, ofDomain_other job hne, List.append_nil]
    · exact ⟨rfl, rfl, hw, hset _⟩
  · exact ⟨rfl, rfl, hw, hset _⟩
  · next v hv =>
    split
    · exact ⟨rfl, rfl, hw, hset _⟩
    · have hne := hother v ⟨.deciding, hv, rfl⟩
      exact ⟨rfl, rfl, (AList.lookup_erase_ne hne.symm).trans hw, hset _⟩
  · exact ⟨rfl, rfl, hw, hset _⟩
  · exact ⟨rfl, rfl, hw, rfl⟩

theorem Waits.step (hwaits : Waits s domain n i w k) (h : Conserved s) (event : PoolEvent Job) :
    n < (ofDomain domain (s.step event).handled).length ∨
      Waits (s.step event) domain n i w (if event.movesWorker i then k - 1 else k) := by
  obtain ⟨hw, ⟨phase, hi, hloop, hk⟩, hunhandled, haccepted⟩ := hwaits
  cases event with
  | enqueue d job =>
    obtain ⟨hhandled, hprefix, hactive, hgoroutines⟩ := step_enqueue_frame s d job
    right
    refine ⟨hactive domain w hw, ⟨phase, hgoroutines i _ hi, hloop, ?_⟩, ?_, ?_⟩
    · rw [hhandled]
      exact hk
    · rw [hhandled]
      exact hunhandled
    · obtain ⟨more, hmore⟩ := hprefix
      rw [← hmore, ofDomain_append, List.length_append]
      omega
  | wake => exact .inr ⟨hw, ⟨phase, hi, hloop, hk⟩, hunhandled, haccepted⟩
  | runWorker j =>
    by_cases hj : j = i
    · subst hj
      have hlength : j < s.goroutines.length := (List.getElem?_eq_some_iff.mp hi).1
      have hqueue : (ofDomain domain s.accepted).length =
          (ofDomain domain s.handled).length + (s.workers w).jobs.length := by
        have horder := h.order domain
        unfold PoolRun.queue at horder
        rw [hw] at horder
        rw [horder, List.length_append]
      have hdomain : (s.workers w).domain = domain := (h.active_drained domain w hw).2.1
      rw [if_pos (by simp [PoolEvent.movesWorker])]
      change n < (ofDomain domain (s.runWorker j).handled).length ∨
        Waits (s.runWorker j) domain n j w (k - 1)
      unfold PoolRun.runWorker
      rw [hi]
      cases phase with
      | select =>
        dsimp only [Phase.untilSelect] at hk ⊢
        cases hjobs : (s.workers w).jobs with
        | nil =>
          rw [hjobs] at hqueue
          simp only [List.length_nil] at hqueue
          omega
        | cons job rest =>
          have hhandled : ofDomain domain (s.take j w job rest).handled =
              ofDomain domain s.handled ++ [job] := by
            change ofDomain domain (s.handled ++ [((s.workers w).domain, job)]) = _
            rw [hdomain, ofDomain_append, ofDomain_self]
          by_cases hlast : (ofDomain domain s.handled).length = n
          · left
            change n < (ofDomain domain (s.take j w job rest).handled).length
            rw [hhandled, List.length_append, List.length_singleton]
            omega
          · right
            refine ⟨hw, ⟨.handling job, List.getElem?_set_self hlength, rfl, ?_⟩, ?_, haccepted⟩
            · rw [hhandled, List.length_append, List.length_singleton]
              dsimp only [Phase.untilSelect]
              omega
            · rw [hhandled, List.length_append, List.length_singleton]
              omega
      | handling job =>
        right
        refine ⟨hw, ⟨.select, List.getElem?_set_self hlength, rfl, ?_⟩, hunhandled, haccepted⟩
        dsimp only [Phase.untilSelect, PoolRun.setPhase] at hk ⊢
        omega
      | deciding =>
        right
        have hmore : (s.workers w).jobs.length > 0 := by omega
        dsimp only
        rw [if_pos hmore]
        refine ⟨hw, ⟨.select, List.getElem?_set_self hlength, rfl, ?_⟩, hunhandled, haccepted⟩
        dsimp only [Phase.untilSelect, PoolRun.setPhase] at hk ⊢
        omega
      | leaving => cases hloop
      | returned => cases hloop
    · obtain ⟨hhandled, htaken, hactive, hgoroutine⟩ := runWorker_frame h hw ⟨phase, hi, hloop⟩ hj
      right
      rw [if_neg (by simp [PoolEvent.movesWorker, hj])]
      change Waits (s.runWorker j) domain n i w k
      refine ⟨hactive, ⟨phase, hgoroutine.trans hi, hloop, ?_⟩, ?_, ?_⟩
      · rw [hhandled]
        exact hk
      · rw [hhandled]
        exact hunhandled
      · rw [htaken]
        exact haccepted

theorem logs_step (s : PoolRun Job) (event : PoolEvent Job) :
    s.handled <+: (s.step event).handled ∧ s.accepted <+: (s.step event).accepted := by
  cases event with
  | enqueue d job =>
    obtain ⟨hhandled, haccepted, -, -⟩ := step_enqueue_frame s d job
    exact ⟨hhandled.symm ▸ List.prefix_rfl, haccepted⟩
  | wake => exact ⟨List.prefix_rfl, List.prefix_rfl⟩
  | runWorker j =>
    change s.handled <+: (s.runWorker j).handled ∧ s.accepted <+: (s.runWorker j).accepted
    unfold PoolRun.runWorker
    split
    · exact ⟨List.prefix_rfl, List.prefix_rfl⟩
    · split
      · exact ⟨List.prefix_append _ _, List.prefix_rfl⟩
      · exact ⟨List.prefix_rfl, List.prefix_rfl⟩
    · exact ⟨List.prefix_rfl, List.prefix_rfl⟩
    · split
      · exact ⟨List.prefix_rfl, List.prefix_rfl⟩
      · exact ⟨List.prefix_rfl, List.prefix_rfl⟩
    · exact ⟨List.prefix_rfl, List.prefix_rfl⟩
    · exact ⟨List.prefix_rfl, List.prefix_rfl⟩

theorem logs_run (s : PoolRun Job) (domain : String) (events : List (PoolEvent Job)) :
    ofDomain domain s.handled <+: ofDomain domain (Machine.run PoolRun.step s events).handled ∧
      ofDomain domain s.accepted <+: ofDomain domain
      (Machine.run PoolRun.step s events).accepted := by
  have hdomain : ∀ {log log' : List (String × Job)}, log <+: log' →
      ofDomain domain log <+: ofDomain domain log' := by
    rintro log log' ⟨more, rfl⟩
    rw [ofDomain_append]
    exact List.prefix_append _ _
  induction events generalizing s with
  | nil => exact ⟨List.prefix_rfl, List.prefix_rfl⟩
  | cons event events ih =>
    obtain ⟨hhandled, haccepted⟩ := logs_step s event
    obtain ⟨hhandled', haccepted'⟩ := ih (s.step event)
    exact ⟨(hdomain hhandled).trans hhandled', (hdomain haccepted).trans haccepted'⟩

theorem Waits.handled (hwaits : Waits s domain n i w k) (h : Conserved s)
    {events : List (PoolEvent Job)} (hmoves : k ≤ events.countP (PoolEvent.movesWorker i)) :
    n < (ofDomain domain (Machine.run PoolRun.step s events).handled).length := by
  induction events generalizing s k with
  | nil =>
    obtain ⟨-, ⟨phase, -, -, hk⟩, -, -⟩ := hwaits
    have hpos := phase.untilSelect_bounds.1
    rw [List.countP_nil] at hmoves
    omega
  | cons event events ih =>
    rcases hwaits.step h event with hdone | hnext
    · exact lt_of_lt_of_le hdone ((logs_run (s.step event) domain events).1.length_le)
    · apply ih hnext (h.step event)
      rw [List.countP_cons] at hmoves
      split at hmoves
      · next hmove =>
        rw [if_pos hmove]
        omega
      · next hmove =>
        rw [if_neg hmove]
        omega

theorem Conserved.handles (h : Conserved s) (haccepted : n < (ofDomain domain s.accepted).length) :
    ∃ i, ∀ events : List (PoolEvent Job), 2 * n + 2 ≤ events.countP (PoolEvent.movesWorker i) →
      n < (ofDomain domain (Machine.run PoolRun.step s events).handled).length := by
  by_cases hdone : n < (ofDomain domain s.handled).length
  · exact ⟨0, fun events _ => lt_of_lt_of_le hdone ((logs_run s domain events).1.length_le)⟩
  · have horder := congrArg List.length (h.order domain)
    rw [List.length_append] at horder
    cases hw : s.active.lookup domain with
    | none =>
      have hempty : s.queue domain = [] := by
        unfold PoolRun.queue
        rw [hw]
      rw [hempty, List.length_nil] at horder
      omega
    | some w =>
      obtain ⟨-, -, i, phase, hi, hloop⟩ := h.active_drained domain w hw
      refine ⟨i, fun events hmoves => ?_⟩
      have hphase := phase.untilSelect_bounds.2
      have hwaits : Waits s domain n i w (2 * n + 2) :=
        ⟨hw, ⟨phase, hi, hloop, by omega⟩, by omega, haccepted⟩
      exact hwaits.handled h hmoves

end Progress

/-- Whatever is queued and however the goroutines of the workers interleave: no worker is lost, a
domain has one worker and a worker one domain, `enqueue` takes a job exactly when there is room, the
jobs taken for a domain are those handled and then those in its queue, a worker at rest has no jobs,
and every job taken is handled once a certain goroutine has moved often enough. -/
theorem pool_conserves (events : List (PoolEvent Job)) :
    let s := Machine.run PoolRun.step newWorkerPool events
    s.active.keys.length + s.idle.length = outboundWorkers ∧
      (∀ domain other w, s.active.lookup domain = some w → s.active.lookup other = some w →
        domain = other) ∧
      (∀ domain w i j v, s.active.lookup domain = some w → s.Drains i w → s.Drains j v →
        (s.workers v).domain = domain → v = w ∧ j = i) ∧
      (∀ domain job, (s.enqueue domain job).2 = s.hasRoom domain) ∧
      (∀ domain, ofDomain domain s.accepted = ofDomain domain s.handled ++ s.queue domain) ∧
      (∀ w ∈ s.idle, (s.workers w).jobs = [] ∧ ∀ domain, s.active.lookup domain ≠ some w) ∧
      ∀ domain n, n < (ofDomain domain s.accepted).length → ∃ i, ∀ later : List (PoolEvent Job),
        2 * n + 2 ≤ later.countP (PoolEvent.movesWorker i) →
        (ofDomain domain (Machine.run PoolRun.step s later).handled)[n]? =
          (ofDomain domain s.accepted)[n]? := by
  intro s
  have h : Conserved s := Conserved.init.run events
  refine ⟨h.total, fun domain other w => h.domain_unique, ?_, h.enqueue_eq_hasRoom, h.order, ?_, ?_⟩
  · rintro domain w i j v hw hi hj rfl
    have hv := h.drains_active j v hj
    rw [hw] at hv
    cases hv
    exact ⟨rfl, h.drains_alone j i w hj hi⟩
  · intro w hidle
    exact ⟨h.idle_empty w hidle, fun domain hw => (h.active_drained domain w hw).1 hidle⟩
  · intro domain n hn
    obtain ⟨i, hi⟩ := h.handles hn
    refine ⟨i, fun later hmoves => ?_⟩
    have hhandled := hi later hmoves
    have horder := (h.run later).order domain
    obtain ⟨more, hmore⟩ := (logs_run s domain later).2
    rw [← List.getElem?_append_left hhandled, ← horder, ← hmore, List.getElem?_append_left hn]

end Dmcn.Bridge
