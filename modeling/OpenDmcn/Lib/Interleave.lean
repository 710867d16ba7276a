import OpenDmcn.Lib.Run
import Mathlib.Data.List.Nodup
import Mathlib.Logic.Function.Basic

/-! Optimistic transactions over a shared store. Each reads the store key by key, decides, and makes
at most one write; the reads and the write are atomic one by one and interleave freely with those of
the others. As long as nobody overwrites what a transaction in flight has read, the interleaving is
the sequence of the accepted transactions, each run alone, in the order of their writes. -/

namespace Interleave

variable {κ ν ε α β : Type}

inductive Reads (κ ν α : Type) where
  | ret (a : α)
  | get (k : κ) (cont : Option ν → Reads κ ν α)

namespace Reads

def bind : Reads κ ν α → (α → Reads κ ν β) → Reads κ ν β
  | ret a, f => f a
  | get k cont, f => get k fun v => (cont v).bind f

instance : Monad (Reads κ ν) where
  pure := ret
  bind := bind

def run (s : κ → Option ν) : Reads κ ν α → α
  | ret a => a
  | get k cont => (cont (s k)).run s

theorem run_bind (s : κ → Option ν) (x : Reads κ ν α) (f : α → Reads κ ν β) :
    (x.bind f).run s = (f (x.run s)).run s := by
  induction x with
  | ret a => rfl
  | get k cont ih => exact ih (s k)

end Reads

def atomically (s : κ → Option ν) (x : ExceptT ε (Reads κ ν) α) : Except ε α := Reads.run s x.run

def check (x : Except ε α) : ExceptT ε (Reads κ ν) α := ExceptT.mk (.ret x)

def read (k : κ) : ExceptT ε (Reads κ ν) (Option ν) := ExceptT.mk (.get k fun v => .ret (.ok v))

@[simp] theorem atomically_pure (s : κ → Option ν) (a : α) :
    atomically s (pure a : ExceptT ε (Reads κ ν) α) = .ok a := rfl

@[simp] theorem atomically_check (s : κ → Option ν) (x : Except ε α) :
    atomically s (check x : ExceptT ε (Reads κ ν) α) = x := rfl

@[simp] theorem atomically_read (s : κ → Option ν) (k : κ) :
    atomically s (read k : ExceptT ε (Reads κ ν) (Option ν)) = .ok (s k) := rfl

@[simp] theorem atomically_bind (s : κ → Option ν) (x : ExceptT ε (Reads κ ν) α)
    (f : α → ExceptT ε (Reads κ ν) β) :
    atomically s (x >>= f) = atomically s x >>= fun a => atomically s (f a) := by
  have hrun := Reads.run_bind s x.run (ExceptT.bindCont f)
  change Reads.run s (Reads.bind x.run (ExceptT.bindCont f)) = _
  rw [hrun]
  unfold atomically
  cases Reads.run s x.run with
  | ok a => rfl
  | error e => rfl

abbrev Outcome (κ ν ε : Type) := Except ε (Option (κ × ν))

inductive Thread (κ ν ε : Type) where
  | running (seen : List κ) (todo : Reads κ ν (Outcome κ ν ε))
  | finished (outcome : Outcome κ ν ε)

/-- The store, the transactions, and which of them were accepted, in the order of their writes. -/
structure Pool (κ ν ε : Type) where
  store : κ → Option ν
  threads : ℕ → Thread κ ν ε
  accepted : List ℕ

variable [DecidableEq κ]

def apply (s : κ → Option ν) : Outcome κ ν ε → κ → Option ν
  | .ok (some (k, x)) => Function.update s k (some x)
  | .ok none => s
  | .error _ => s

def enlist (accepted : List ℕ) (i : ℕ) : Outcome κ ν ε → List ℕ
  | .ok _ => accepted ++ [i]
  | .error _ => accepted

namespace Pool

def start (s : κ → Option ν) (progs : ℕ → Reads κ ν (Outcome κ ν ε)) : Pool κ ν ε :=
  ⟨s, fun i => .running [] (progs i), []⟩

def step (c : Pool κ ν ε) (i : ℕ) : Pool κ ν ε :=
  match c.threads i with
  | .running seen (.get k cont) =>
    { c with threads := Function.update c.threads i (.running (k :: seen) (cont (c.store k))) }
  | .running _ (.ret outcome) =>
    { store := apply c.store outcome
      threads := Function.update c.threads i (.finished outcome)
      accepted := enlist c.accepted i outcome }
  | .finished _ => c

end Pool

def alone (progs : ℕ → Reads κ ν (Outcome κ ν ε)) (s : κ → Option ν) (i : ℕ) : κ → Option ν :=
  apply s ((progs i).run s)

/-- The pool is where the transactions of `order`, run one after the other, lead: these are the
accepted ones, and each ended as it does when its turn comes. -/
structure LinearizedBy (progs : ℕ → Reads κ ν (Outcome κ ν ε)) (s : κ → Option ν) (order : List ℕ)
    (c : Pool κ ν ε) : Prop where
  nodup : order.Nodup
  accepted : ∀ i, i ∈ order ↔ ∃ w, c.threads i = .finished (.ok w)
  store : c.store = Machine.run (alone progs) s order
  outcome : ∀ before i after, order = before ++ i :: after →
    c.threads i = .finished ((progs i).run (Machine.run (alone progs) s before))

def Linearizable (progs : ℕ → Reads κ ν (Outcome κ ν ε)) (s : κ → Option ν) (sched : List ℕ) :
    Prop :=
  ∃ order, ∀ js, js <+: sched → ∃ done, done <+: order ∧
    LinearizedBy progs s done (Machine.run Pool.step (Pool.start s progs) js)

def Thread.Pending (t : Thread κ ν ε) (seen : List κ) : Prop :=
  ∃ todo, t = .running seen todo ∧ ∀ e, todo ≠ .ret (.error e)

/-- If the next step of `i` changes what is stored under a key, no other transaction that is not
refused already has read that key and is still to write. -/
def Pool.Undisturbing (c : Pool κ ν ε) (i : ℕ) : Prop :=
  ∀ seen k x, c.threads i = .running seen (.ret (.ok (some (k, x)))) → c.store k ≠ some x →
    ∀ j, j ≠ i → ∀ seen', (c.threads j).Pending seen' → k ∉ seen'

inductive Follows (s : κ → Option ν) (prog : Reads κ ν α) : List κ → Reads κ ν α → Prop
  | start : Follows s prog [] prog
  | get {seen : List κ} {k : κ} {cont : Option ν → Reads κ ν α}
      (h : Follows s prog seen (.get k cont)) : Follows s prog (k :: seen) (cont (s k))

omit [DecidableEq κ] in
variable {seen : List κ}

theorem Follows.run_eq {s : κ → Option ν} {prog todo : Reads κ ν α} (h : Follows s prog seen todo)
    : prog.run s = todo.run s := by
  induction h with
  | start => rfl
  | get h ih => exact ih

omit [DecidableEq κ] in
theorem Follows.of_agree {s s' : κ → Option ν} {prog todo : Reads κ ν α}
    (h : Follows s prog seen todo) (hagree : ∀ k ∈ seen, s' k = s k) :
    Follows s' prog seen todo := by
  induction h with
  | start => exact .start
  | @get seen k cont h ih =>
    have hprev := ih fun k' hk' => hagree k' (List.mem_cons_of_mem _ hk')
    have hnext := Follows.get hprev
    rwa [hagree k (List.mem_cons_self ..)] at hnext

structure Consistent (progs : ℕ → Reads κ ν (Outcome κ ν ε)) (s : κ → Option ν) (c : Pool κ ν ε) :
    Prop where
  order : LinearizedBy progs s c.accepted c
  reads : ∀ j seen todo, c.threads j = .running seen todo → (∀ e, todo ≠ .ret (.error e)) →
    Follows c.store (progs j) seen todo

variable {progs : ℕ → Reads κ ν (Outcome κ ν ε)} {s : κ → Option ν} {c : Pool κ ν ε} {i : ℕ}

theorem consistent_start : Consistent progs s (Pool.start s progs) where
  order := by
    refine ⟨List.nodup_nil, fun i => ?_, rfl, fun before i after h => ?_⟩
    · constructor
      · intro h
        cases h
      · rintro ⟨w, h⟩
        cases h
    · cases (List.append_ne_nil_of_right_ne_nil before (List.cons_ne_nil i after)).symm h
  reads := by
    intro j seen todo h _
    cases h
    exact .start

theorem step_get {k : κ} {cont : Option ν → Reads κ ν (Outcome κ ν ε)}
    (h : c.threads i = .running seen (.get k cont)) : c.step i =
      { c with threads := Function.update c.threads i (.running (k :: seen) (cont (c.store k)))
        } := by
  unfold Pool.step
  rw [h]

variable {outcome : Outcome κ ν ε}

theorem step_ret (h : c.threads i = .running seen (.ret outcome)) : c.step i =
      { store := apply c.store outcome
        threads := Function.update c.threads i (.finished outcome)
        accepted := enlist c.accepted i outcome } := by
  unfold Pool.step
  rw [h]

theorem step_finished (h : c.threads i = .finished outcome) :
    c.step i = c := by
  unfold Pool.step
  rw [h]

omit [DecidableEq κ] in
theorem undisturbing_of_get {k : κ} {cont : Option ν → Reads κ ν (Outcome κ ν ε)}
    (h : c.threads i = .running seen (.get k cont)) : c.Undisturbing i := by
  intro seen' k' x hret
  rw [h] at hret
  cases hret

theorem Consistent.get (h : Consistent progs s c) {k : κ}
    {cont : Option ν → Reads κ ν (Outcome κ ν ε)} (hi : c.threads i = .running seen (.get k cont)) :
    Consistent progs s (c.step i) := by
  rw [step_get hi]
  have hold : ∀ j outcome, (Function.update c.threads i
      (.running (k :: seen) (cont (c.store k)))) j = .finished outcome ↔
      c.threads j = .finished outcome := by
    intro j outcome
    by_cases hj : j = i
    · subst hj
      simp [hi]
    · rw [Function.update_of_ne hj]
  refine ⟨⟨h.order.nodup, ?_, h.order.store, ?_⟩, ?_⟩
  · intro j
    simp only [h.order.accepted j, hold]
  · intro before j after heq
    exact (hold j _).mpr (h.order.outcome before j after heq)
  · intro j seen' todo hj hpending
    dsimp only at hj ⊢
    by_cases hji : j = i
    · subst hji
      rw [Function.update_self] at hj
      cases hj
      exact .get (h.reads j seen (.get k cont) hi (fun e => by simp))
    · rw [Function.update_of_ne hji] at hj
      exact h.reads j seen' todo hj hpending

theorem Pool.Undisturbing.agree (h : c.Undisturbing i)
    (hi : c.threads i = .running seen (.ret outcome)) {j : ℕ} (hj : j ≠ i) {seen' : List κ}
    (hpending : (c.threads j).Pending seen') : ∀ k ∈ seen', apply c.store outcome k =
    c.store k := by
  intro k hk
  match outcome, hi with
  | .error e, _ => rfl
  | .ok none, _ => rfl
  | .ok (some (k', x)), hi =>
    by_cases hsame : c.store k' = some x
    · change Function.update c.store k' (some x) k = c.store k
      rw [← hsame, Function.update_eq_self]
    · have hunread := h seen k' x hi hsame j hj seen' hpending
      have hne : k ≠ k' := by
        rintro rfl
        exact hunread hk
      exact Function.update_of_ne hne _ _

theorem LinearizedBy.refuse {order : List ℕ} (h : LinearizedBy progs s order c) (hi : i ∉ order)
    (e : ε) : LinearizedBy progs s order
      ⟨c.store, Function.update c.threads i (.finished (.error e)), order⟩ where
  nodup := h.nodup
  accepted := by
    intro j
    dsimp only
    by_cases hji : j = i
    · subst hji
      simp [hi]
    · rw [Function.update_of_ne hji]
      exact h.accepted j
  store := h.store
  outcome := by
    intro before j after heq
    have hji : j ≠ i := by
      rintro rfl
      exact hi (by simp [heq])
    dsimp only
    rw [Function.update_of_ne hji]
    exact h.outcome before j after heq

theorem LinearizedBy.accept {order : List ℕ} (h : LinearizedBy progs s order c) (hi : i ∉ order)
    {w : Option (κ × ν)} (hrun : (progs i).run c.store = .ok w) :
    LinearizedBy progs s (order ++ [i])
      ⟨apply c.store (.ok w : Outcome κ ν ε), Function.update c.threads i (.finished (.ok w)),
        order ++ [i]⟩ where
  nodup := by
    refine List.nodup_append.mpr ⟨h.nodup, List.nodup_singleton i, ?_⟩
    rintro a ha b hb rfl
    exact hi (List.mem_singleton.mp hb ▸ ha)
  accepted := by
    intro j
    dsimp only
    by_cases hji : j = i
    · subst hji
      simp
    · rw [Function.update_of_ne hji, ← h.accepted j]
      simp [hji]
  store := by
    dsimp only
    rw [Machine.run_append, ← h.store, ← hrun]
    rfl
  outcome := by
    intro before j after heq
    dsimp only
    -- the last of the order is the new one, the others were there
    rcases List.eq_nil_or_concat after with rfl | ⟨after', last, rfl⟩
    · obtain ⟨rfl, hlast⟩ := List.append_inj' heq rfl
      cases hlast
      rw [Function.update_self, ← h.store, hrun]
    · rw [List.concat_eq_append, ← List.cons_append, ← List.append_assoc] at heq
      obtain ⟨hinit, -⟩ := List.append_inj' heq rfl
      have hji : j ≠ i := by
        rintro rfl
        exact hi (by simp [hinit])
      rw [Function.update_of_ne hji]
      exact h.outcome before j after' hinit

theorem Consistent.ret (h : Consistent progs s c) (hi : c.threads i = .running seen (.ret outcome))
    (hclear : c.Undisturbing i) :
    Consistent progs s (c.step i) := by
  have hreads : ∀ j seen' todo, (c.step i).threads j = .running seen' todo →
      (∀ e, todo ≠ .ret (.error e)) → Follows (c.step i).store (progs j) seen' todo := by
    intro j seen' todo hj hpending
    rw [step_ret hi] at hj ⊢
    dsimp only at hj ⊢
    by_cases hji : j = i
    · subst hji
      rw [Function.update_self] at hj
      cases hj
    · rw [Function.update_of_ne hji] at hj
      exact (h.reads j seen' todo hj hpending).of_agree (hclear.agree hi hji ⟨todo, hj, hpending⟩)
  have hfresh : i ∉ c.accepted := by
    rw [h.order.accepted i, hi]
    rintro ⟨w, hw⟩
    cases hw
  refine ⟨?_, hreads⟩
  rw [step_ret hi]
  match outcome, hi with
  | .error e, _ => exact h.order.refuse hfresh e
  | .ok w, hi =>
    -- run alone on the store it writes to, the transaction does just this
    have hrun : (progs i).run c.store = .ok w :=
      (h.reads i seen (.ret (.ok w)) hi (fun e => by simp)).run_eq
    exact h.order.accept hfresh hrun

theorem Consistent.step (h : Consistent progs s c) (hclear : c.Undisturbing i) :
    Consistent progs s (c.step i) := by
  match hi : c.threads i with
  | .running seen (.get k cont) => exact h.get hi
  | .running seen (.ret outcome) => exact h.ret hi hclear
  | .finished outcome => rwa [step_finished hi]

theorem Consistent.store_step (h : Consistent progs s c) (i : ℕ) :
    (c.step i).store = c.store ∨ (c.step i).store = alone progs c.store i := by
  match hi : c.threads i with
  | .running seen (.get k cont) =>
    rw [step_get hi]
    exact .inl rfl
  | .running seen (.ret (.error e)) =>
    rw [step_ret hi]
    exact .inl rfl
  | .running seen (.ret (.ok w)) =>
    have hrun : (progs i).run c.store = .ok w :=
      (h.reads i seen (.ret (.ok w)) hi (fun e => by simp)).run_eq
    rw [step_ret hi]
    unfold alone
    rw [hrun]
    exact .inr rfl
  | .finished outcome =>
    rw [step_finished hi]
    exact .inl rfl

theorem accepted_prefix_step (c : Pool κ ν ε) (i : ℕ) : c.accepted <+: (c.step i).accepted := by
  unfold Pool.step
  split
  · exact List.prefix_rfl
  · next outcome _ =>
    cases outcome with
    | ok w => exact List.prefix_append _ _
    | error e => exact List.prefix_rfl
  · exact List.prefix_rfl

theorem accepted_prefix_run (c : Pool κ ν ε) (is : List ℕ) :
    c.accepted <+: (Machine.run Pool.step c is).accepted := by
  induction is generalizing c with
  | nil => exact List.prefix_rfl
  | cons i is ih => exact (accepted_prefix_step c i).trans (ih (c.step i))

theorem consistent_throughout {sched : List ℕ}
    (h : Machine.Along Pool.step Pool.Undisturbing (Pool.start s progs) sched) :
    Machine.Throughout Pool.step (Consistent progs s) (Pool.start s progs) sched :=
  Machine.throughout_of_along consistent_start (fun _ _ hc hclear => hc.step hclear) h

theorem linearizable_of_undisturbing {sched : List ℕ}
    (h : Machine.Along Pool.step Pool.Undisturbing (Pool.start s progs) sched) :
    Linearizable progs s sched := by
  refine ⟨(Machine.run Pool.step (Pool.start s progs) sched).accepted, ?_⟩
  intro js hjs
  have hconsistent := Machine.throughout_iff.mp (consistent_throughout h) js hjs
  refine ⟨(Machine.run Pool.step (Pool.start s progs) js).accepted, ?_, hconsistent.order⟩
  obtain ⟨ks, rfl⟩ := hjs
  rw [Machine.run_append]
  exact accepted_prefix_run _ ks

end Interleave
