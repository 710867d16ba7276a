import Mathlib.Data.List.Infix
import Mathlib.Order.Basic

/-! Runs of a deterministic machine: a step function folded over a list of inputs. `Along` says
what every step of a run meets, `Throughout` what every state it passes through satisfies. -/

namespace Machine

variable {σ ι : Type} (step : σ → ι → σ)

def run (s : σ) (is : List ι) : σ := is.foldl step s

def Along (P : σ → ι → Prop) : σ → List ι → Prop
  | _, [] => True
  | s, i :: is => P s i ∧ Along P (step s i) is

instance decidableAlong {P : σ → ι → Prop} [∀ s i, Decidable (P s i)] :
    (s : σ) → (is : List ι) → Decidable (Along step P s is)
  | _, [] => isTrue trivial
  | s, i :: is => @instDecidableAnd (P s i) (Along step P (step s i) is) inferInstance
    (decidableAlong (step s i) is)

def Throughout (Q : σ → Prop) : σ → List ι → Prop
  | s, [] => Q s
  | s, i :: is => Q s ∧ Throughout Q (step s i) is

def Reachable (init s : σ) : Prop := ∃ is, run step init is = s

variable {step} {P P' : σ → ι → Prop} {Q Q' : σ → Prop}

@[simp] theorem run_nil (s : σ) : run step s [] = s := rfl

@[simp] theorem run_cons (s : σ) (i : ι) (is : List ι) :
    run step s (i :: is) = run step (step s i) is := rfl

theorem run_append (s : σ) (is js : List ι) :
    run step s (is ++ js) = run step (run step s is) js := List.foldl_append

variable {s : σ} {is : List ι}

theorem Throughout.head (h : Throughout step Q s is) : Q s := by
  cases is with
  | nil => exact h
  | cons i is => exact h.1

theorem Throughout.last (h : Throughout step Q s is) : Q (run step s is) := by
  induction is generalizing s with
  | nil => exact h
  | cons i is ih => exact ih h.2

theorem throughout_iff :
    Throughout step Q s is ↔ ∀ js, js <+: is → Q (run step s js) := by
  induction is generalizing s with
  | nil => simp [Throughout, List.prefix_nil]
  | cons i is ih =>
    simp only [Throughout, ih]
    constructor
    · rintro ⟨hs, hrest⟩ js hjs
      rcases List.prefix_cons_iff.mp hjs with rfl | ⟨ks, rfl, hks⟩
      · exact hs
      · exact hrest ks hks
    · intro h
      exact ⟨h [] List.nil_prefix, fun js hjs => h (i :: js) (List.cons_prefix_cons.mpr ⟨rfl, hjs⟩)⟩

/-- The invariant rule: what holds first and is kept by every step that meets `P` holds
throughout a run that meets `P`. -/
theorem throughout_of_along (hs : Q s) (hstep : ∀ s i, Q s → P s i → Q (step s i))
    (h : Along step P s is) :
    Throughout step Q s is := by
  induction is generalizing s with
  | nil => exact hs
  | cons i is ih => exact ⟨hs, ih (hstep s i hs h.1) h.2⟩

theorem along_of_throughout (hstep : ∀ s i, Q s → Q (step s i) → P s i)
    (h : Throughout step Q s is) :
    Along step P s is := by
  induction is generalizing s with
  | nil => trivial
  | cons i is ih => exact ⟨hstep s i h.1 h.2.head, ih h.2⟩

theorem along_cons {i : ι} (h : P s i) :
    Along step P s (i :: is) ↔ Along step P (step s i) is := and_iff_right h

theorem along_append {is js : List ι} :
    Along step P s (is ++ js) ↔ Along step P s is ∧ Along step P (run step s is) js := by
  induction is generalizing s with
  | nil => simp [Along]
  | cons i is ih =>
    change P s i ∧ Along step P (step s i) (is ++ js) ↔ _
    rw [ih, ← and_assoc]
    rfl

theorem Along.imp (h : ∀ s i, P s i → P' s i) (hP : Along step P s is) :
    Along step P' s is := by
  induction is generalizing s with
  | nil => trivial
  | cons i is ih => exact ⟨h s i hP.1, ih hP.2⟩

theorem Along.and (hP : Along step P s is) (hP' : Along step P' s is) :
    Along step (fun s i => P s i ∧ P' s i) s is := by
  induction is generalizing s with
  | nil => trivial
  | cons i is ih => exact ⟨⟨hP.1, hP'.1⟩, ih hP.2 hP'.2⟩

theorem Throughout.imp (h : ∀ s, Q s → Q' s) (hQ : Throughout step Q s is) :
    Throughout step Q' s is := by
  rw [throughout_iff] at hQ ⊢
  exact fun js hjs => h _ (hQ js hjs)

/-- The exactness rule: where `P` is just what it takes for a step of the run to keep `Q`, a run
keeps `Q` exactly when all its steps meet `P`. -/
theorem throughout_iff_along_of_steps {R : σ → ι → Prop} (hR : Along step R s is) (hs : Q s)
    (hstep : ∀ s i, R s i → Q s → (Q (step s i) ↔ P s i)) :
    Throughout step Q s is ↔ Along step P s is := by
  induction is generalizing s with
  | nil => exact ⟨fun _ => trivial, fun _ => hs⟩
  | cons i is ih =>
    have hnext := hstep s i hR.1 hs
    constructor
    · rintro ⟨-, hrest⟩
      exact ⟨hnext.mp hrest.head, (ih hR.2 hrest.head).mp hrest⟩
    · rintro ⟨hi, hrest⟩
      exact ⟨hs, (ih hR.2 (hnext.mpr hi)).mpr hrest⟩

theorem throughout_le {β : Type} [Preorder β] (f : σ → β)
    (hstep : ∀ s i, P s i → f s ≤ f (step s i)) (h : Along step P s is) :
    Throughout step (fun t => f s ≤ f t) s is :=
  throughout_of_along le_rfl (fun t i ht hP => ht.trans (hstep t i hP)) h

theorem map_run {τ : Type} {step' : τ → ι → τ} (f : σ → τ)
    (hstep : ∀ s i, f (step s i) = step' (f s) i) (s : σ) (is : List ι) :
    f (run step s is) = run step' (f s) is := by
  induction is generalizing s with
  | nil => rfl
  | cons i is ih =>
    rw [run_cons, run_cons, ih, hstep]

variable {I : σ → Prop}

theorem Along.of_throughout (hI : Throughout step I s is) (hstep : ∀ s i, I s → P s i)
    : Along step P s is := by
  induction is generalizing s with
  | nil => trivial
  | cons i is ih => exact ⟨hstep s i hI.1, ih hI.2⟩

theorem throughout_iff_along (hI : Throughout step I s is) (hs : Q s)
    (hstep : ∀ s i, I s → Q s → (Q (step s i) ↔ P s i)) :
    Throughout step Q s is ↔ Along step P s is :=
  throughout_iff_along_of_steps (Along.of_throughout hI fun _ _ h => h) hs hstep

theorem throughout_iff_along_of_kept (hI : I s) (hs : Q s)
    (hstep : ∀ s i, I s → Q s → (Q (step s i) ↔ P s i))
    (hkept : ∀ s i, I s → Q s → P s i → I (step s i)) :
    Throughout step Q s is ↔ Along step P s is := by
  induction is generalizing s with
  | nil => exact ⟨fun _ => trivial, fun _ => hs⟩
  | cons i is ih =>
    have hnext := hstep s i hI hs
    constructor
    · rintro ⟨-, hrest⟩
      have hP := hnext.mp hrest.head
      exact ⟨hP, (ih (hkept s i hI hs hP) hrest.head).mp hrest⟩
    · rintro ⟨hP, hrest⟩
      exact ⟨hs, (ih (hkept s i hI hs hP) (hnext.mpr hP)).mpr hrest⟩

/-- The exactness rule for what is seen of an invariant: where the steps that meet `P` keep the
invariant, and any other is seen to lose it, it is seen throughout a run exactly when all the steps
meet `P`. -/
theorem throughout_iff_along_of_seen {R : σ → ι → Prop} (hR : Along step R s is) (hI : I s)
    (hseen : ∀ s, I s → Q s) (hkept : ∀ s i, R s i → I s → P s i → I (step s i))
    (hlost : ∀ s i, R s i → I s → ¬ P s i →
      ¬ Q (step s i)) : Throughout step Q s is ↔ Along step P s is := by
  induction is generalizing s with
  | nil => exact ⟨fun _ => trivial, fun _ => hseen s hI⟩
  | cons i is ih =>
    constructor
    · rintro ⟨-, hrest⟩
      have hP : P s i := by
        by_contra hnot
        exact hlost s i hR.1 hI hnot hrest.head
      exact ⟨hP, (ih hR.2 (hkept s i hR.1 hI hP)).mp hrest⟩
    · rintro ⟨hP, hrest⟩
      exact ⟨hseen s hI, (ih hR.2 (hkept s i hR.1 hI hP)).mpr hrest⟩

theorem throughout_of_invariant (hs : Q s) (hstep : ∀ s i, Q s → Q (step s i)) :
    Throughout step Q s is := by
  induction is generalizing s with
  | nil => exact hs
  | cons i is ih => exact ⟨hs, ih (hstep s i hs)⟩

theorem along_of_mem (h : ∀ i ∈ is, ∀ s, P s i) : Along step P s is := by
  induction is generalizing s with
  | nil => trivial
  | cons i is ih =>
    exact ⟨h i (List.mem_cons_self ..) s, ih fun j hj => h j (List.mem_cons_of_mem _ hj)⟩

theorem Along.mono (hI : Throughout step I s is) (h : ∀ s i, I s → P s i → P' s i)
    (hP : Along step P s is) : Along step P' s is := by
  induction is generalizing s with
  | nil => trivial
  | cons i is ih => exact ⟨h s i hI.1 hP.1, ih hI.2 hP.2⟩

theorem along_congr (hI : Throughout step I s is) (h : ∀ s i, I s → (P s i ↔ P' s i))
    : Along step P s is ↔ Along step P' s is :=
  ⟨Along.mono hI fun s i hs => (h s i hs).mp, Along.mono hI fun s i hs => (h s i hs).mpr⟩

theorem le_run {β : Type} [Preorder β] {f : σ → β} (hstep : ∀ s i, f s ≤ f (step s i)) (s : σ)
    (is : List ι) : f s ≤ f (run step s is) := by
  induction is generalizing s with
  | nil => exact le_rfl
  | cons i is ih => exact (hstep s i).trans (ih (step s i))

theorem exists_step_of_run (hfirst : ¬ Q s) (hlast : Q (run step s is)) :
    ∃ before i after, is = before ++ i :: after ∧ ¬ Q (run step s before) ∧
      Q (step (run step s before) i) := by
  induction is generalizing s with
  | nil => exact absurd hlast hfirst
  | cons i is ih =>
    by_cases hnext : Q (step s i)
    · exact ⟨[], i, is, rfl, hfirst, hnext⟩
    · obtain ⟨before, j, after, rfl, hno, hyes⟩ := ih hnext hlast
      exact ⟨i :: before, j, after, rfl, hno, hyes⟩

/-- Any two states of a run are related, the earlier to the later, exactly when each step relates
its state to the next. -/
theorem along_iff_related {R : σ → σ → Prop} (hrefl : ∀ s, R s s)
    (htrans : ∀ s t u, R s t → R t u → R s u) :
    Along step (fun s i => R s (step s i)) s is ↔
      ∀ js ks, js ++ ks <+: is → R (run step s js) (run step s (js ++ ks)) := by
  induction is generalizing s with
  | nil =>
    refine ⟨fun _ js ks h => ?_, fun _ => trivial⟩
    obtain ⟨rfl, rfl⟩ := List.append_eq_nil_iff.mp (List.prefix_nil.mp h)
    exact hrefl s
  | cons i is ih =>
    constructor
    · rintro ⟨hstep, hrest⟩ js ks hpre
      have hlater := ih.mp hrest
      cases js with
      | cons j js =>
        obtain ⟨rfl, hrun⟩ := List.cons_prefix_cons.mp hpre
        exact hlater js ks hrun
      | nil =>
        cases ks with
        | nil => exact hrefl s
        | cons k ks =>
          obtain ⟨rfl, hrun⟩ := List.cons_prefix_cons.mp hpre
          exact htrans _ _ _ hstep (hlater [] ks hrun)
    · intro h
      refine ⟨h [] [i] (by simp), ih.mpr fun js ks hpre => ?_⟩
      exact h (i :: js) ks (List.cons_prefix_cons.mpr ⟨rfl, hpre⟩)

theorem Reachable.invariant {init s : σ} (h : Reachable step init s) (hinit : Q init)
    (hstep : ∀ s i, Q s → Q (step s i)) : Q s := by
  obtain ⟨is, rfl⟩ := h
  induction is generalizing init with
  | nil => exact hinit
  | cons i is ih => exact ih (hstep init i hinit)

theorem Reachable.next {init s : σ} (h : Reachable step init s) (i : ι) :
    Reachable step init (step s i) := by
  obtain ⟨is, rfl⟩ := h
  exact ⟨is ++ [i], by rw [run_append]; rfl⟩

end Machine
