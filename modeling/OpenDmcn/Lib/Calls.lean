import Mathlib.Data.List.Basic

/-! Programs of calls, each of which may fail before or after it has taken effect, on a device that
may die at any of them. The state is the log of the calls made; what a call answers is a function of
it. -/

inductive Fate where
  | ok
  | fails (took : Bool)
  | dies (took : Bool)
  deriving DecidableEq

def Fate.took : Fate → Bool
  | ok => true
  | fails took => took
  | dies took => took

structure Event (C : Type) where
  call : C
  fate : Fate

inductive Outcome (α : Type) where
  | returned (a : α)
  | threw
  | died

def Outcome.done {α : Type} : Outcome α → Bool
  | returned _ => true
  | _ => false

def Calls (C α : Type) := List (Event C) → List Fate → Outcome α × List (Event C) × List Fate

namespace Calls

variable {C α β : Type}

def bind (m : Calls C α) (f : α → Calls C β) : Calls C β := fun log fates =>
  match m log fates with
  | (.returned a, log, fates) => f a log fates
  | (.threw, log, fates) => (.threw, log, fates)
  | (.died, log, fates) => (.died, log, fates)

instance : Monad (Calls C) where
  pure a := fun log fates => (.returned a, log, fates)
  bind := bind

def throw : Calls C α := fun log fates => (.threw, log, fates)

def ask (c : C) (answer : List (Event C) → α) : Calls C α := fun log fates =>
  match fates with
  | [] => (.died, log, [])
  | .ok :: fates => (.returned (answer log), log ++ [⟨c, .ok⟩], fates)
  | .fails took :: fates => (.threw, log ++ [⟨c, .fails took⟩], fates)
  | .dies took :: fates => (.died, log ++ [⟨c, .dies took⟩], fates)

def call (c : C) : Calls C Unit := ask c fun _ => ()

def tryCatch (m handler : Calls C α) : Calls C α := fun log fates =>
  match m log fates with
  | (.threw, log, fates) => handler log fates
  | r => r

def optional (given : Bool) (m : Calls C Unit) : Calls C Unit := if given then m else pure ()

def Triple (P : List (Event C) → Prop) (m : Calls C α) (Q : α → List (Event C) → Prop)
    (R : List (Event C) → Prop) : Prop :=
  ∀ log fates, P log →
    match m log fates with
    | (.returned a, log', _) => Q a log'
    | (_, log', _) => R log'

variable {P P' : List (Event C) → Prop} {Q : α → List (Event C) → Prop}
  {Q' : β → List (Event C) → Prop}
  {R R' : List (Event C) → Prop}

theorem Triple.pure {a : α} (h : ∀ log, P log → Q a log) : Triple P (Pure.pure a) Q R :=
  fun log _ hP => h log hP

theorem Triple.throw (h : ∀ log, P log → R log) : Triple P (Calls.throw : Calls C α) Q R :=
  fun log _ hP => h log hP

theorem Triple.bind {m : Calls C α} {f : α → Calls C β} (hm : Triple P m Q R)
    (hf : ∀ a, Triple (Q a) (f a) Q' R) :
    Triple P (m >>= f) Q' R := by
  intro log fates hP
  have hfirst := hm log fates hP
  change match Calls.bind m f log fates with
    | (.returned a, log', _) => Q' a log'
    | (_, log', _) => R log'
  unfold Calls.bind
  match hrun : m log fates with
  | (.returned a, log', fates') =>
    rw [hrun] at hfirst
    exact hf a log' fates' hfirst
  | (.threw, log', fates') =>
    rw [hrun] at hfirst
    exact hfirst
  | (.died, log', fates') =>
    rw [hrun] at hfirst
    exact hfirst

theorem Triple.weaken {m : Calls C α} (hm : Triple P m Q R) (h : ∀ log, P' log → P log) :
    Triple P' m Q R :=
  fun log fates hP => hm log fates (h log hP)

theorem Triple.strengthen {m : Calls C α} {Q₁ : α → List (Event C) → Prop} (hm : Triple P m Q₁ R')
    (h : ∀ a log, Q₁ a log → Q a log) (hR : ∀ log, R' log → R log) : Triple P m Q R := by
  intro log fates hP
  have hend := hm log fates hP
  match hrun : m log fates with
  | (.returned a, log', fates') =>
    rw [hrun] at hend
    exact h a log' hend
  | (.threw, log', fates') =>
    rw [hrun] at hend
    exact hR log' hend
  | (.died, log', fates') =>
    rw [hrun] at hend
    exact hR log' hend

theorem Triple.ask {c : C} {answer : List (Event C) → α} (hlog : ∀ log, P log → R log)
    (hevent : ∀ log fate, P log → R (log ++ [⟨c, fate⟩]))
    (hok : ∀ log, P log → Q (answer log) (log ++ [⟨c, .ok⟩])) :
    Triple P (Calls.ask c answer) Q R := by
  intro log fates hP
  match fates with
  | [] => exact hlog log hP
  | .ok :: fates => exact hok log hP
  | .fails took :: fates => exact hevent log (.fails took) hP
  | .dies took :: fates => exact hevent log (.dies took) hP

theorem Triple.tryCatch {m handler : Calls C α} (hm : Triple P m Q R')
    (hhandler : Triple R' handler Q R) (hR : ∀ log, R' log → R log) :
    Triple P (Calls.tryCatch m handler) Q R := by
  intro log fates hP
  have hfirst := hm log fates hP
  unfold Calls.tryCatch
  match hrun : m log fates with
  | (.returned a, log', fates') =>
    rw [hrun] at hfirst
    exact hfirst
  | (.threw, log', fates') =>
    rw [hrun] at hfirst
    exact hhandler log' fates' hfirst
  | (.died, log', fates') =>
    rw [hrun] at hfirst
    exact hR log' hfirst

theorem Triple.optional {given : Bool} {m : Calls C Unit} {Q : Unit → List (Event C) → Prop}
    (hm : given = true → Triple P m Q R) (hnone : given = false → ∀ log, P log → Q () log) :
    Triple P (Calls.optional given m) Q R := by
  cases given with
  | true => exact hm rfl
  | false => exact Triple.pure (hnone rfl)

theorem Triple.of_fact {p : Prop} {m : Calls C α} (h : p → Triple P m Q R) :
    Triple (fun log => p ∧ P log) m Q R :=
  fun log fates hP => h hP.1 log fates hP.2

theorem Triple.run {m : Calls C α} (hm : Triple P m Q R) (hQ : ∀ a log, Q a log → R log)
    {log : List (Event C)} (hP : P log) (fates : List Fate) :
    R (m log fates).2.1 ∧ ((m log fates).1.done = true → ∃ a, Q a (m log fates).2.1) := by
  have hend := hm log fates hP
  match hrun : m log fates with
  | (.returned a, log', fates') =>
    rw [hrun] at hend
    exact ⟨hQ a log' hend, fun _ => ⟨a, hend⟩⟩
  | (.threw, log', fates') =>
    rw [hrun] at hend
    exact ⟨hend, fun h => absurd h (by simp [Outcome.done])⟩
  | (.died, log', fates') =>
    rw [hrun] at hend
    exact ⟨hend, fun h => absurd h (by simp [Outcome.done])⟩

def Stays (F : List (Event C) → Prop) : Prop := ∀ log e, F log → F (log ++ [e])

theorem Stays.and {F G : List (Event C) → Prop} (hF : Stays F) (hG : Stays G) : Stays fun log =>
  F log ∧ G log :=
  fun log e h => ⟨hF log e h.1, hG log e h.2⟩

theorem Stays.or {F G : List (Event C) → Prop} (hF : Stays F) (hG : Stays G) : Stays fun log =>
  F log ∨ G log :=
  fun log e h => h.imp (hF log e) (hG log e)

theorem Stays.imp {p : Prop} {F : List (Event C) → Prop} (hF : Stays F) : Stays fun log =>
  p → F log :=
  fun log e h hp => hF log e (h hp)

theorem stays_fact (p : Prop) : Stays fun _ : List (Event C) => p := fun _ _ h => h

def Each (may : List (Event C) → Event C → Prop) (log : List (Event C)) : Prop :=
  ∀ before e after, log = before ++ e :: after → may before e

theorem each_nil (may : List (Event C) → Event C → Prop) : Each may [] := by
  intro before e after h
  cases before with
  | nil => cases h
  | cons e' before => cases h

theorem Each.append {may : List (Event C) → Event C → Prop} {log : List (Event C)} {e : Event C}
    (h : Each may log) (he : may log e) : Each may (log ++ [e]) := by
  intro before e' after hlog
  rcases List.eq_nil_or_concat after with rfl | ⟨rest, last, rfl⟩
  · obtain ⟨rfl, hlast⟩ := List.append_inj' hlog rfl
    obtain rfl : e = e' := List.cons.inj hlast |>.1
    exact he
  · rw [List.concat_eq_append, ← List.cons_append, ← List.append_assoc] at hlog
    exact h before e' rest (List.append_inj' hlog rfl).1

end Calls
