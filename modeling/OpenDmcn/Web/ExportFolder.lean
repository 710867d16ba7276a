import OpenDmcn.Lib.Run
import OpenDmcn.Lib.Bytes
import Mathlib.Algebra.BigOperators.Group.List.Basic
import Mathlib.Data.List.Range
import Mathlib.Data.Prod.Lex
import Mathlib.Algebra.Order.BigOperators.Group.List
import Mathlib.Algebra.Order.Group.Nat
import Mathlib.Logic.Function.Basic

/-! Writing a folder out (`export/exportFolder.ts`): messages are opened ahead of the one that is
being written, and each is tried a few times. -/

namespace Dmcn.Web.ExportFolder

open Go (Bytes)

def WINDOW : ℕ := 2
def ATTEMPTS : ℕ := 3
def FAILURE_STREAK : ℕ := 5

variable {T σ : Type}

/-- What writes a message that was opened. It reads what the export keeps of the messages before,
and adds to it. -/
abbrev Render (σ : Type) := σ → List Bytes × σ

inductive Load (σ : Type) where
  | loading (attempt : ℕ)
  | sleeping (attempt : ℕ)
  | settled (got : Option (Render σ))

inductive Outcome where
  | done
  | aborted
  | stalled
  | failed
  deriving DecidableEq

inductive Phase where
  | next
  | waiting
  | writing (rest : List Bytes)
  | ended (outcome : Outcome)

structure ExportResult (T : Type) where
  written : ℕ
  bytes : ℕ
  skipped : List T

structure Written (T σ : Type) where
  file : List Bytes
  result : ExportResult T
  streak : ℕ
  kept : σ

def Written.start (kept : σ) : Written T σ := ⟨[], ⟨0, 0, []⟩, 0, kept⟩

def Written.put (w : Written T σ) (chunk : Bytes) : Written T σ :=
  { w with file := w.file ++ [chunk], result :=
    { w.result with bytes := w.result.bytes + chunk.length } }

def Written.one (w : Written T σ) : Written T σ :=
  { w with result := { w.result with written := w.result.written + 1 }, streak := 0 }

def Written.skip (w : Written T σ) (item : T) : Written T σ :=
  { w with result := { w.result with skipped := w.result.skipped ++ [item] }, streak := w.streak +
    1 }

structure State (T σ : Type) where
  i : ℕ
  phase : Phase
  loads : ℕ → Option (Load σ)
  aborted : Bool
  out : Written T σ

inductive Event where
  | answer (j : ℕ)
  | wake (j : ℕ)
  | turn
  | writeFails
  | abort

section Source

variable (items : List T) (answers : ℕ → ℕ → Option (Render σ))

def attempt (aborted : Bool) (k : ℕ) : Load σ := if aborted then .settled none else .loading k

def answered (k : ℕ) : Option (Render σ) → Load σ
  | some render => .settled (some render)
  | none => if k < ATTEMPTS then .sleeping k else .settled none

def start (aborted : Bool) (loads : ℕ → Option (Load σ)) (j : ℕ) : ℕ → Option (Load σ) :=
  if j < items.length ∧ loads j = none then Function.update loads j (some (attempt aborted 1))
    else loads

def turn (s : State T σ) : State T σ :=
  match s.phase with
  | .next =>
    if s.i < items.length then
      if s.aborted then { s with phase := .ended .aborted }
      else
        { s with
          loads := (List.range' s.i WINDOW).foldl (start items s.aborted) s.loads
          phase := .waiting }
    else { s with phase := .ended .done }
  | .waiting =>
    match s.loads s.i, items[s.i]? with
    | some (.settled got), some item =>
      let s := { s with loads := Function.update s.loads s.i none }
      if s.aborted then { s with phase := .ended .aborted }
      else match got with
        | some render =>
          { s with phase := .writing (render s.out.kept).1, out :=
            { s.out with kept := (render s.out.kept).2 } }
        | none =>
          let out := s.out.skip item
          if out.streak ≥ FAILURE_STREAK then { s with out := out, phase := .ended .stalled }
          else { s with out := out, i := s.i + 1, phase := .next }
    | _, _ => s
  | .writing (chunk :: rest) => { s with out := s.out.put chunk, phase := .writing rest }
  | .writing [] => { s with out := s.out.one, i := s.i + 1, phase := .next }
  | .ended _ => s

def step (s : State T σ) : Event → State T σ
  | .answer j =>
    match s.loads j with
    | some (.loading k) =>
      { s with loads := Function.update s.loads j (some (answered k (answers j k))) }
    | _ => s
  | .wake j =>
    match s.loads j with
    | some (.sleeping k) =>
      { s with loads := Function.update s.loads j (some (attempt s.aborted (k + 1))) }
    | _ => s
  | .turn => turn items s
  | .writeFails =>
    match s.phase with
    | .writing (_ :: _) => { s with phase := .ended .failed }
    | _ => s
  | .abort => { s with aborted := true }

def State.start (kept : σ) : State T σ := ⟨0, .next, fun _ => none, false, .start kept⟩

def opened (j : ℕ) : Option (Render σ) := (List.range ATTEMPTS).findSome? fun k => answers j (k + 1)

def Written.add (w : Written T σ) (item : T) : Option (Render σ) → Written T σ
  | some render => (((render w.kept).1.foldl Written.put { w with kept := (render w.kept).2 })).one
  | none => w.skip item

def plainFrom (w : Written T σ) (j : ℕ) : List T → Written T σ × Outcome
  | [] => (w, .done)
  | item :: rest =>
    let next := w.add item (opened answers j)
    if next.streak ≥ FAILURE_STREAK then (next, .stalled) else plainFrom next (j + 1) rest

def plain (kept : σ) : Written T σ × Outcome := plainFrom answers (.start kept) 0 items

end Source

section Plain

variable {items : List T} {answers : ℕ → ℕ → Option (Render σ)}

theorem plainFrom_append (w : Written T σ) (j : ℕ) (front rest : List T) :
    plainFrom answers w j (front ++ rest) =
      if (plainFrom answers w j front).2 = .done then
        plainFrom answers (plainFrom answers w j front).1 (j + front.length) rest
      else plainFrom answers w j front := by
  induction front generalizing w j with
  | nil => rfl
  | cons item front ih =>
    have hlength : j + (item :: front).length = j + 1 + front.length := by
      rw [List.length_cons]
      omega
    rw [List.cons_append, hlength, plainFrom, plainFrom]
    split
    · rfl
    · exact ih _ _

theorem plain_take_succ {w kept} {i : ℕ} {item : T}
    (h : plain (items.take i) answers kept = (w, .done)) (hitem : items[i]? = some item) :
    plain (items.take (i + 1)) answers kept =
      if (w.add item (opened answers i)).streak ≥ FAILURE_STREAK
      then (w.add item (opened answers i), .stalled)
      else (w.add item (opened answers i), .done) := by
  obtain ⟨hi, -⟩ := List.getElem?_eq_some_iff.mp hitem
  have hlength : (items.take i).length = i := List.length_take_of_le (Nat.le_of_lt hi)
  have htake : items.take (i + 1) = items.take i ++ [item] := by rw [List.take_add_one, hitem]; rfl
  unfold plain at h ⊢
  rw [htake, plainFrom_append, h, if_pos rfl, hlength, Nat.zero_add, plainFrom]
  rfl

theorem plain_of_stalled {w kept} {i : ℕ} (h : plain (items.take i) answers kept = (w, .stalled)) :
    plain items answers kept = (w, .stalled) := by
  have hend : Outcome.stalled ≠ .done := by decide
  unfold plain at h ⊢
  rw [← List.take_append_drop i items, plainFrom_append, h, if_neg hend]

theorem streak_add_some (w : Written T σ) (item : T) (render : Render σ) :
    (w.add item (some render)).streak = 0 := rfl

theorem opened_of_answer {j k : ℕ} {render : Render σ} (hk : 0 < k) (hlast : k ≤ ATTEMPTS)
    (hearlier : ∀ m, 0 < m → m < k → answers j m = none) (h : answers j k = some render) :
    opened answers j = some render := by
  obtain ⟨k, rfl⟩ := Nat.exists_eq_succ_of_ne_zero (Nat.ne_of_gt hk)
  obtain ⟨more, hmore⟩ := Nat.exists_eq_add_of_le hlast
  have hfront : (List.range k).findSome? (fun m => answers j (m + 1)) = none :=
    List.findSome?_eq_none_iff.mpr fun m hm =>
      hearlier _ (Nat.succ_pos m) (Nat.succ_lt_succ (List.mem_range.mp hm))
  unfold opened
  rw [hmore, Nat.succ_add, ← Nat.add_succ, List.range_add, List.findSome?_append, hfront,
    Option.none_or, List.range_succ_eq_map, List.map_cons, List.findSome?_cons, Nat.add_zero, h]

theorem opened_of_none {j : ℕ} (h : ∀ m, 0 < m → m ≤ ATTEMPTS → answers j m = none) :
    opened answers j = none :=
  List.findSome?_eq_none_iff.mpr fun m hm => h _ (Nat.succ_pos m) (List.mem_range.mp hm)

end Plain

section Runs

variable {items : List T} {answers : ℕ → ℕ → Option (Render σ)} {kept : σ}

def Right (answers : ℕ → ℕ → Option (Render σ)) (aborted : Bool) (j : ℕ) : Load σ → Prop
  | .loading k => 0 < k ∧ k ≤ ATTEMPTS ∧ ∀ m, 0 < m → m < k → answers j m = none
  | .sleeping k => k < ATTEMPTS ∧ ∀ m, 0 < m → m ≤ k → answers j m = none
  | .settled (some render) => opened answers j = some render
  | .settled none => aborted = true ∨ opened answers j = none

def Partly (answers : ℕ → ℕ → Option (Render σ)) (w : Written T σ) (i : ℕ) (rest : List Bytes)
    (out : Written T σ) :
    Prop :=
  ∃ render front, opened answers i = some render ∧ (render w.kept).1 = front ++ rest ∧
    out = front.foldl Written.put { w with kept := (render w.kept).2 }

def Level (items : List T) (answers : ℕ → ℕ → Option (Render σ)) (kept : σ) (w : Written T σ)
    (s : State T σ) : Prop :=
  match s.phase with
  | .next => s.out = w
  | .waiting => s.out = w ∧ s.i < items.length ∧ s.loads s.i ≠ none
  | .writing rest => Partly answers w s.i rest s.out ∧ s.i < items.length ∧ s.loads s.i = none
  | .ended .done => s.out = w ∧ s.i = items.length
  | .ended .aborted => s.out = w
  | .ended .stalled => plain (items.take (s.i + 1)) answers kept = (s.out, .stalled) ∧
    s.out.file = w.file
  | .ended .failed => ∃ rest, Partly answers w s.i rest s.out

structure Inv (items : List T) (answers : ℕ → ℕ → Option (Render σ)) (kept : σ) (s : State T σ) :
    Prop where
  level : ∃ w, plain (items.take s.i) answers kept = (w, .done) ∧ Level items answers kept w s
  bound : s.i ≤ items.length
  ahead : ∀ j, s.loads j ≠ none → s.i ≤ j ∧ j < s.i + WINDOW ∧ j < items.length
  right : ∀ j load, s.loads j = some load → Right answers s.aborted j load

theorem Inv.start : Inv items answers kept (State.start kept) := by
  refine ⟨⟨.start kept, rfl, rfl⟩, Nat.zero_le _, fun j hj => absurd rfl hj, fun j load hload => ?_⟩
  cases hload

theorem Inv.reload {s : State T σ} (h : Inv items answers kept s) {j : ℕ} {load next : Load σ}
    (hload : s.loads j = some load) (hnext : Right answers s.aborted j next) :
    Inv items answers kept { s with loads := Function.update s.loads j (some next) } := by
  have hnone : ∀ m, Function.update s.loads j (some next) m = none ↔ s.loads m = none := by
    intro m
    by_cases hm : m = j
    · rw [hm, Function.update_self, hload]
      exact iff_of_false (Option.some_ne_none _) (Option.some_ne_none _)
    · rw [Function.update_of_ne hm]
  obtain ⟨w, hplain, hlevel⟩ := h.level
  refine ⟨⟨w, hplain, ?_⟩, h.bound, fun m hm => h.ahead m fun hold => hm ((hnone m).mpr hold), ?_⟩
  · unfold Level at hlevel ⊢
    dsimp only
    split
    all_goals
      next hphase =>
        rw [hphase] at hlevel
        simpa only [ne_eq, hnone] using hlevel
  · intro m other hother
    dsimp only at hother
    by_cases hm : m = j
    · subst hm
      rw [Function.update_self] at hother
      rwa [← Option.some.inj hother]
    · rw [Function.update_of_ne hm] at hother
      exact h.right m other hother

theorem Right.answered {aborted : Bool} {j k : ℕ} (h : Right answers aborted j (.loading k)) :
    Right answers aborted j (answered k (answers j k)) := by
  obtain ⟨hk, hlast, hearlier⟩ := h
  cases hanswer : answers j k with
  | some render => exact opened_of_answer hk hlast hearlier hanswer
  | none =>
    have hall : ∀ m, 0 < m → m ≤ k → answers j m = none := by
      intro m hm hle
      rcases Nat.lt_or_eq_of_le hle with hlt | rfl
      · exact hearlier m hm hlt
      · exact hanswer
    unfold ExportFolder.answered
    dsimp only
    split
    · next hmore => exact ⟨hmore, hall⟩
    · next hend =>
        exact .inr (opened_of_none fun m hm hle => hall m hm (hle.trans (Nat.le_of_not_lt hend)))

theorem Right.attempt {aborted : Bool} {j k : ℕ} (hk : k < ATTEMPTS)
    (hearlier : ∀ m, 0 < m → m ≤ k → answers j m = none) :
    Right answers aborted j (attempt aborted (k + 1)) := by
  unfold ExportFolder.attempt
  split
  · next haborted => exact .inl haborted
  · exact ⟨Nat.succ_pos k, hk, fun m hm hlt => hearlier m hm (Nat.le_of_lt_succ hlt)⟩

theorem Right.mono {aborted : Bool} {j : ℕ} {load : Load σ} (h : Right answers aborted j load) :
    Right answers true j load := by
  unfold Right at h ⊢
  split
  all_goals
    next => first
      | exact .inl rfl
      | exact h

theorem foldl_start (aborted : Bool) (js : List ℕ) (loads : ℕ → Option (Load σ)) (j : ℕ) :
    js.foldl (ExportFolder.start items aborted) loads j =
      if loads j = none ∧ j ∈ js ∧ j < items.length then some (ExportFolder.attempt aborted 1)
      else loads j := by
  induction js generalizing loads with
  | nil => rw [List.foldl_nil, if_neg fun h => List.not_mem_nil h.2.1]
  | cons first js ih =>
    rw [List.foldl_cons, ih]
    unfold ExportFolder.start
    by_cases hstarts : first < items.length ∧ loads first = none
    · rw [if_pos hstarts]
      by_cases hj : j = first
      · subst hj
        rw [Function.update_self, if_neg fun h => Option.some_ne_none _ h.1,
          if_pos ⟨hstarts.2, List.mem_cons_self, hstarts.1⟩]
      · rw [Function.update_of_ne hj]
        simp only [List.mem_cons, hj, false_or]
    · rw [if_neg hstarts]
      by_cases hj : j = first
      · subst hj
        have hnone : ¬ (loads j = none ∧ j ∈ js ∧ j < items.length) := fun h => hstarts ⟨h.2.2, h.1⟩
        have hnone' : ¬ (loads j = none ∧ j ∈ j :: js ∧ j < items.length) :=
          fun h => hstarts ⟨h.2.2, h.1⟩
        rw [if_neg hnone, if_neg hnone']
      · simp only [List.mem_cons, hj, false_or]

theorem Inv.ahead_succ {s : State T σ} (h : Inv items answers kept s) {loads : ℕ → Option (Load σ)}
    (hsame : ∀ j, loads j ≠ none → s.loads j ≠ none) (hgone : loads s.i = none) :
    ∀ j, loads j ≠ none → s.i + 1 ≤ j ∧ j < s.i + 1 + WINDOW ∧ j < items.length := by
  intro j hj
  obtain ⟨hle, hlt, hlen⟩ := h.ahead j (hsame j hj)
  have hne : j ≠ s.i := by
    rintro rfl
    exact hj hgone
  exact ⟨by omega, by omega, hlen⟩

theorem Inv.turn {s : State T σ} (h : Inv items answers kept s) : Inv items answers kept
    (turn items s) := by
  obtain ⟨w, hplain, hlevel⟩ := h.level
  unfold Level at hlevel
  unfold ExportFolder.turn
  split
  · next hphase =>
    rw [hphase] at hlevel
    dsimp only at hlevel
    split
    · next hmore =>
      split
      · exact ⟨⟨w, hplain, hlevel⟩, h.bound, h.ahead, h.right⟩
      · next haborted =>
        have hfold : ∀ j, (List.range' s.i WINDOW).foldl (ExportFolder.start items s.aborted)
            s.loads j = _ :=
          foldl_start s.aborted (List.range' s.i WINDOW) s.loads
        have hin : ∀ j, j ∈ List.range' s.i WINDOW ↔ s.i ≤ j ∧ j < s.i + WINDOW :=
          fun j => List.mem_range'_1
        refine ⟨⟨w, hplain, hlevel, hmore, ?_⟩, h.bound, ?_, ?_⟩
        · dsimp only
          rw [hfold]
          split
          · exact Option.some_ne_none _
          · next hnot =>
            exact fun hnone => hnot
              ⟨hnone, (hin _).mpr ⟨Nat.le_refl _, Nat.lt_add_of_pos_right (by decide)⟩, hmore⟩
        · intro j hj
          dsimp only at hj
          rw [hfold] at hj
          split at hj
          · next hnew => exact ⟨((hin j).mp hnew.2.1).1, ((hin j).mp hnew.2.1).2, hnew.2.2⟩
          · exact h.ahead j hj
        · intro j load hload
          dsimp only at hload
          rw [hfold] at hload
          split at hload
          · rw [← Option.some.inj hload]
            have hzero : Right answers s.aborted j (ExportFolder.attempt s.aborted (0 + 1)) :=
              .attempt (by decide) fun m hm hle => absurd hm (Nat.not_lt_of_le hle)
            exact hzero
          · exact h.right j load hload
    · next hend =>
      have hlast : s.i = items.length := Nat.le_antisymm h.bound (Nat.le_of_not_lt hend)
      exact ⟨⟨w, hplain, hlevel, hlast⟩, h.bound, h.ahead, h.right⟩
  · next hphase =>
    rw [hphase] at hlevel
    obtain ⟨hout, hmore, -⟩ := hlevel
    split
    · next got item hload hitem =>
      have hright := h.right s.i _ hload
      have herased : ∀ j, Function.update s.loads s.i none j ≠ none → s.loads j ≠ none := by
        intro j hj
        by_cases hji : j = s.i
        · rw [hji, hload]
          exact Option.some_ne_none _
        · rwa [Function.update_of_ne hji] at hj
      have hkeep : ∀ j load, Function.update s.loads s.i none j = some load →
          Right answers s.aborted j load := by
        intro j load hj
        by_cases hji : j = s.i
        · rw [hji, Function.update_self] at hj
          cases hj
        · rw [Function.update_of_ne hji] at hj
          exact h.right j load hj
      have hgone : Function.update s.loads s.i none s.i = none := Function.update_self ..
      dsimp only
      split
      · exact ⟨⟨w, hplain, hout⟩, h.bound, fun j hj => h.ahead j (herased j hj), hkeep⟩
      · next haborted =>
        split
        · next render =>
          refine ⟨⟨w, hplain, ⟨render, [], hright, ?_, ?_⟩, hmore, hgone⟩, h.bound,
            fun j hj => h.ahead j (herased j hj), hkeep⟩
          · rw [hout]
            rfl
          · dsimp only
            rw [hout]
            rfl
        · have hnone : opened answers s.i = none := hright.resolve_left haborted
          have hnext := plain_take_succ hplain hitem
          rw [hnone, Written.add] at hnext
          rw [hout]
          split
          · next hstreak =>
            rw [if_pos hstreak] at hnext
            exact ⟨⟨w, hplain, hnext, rfl⟩, h.bound, fun j hj => h.ahead j (herased j hj), hkeep⟩
          · next hstreak =>
            rw [if_neg hstreak] at hnext
            exact ⟨⟨w.skip item, hnext, rfl⟩, hmore, h.ahead_succ herased hgone, hkeep⟩
    · exact h
  · next chunk rest hphase =>
    rw [hphase] at hlevel
    obtain ⟨⟨render, front, hopened, hchunks, hout⟩, hmore, hgone⟩ := hlevel
    refine ⟨⟨w, hplain, ⟨render, front ++ [chunk], hopened, ?_, ?_⟩, hmore, hgone⟩, h.bound,
      h.ahead, h.right⟩
    · rw [hchunks, List.append_assoc]
      rfl
    · dsimp only
      rw [List.foldl_append, hout]
      rfl
  · next hphase =>
    rw [hphase] at hlevel
    obtain ⟨⟨render, front, hopened, hchunks, hout⟩, hmore, hgone⟩ := hlevel
    have hitem : items[s.i]? = some items[s.i] := List.getElem?_eq_getElem hmore
    have hnext := plain_take_succ hplain hitem
    have hadd : w.add items[s.i] (some render) = s.out.one := by
      rw [Written.add, hchunks, List.append_nil, hout]
    rw [hopened, if_neg (by rw [streak_add_some]; decide), hadd] at hnext
    exact ⟨⟨s.out.one, hnext, rfl⟩, hmore, h.ahead_succ (fun j hj => hj) hgone, h.right⟩
  · exact h

theorem Inv.step {s : State T σ} (h : Inv items answers kept s) (e : Event) :
    Inv items answers kept (step items answers s e) := by
  cases e with
  | answer j =>
    unfold ExportFolder.step
    dsimp only
    split
    · next k hload => exact h.reload hload (h.right j _ hload).answered
    · exact h
  | wake j =>
    unfold ExportFolder.step
    dsimp only
    split
    · next k hload =>
      obtain ⟨hk, hearlier⟩ := h.right j _ hload
      exact h.reload hload (.attempt hk hearlier)
    · exact h
  | turn => exact h.turn
  | writeFails =>
    obtain ⟨w, hplain, hlevel⟩ := h.level
    unfold ExportFolder.step
    dsimp only
    split
    · next chunk rest hphase =>
      unfold Level at hlevel
      rw [hphase] at hlevel
      exact ⟨⟨w, hplain, chunk :: rest, hlevel.1⟩, h.bound, h.ahead, h.right⟩
    · exact h
  | abort =>
    obtain ⟨w, hplain, hlevel⟩ := h.level
    exact ⟨⟨w, hplain, hlevel⟩, h.bound, h.ahead, fun j load hload => (h.right j load hload).mono⟩

theorem Inv.run {s : State T σ} (h : Inv items answers kept s) (es : List Event) :
    Inv items answers kept (Machine.run (ExportFolder.step items answers) s es) := by
  induction es generalizing s with
  | nil => exact h
  | cons e es ih => exact ih (h.step e)

end Runs

section Progress

variable {items : List T} {answers : ℕ → ℕ → Option (Render σ)} {kept : σ}

def weight : Option (Load σ) → ℕ
  | none => 2 * ATTEMPTS + 1
  | some (.loading k) => 2 * (ATTEMPTS - k) + 2
  | some (.sleeping k) => 2 * (ATTEMPTS - k) + 1
  | some (.settled _) => 0

def Phase.rank : Phase → ℕ
  | .next => 3
  | .waiting => 2
  | .writing _ => 1
  | .ended _ => 0

def Phase.left : Phase → ℕ
  | .writing rest => rest.length
  | _ => 0

def left (n : ℕ) (s : State T σ) : ℕ ×ₗ ℕ ×ₗ ℕ ×ₗ ℕ ×ₗ ℕ :=
  toLex (n - s.i, toLex (s.phase.rank, toLex (s.phase.left,
    toLex (((List.range n).map fun j => weight (s.loads j)).sum, if s.aborted then 0 else 1))))

theorem left_lt_of_next {n : ℕ} {s s' : State T σ} (h : s'.i = s.i + 1) (hmore : s.i < n) :
    left n s' < left n s := by
  refine Prod.Lex.toLex_lt_toLex.mpr (.inl ?_)
  dsimp only
  omega

theorem left_lt_of_rank {n : ℕ} {s s' : State T σ} {p : Phase} (hphase : s.phase = p) (q : Phase)
    (hnext : s'.phase = q) (hi : s'.i = s.i) (h : q.rank < p.rank) : left n s' < left n s := by
  rw [← hphase, ← hnext] at h
  exact Prod.Lex.toLex_lt_toLex.mpr (.inr ⟨by rw [hi], Prod.Lex.toLex_lt_toLex.mpr (.inl h)⟩)

theorem left_lt_of_chunk {n : ℕ} {s s' : State T σ} (hi : s'.i = s.i)
    (hrank : s'.phase.rank = s.phase.rank) (h : s'.phase.left < s.phase.left) :
    left n s' < left n s :=
  Prod.Lex.toLex_lt_toLex.mpr (.inr ⟨by rw [hi], Prod.Lex.toLex_lt_toLex.mpr (.inr ⟨hrank,
    Prod.Lex.toLex_lt_toLex.mpr (.inl h)⟩)⟩)

theorem left_lt_of_load {n : ℕ} {s : State T σ} {j : ℕ} {load : Load σ} (hj : j < n)
    (h : weight (some load) < weight (s.loads j)) :
    left n { s with loads := Function.update s.loads j (some load) } < left n s := by
  have hsum : ((List.range n).map fun m => weight (Function.update s.loads j (some load) m)).sum <
      ((List.range n).map fun m => weight (s.loads m)).sum := by
    apply List.sum_lt_sum
    · intro m _
      by_cases hm : m = j
      · rw [hm, Function.update_self]
        exact Nat.le_of_lt h
      · rw [Function.update_of_ne hm]
    · exact ⟨j, List.mem_range.mpr hj, by rw [Function.update_self]; exact h⟩
  exact Prod.Lex.toLex_lt_toLex.mpr (.inr ⟨rfl, Prod.Lex.toLex_lt_toLex.mpr (.inr ⟨rfl,
    Prod.Lex.toLex_lt_toLex.mpr (.inr ⟨rfl, Prod.Lex.toLex_lt_toLex.mpr (.inl hsum)⟩)⟩)⟩)

theorem left_turn {s : State T σ} (h : Inv items answers kept s) :
    turn items s = s ∨ left items.length (turn items s) < left items.length s := by
  obtain ⟨w, -, hlevel⟩ := h.level
  unfold Level at hlevel
  unfold turn
  split
  · next hphase =>
    split
    · split
      · exact .inr (left_lt_of_rank hphase (.ended .aborted) rfl rfl (by decide))
      · exact .inr (left_lt_of_rank hphase .waiting rfl rfl (by decide))
    · exact .inr (left_lt_of_rank hphase (.ended .done) rfl rfl (by decide))
  · next hphase =>
    rw [hphase] at hlevel
    split
    · dsimp only
      split
      · exact .inr (left_lt_of_rank hphase (.ended .aborted) rfl rfl (by decide))
      · split
        · exact .inr (left_lt_of_rank hphase (.writing _) rfl rfl (Nat.lt_succ_self 1))
        · split
          · exact .inr (left_lt_of_rank hphase (.ended .stalled) rfl rfl (by decide))
          · exact .inr (left_lt_of_next rfl hlevel.2.1)
    · exact .inl rfl
  · next chunk rest hphase =>
    refine .inr (left_lt_of_chunk rfl (by rw [hphase]; rfl) ?_)
    rw [hphase]
    exact Nat.lt_succ_self _
  · next hphase =>
    rw [hphase] at hlevel
    exact .inr (left_lt_of_next rfl hlevel.2.1)
  · exact .inl rfl

theorem left_step {s : State T σ} (h : Inv items answers kept s) (e : Event) :
    step items answers s e = s ∨ left items.length (step items answers s e) <
      left items.length s := by
  cases e with
  | answer j =>
    unfold step
    dsimp only
    split
    · next k hload =>
      have hlen := (h.ahead j (by rw [hload]; exact Option.some_ne_none _)).2.2
      refine .inr (left_lt_of_load hlen ?_)
      rw [hload]
      unfold answered
      split
      · exact Nat.succ_pos _
      · split
        · exact Nat.lt_succ_self _
        · exact Nat.succ_pos _
    · exact .inl rfl
  | wake j =>
    unfold step
    dsimp only
    split
    · next k hload =>
      have hlen := (h.ahead j (by rw [hload]; exact Option.some_ne_none _)).2.2
      obtain ⟨hk, -⟩ := h.right j _ hload
      refine .inr (left_lt_of_load hlen ?_)
      rw [hload, attempt]
      split
      · exact Nat.succ_pos _
      · change 2 * (ATTEMPTS - (k + 1)) + 2 < 2 * (ATTEMPTS - k) + 1
        omega
    · exact .inl rfl
  | turn => exact left_turn h
  | writeFails =>
    unfold step
    dsimp only
    split
    · next hphase => exact .inr (left_lt_of_rank hphase (.ended .failed) rfl rfl (Nat.succ_pos 0))
    · exact .inl rfl
  | abort =>
    by_cases haborted : s.aborted = true
    · refine .inl ?_
      unfold step
      rw [← haborted]
    · refine .inr (Prod.Lex.toLex_lt_toLex.mpr (.inr ⟨rfl, Prod.Lex.toLex_lt_toLex.mpr (.inr ⟨rfl,
        Prod.Lex.toLex_lt_toLex.mpr (.inr ⟨rfl, Prod.Lex.toLex_lt_toLex.mpr (.inr ⟨rfl, ?_⟩)⟩)⟩)⟩))
      rw [if_neg haborted]
      exact Nat.zero_lt_one

def Event.own (n : ℕ) : Event → Prop
  | .answer j => j < n
  | .wake j => j < n
  | .turn => True
  | .writeFails => False
  | .abort => False

theorem answered_ne (k : ℕ) (got : Option (Render σ)) : answered k got ≠ .loading k := by
  unfold answered
  split
  · intro h
    cases h
  · split
    · intro h
      cases h
    · intro h
      cases h

theorem attempt_ne (aborted : Bool) (k : ℕ) : (attempt aborted (k + 1) : Load σ) ≠ .sleeping k := by
  unfold attempt
  split
  · intro h
    cases h
  · intro h
    cases h

theorem exists_own {s : State T σ} (h : Inv items answers kept s)
    (hgoes : ∀ o, s.phase ≠ .ended o) :
    ∃ e : Event, e.own items.length ∧ step items answers s e ≠ s := by
  obtain ⟨w, -, hlevel⟩ := h.level
  unfold Level at hlevel
  have hturn : (turn items s).phase ≠ s.phase → ∃ e : Event, e.own items.length ∧
      step items answers s e ≠ s :=
    fun hne => ⟨.turn, trivial, fun hsame => hne (congrArg State.phase hsame)⟩
  have hreload : ∀ {e : Event} {load next : Load σ}, e.own items.length → s.loads s.i = some load →
      next ≠ load →
      step items answers s e = { s with loads := Function.update s.loads s.i (some next) } →
      ∃ e : Event, e.own items.length ∧ step items answers s e ≠ s := by
    intro e load next hown hload hne hstep
    refine ⟨e, hown, fun hsame => hne ?_⟩
    have hsome := congrFun (congrArg State.loads (hstep.symm.trans hsame)) s.i
    rw [hload] at hsome
    dsimp only at hsome
    rw [Function.update_self] at hsome
    exact Option.some.inj hsome
  cases hphase : s.phase with
  | next =>
    refine hturn ?_
    unfold turn
    rw [hphase]
    dsimp only
    split
    · split
      · exact Phase.noConfusion
      · exact Phase.noConfusion
    · exact Phase.noConfusion
  | waiting =>
    rw [hphase] at hlevel
    obtain ⟨-, hmore, hloads⟩ := hlevel
    obtain ⟨load, hload⟩ := Option.ne_none_iff_exists'.mp hloads
    cases load with
    | loading k =>
      refine hreload (e := .answer s.i) hmore hload (answered_ne k (answers s.i k)) ?_
      unfold step
      dsimp only
      rw [hload]
    | sleeping k =>
      refine hreload (e := .wake s.i) hmore hload (attempt_ne s.aborted k) ?_
      unfold step
      dsimp only
      rw [hload]
    | settled got =>
      refine hturn ?_
      unfold turn
      rw [hphase, hload, List.getElem?_eq_getElem hmore]
      dsimp only
      split
      · exact Phase.noConfusion
      · split
        · exact Phase.noConfusion
        · split
          · exact Phase.noConfusion
          · exact Phase.noConfusion
  | writing rest =>
    refine hturn ?_
    unfold turn
    rw [hphase]
    cases rest with
    | nil => exact Phase.noConfusion
    | cons chunk rest =>
      exact fun hsame => List.cons_ne_self chunk rest (Phase.writing.inj hsame).symm
  | ended o => exact absurd hphase (hgoes o)

def states (items : List T) (answers : ℕ → ℕ → Option (Render σ)) (kept : σ) (es : ℕ → Event) : ℕ →
    State T σ
  | 0 => .start kept
  | m + 1 => step items answers (states items answers kept es m) (es m)

theorem inv_states (es : ℕ → Event) (m : ℕ) : Inv items answers kept
    (states items answers kept es m) := by
  induction m with
  | zero => exact .start
  | succ m ih => exact ih.step (es m)

theorem states_same {es : ℕ → Event} {m k : ℕ}
    (h : ∀ l, m ≤ l → l < m + k → states items answers kept es (l + 1) =
      states items answers kept es l) :
    states items answers kept es (m + k) = states items answers kept es m := by
  induction k with
  | zero => rfl
  | succ k ih =>
    have hlast := h (m + k) (Nat.le_add_right m k) (Nat.lt_succ_self _)
    exact hlast.trans (ih fun l hl hlt => h l hl (Nat.lt_succ_of_lt hlt))

theorem left_states_le (es : ℕ → Event) {m k : ℕ} (h : m ≤ k) :
    left items.length (states items answers kept es k) ≤
      left items.length (states items answers kept es m) := by
  induction h with
  | refl => exact le_rfl
  | step _ ih =>
    rcases left_step (inv_states es _) (es _) with hsame | hless
    · exact (congrArg (left items.length) hsame).le.trans ih
    · exact hless.le.trans ih

theorem exists_left_lt {es : ℕ → Event}
    (hfair : ∀ e : Event, e.own items.length → ∀ m, ∃ k, m ≤ k ∧ es k = e) {m : ℕ}
    (hgoes : ∀ o, (states items answers kept es m).phase ≠ .ended o) :
    ∃ k, left items.length (states items answers kept es k) <
      left items.length (states items answers kept es m) := by
  obtain ⟨e, hown, hmoves⟩ := exists_own (inv_states es m) hgoes
  obtain ⟨k, hk, he⟩ := hfair e hown m
  by_contra hstuck
  rw [not_exists] at hstuck
  have hsame : ∀ l, m ≤ l → states items answers kept es (l + 1) = states items answers kept es
      l := by
    intro l hl
    rcases left_step (inv_states es l) (es l) with hsame | hless
    · exact hsame
    · exact absurd (hless.trans_le (left_states_le es hl)) (hstuck (l + 1))
  obtain ⟨d, rfl⟩ := Nat.exists_eq_add_of_le hk
  have hnow : states items answers kept es (m + d) = states items answers kept es m :=
    states_same fun l hl _ => hsame l hl
  apply hmoves
  rw [← hnow, ← he]
  exact hsame (m + d) hk

end Progress

section Results

variable {items : List T} {answers : ℕ → ℕ → Option (Render σ)} {kept : σ}

/-- What an export that looks ahead has done, whatever came in which order: what one that does not
would have, up to the message in turn, with no more than the window open and no attempt made
twice. -/
structure AsPlain (items : List T) (answers : ℕ → ℕ → Option (Render σ)) (kept : σ)
    (s : State T σ) : Prop where
  ends : ∀ o, s.phase = .ended o → o = .done ∨ o = .stalled → plain items answers kept = (s.out, o)
  whole : s.phase = .ended .aborted → plain (items.take s.i) answers kept = (s.out, .done)
  parts : ∃ w more, plain (items.take s.i) answers kept = (w, .done) ∧ s.out.file = w.file ++ more ∧
    (more = [] ∨ ∃ render, opened answers s.i = some render ∧ more <+: (render w.kept).1)
  window : ∀ j, s.loads j ≠ none → s.i ≤ j ∧ j < s.i + WINDOW ∧ j < items.length
  attempts : ∀ j k, s.loads j = some (.loading k) → 0 < k ∧ k ≤ ATTEMPTS ∧ ∀ m, 0 < m → m < k →
    answers j m = none

theorem file_foldl_put (chunks : List Bytes) (w : Written T σ) :
    (chunks.foldl Written.put w).file = w.file ++ chunks := by
  induction chunks generalizing w with
  | nil => exact (List.append_nil _).symm
  | cons chunk chunks ih =>
    rw [List.foldl_cons, ih, Written.put, List.append_assoc]
    rfl

theorem Inv.parts {s : State T σ} (h : Inv items answers kept s) :
    ∃ w more, plain (items.take s.i) answers kept = (w, .done) ∧ s.out.file = w.file ++ more ∧
      (more = [] ∨ ∃ render, opened answers s.i = some render ∧ more <+: (render w.kept).1) := by
  obtain ⟨w, hplain, hlevel⟩ := h.level
  have hnone : s.out.file = w.file → ∃ w more, plain (items.take s.i) answers kept = (w, .done) ∧
      s.out.file = w.file ++ more ∧ (more = [] ∨ ∃ render, opened answers s.i = some render ∧
        more <+: (render w.kept).1) :=
    fun hfile => ⟨w, [], hplain, hfile.trans (List.append_nil _).symm, .inl rfl⟩
  have hsome : ∀ {rest}, Partly answers w s.i rest s.out → ∃ w more,
      plain (items.take s.i) answers kept = (w, .done) ∧
      s.out.file = w.file ++ more ∧ (more = [] ∨ ∃ render, opened answers s.i = some render ∧
        more <+: (render w.kept).1) := by
    rintro rest ⟨render, front, hopened, hchunks, hout⟩
    refine ⟨w, front, hplain, ?_, .inr ⟨render, hopened, rest, hchunks.symm⟩⟩
    rw [hout, file_foldl_put]
  unfold Level at hlevel
  split at hlevel
  · exact hnone (congrArg Written.file hlevel)
  · exact hnone (congrArg Written.file hlevel.1)
  · exact hsome hlevel.1
  · exact hnone (congrArg Written.file hlevel.1)
  · exact hnone (congrArg Written.file hlevel)
  · exact hnone hlevel.2
  · exact hsome hlevel.choose_spec

theorem Inv.asPlain {s : State T σ} (h : Inv items answers kept s) :
    AsPlain items answers kept s := by
  obtain ⟨w, hplain, hlevel⟩ := h.level
  unfold Level at hlevel
  refine ⟨fun o hphase ho => ?_, fun hphase => ?_, h.parts, h.ahead, fun j k hload =>
    h.right j _ hload⟩
  · rw [hphase] at hlevel
    rcases ho with rfl | rfl
    · rw [hlevel.2, List.take_length] at hplain
      rw [hplain, hlevel.1]
    · exact plain_of_stalled hlevel.1
  · rw [hphase] at hlevel
    have hout : s.out = w := hlevel
    rw [hplain, hout]

theorem phase_states {es : ℕ → Event} (hcalm : ∀ m, es m ≠ .abort ∧ es m ≠ .writeFails) (m : ℕ) :
    (states items answers kept es m).aborted = false ∧ (states items answers kept es m).phase ≠
      .ended .aborted ∧
      (states items answers kept es m).phase ≠ .ended .failed := by
  induction m with
  | zero => exact ⟨rfl, Phase.noConfusion, Phase.noConfusion⟩
  | succ m ih =>
    have hcalm := hcalm m
    unfold states
    generalize states items answers kept es m = s at ih
    obtain ⟨hkeep, haborted, hfailed⟩ := ih
    cases he : es m with
    | answer j =>
      unfold step
      dsimp only
      split
      · exact ⟨hkeep, haborted, hfailed⟩
      · exact ⟨hkeep, haborted, hfailed⟩
    | wake j =>
      unfold step
      dsimp only
      split
      · exact ⟨hkeep, haborted, hfailed⟩
      · exact ⟨hkeep, haborted, hfailed⟩
    | turn =>
      have hover : ∀ o, o ≠ Outcome.aborted → o ≠ .failed →
          Phase.ended o ≠ .ended .aborted ∧ Phase.ended o ≠ .ended .failed :=
        fun o h h' => ⟨fun heq => h (Phase.ended.inj heq), fun heq => h' (Phase.ended.inj heq)⟩
      unfold step turn
      dsimp only
      split
      · split
        · rw [if_neg (by rw [hkeep]; exact Bool.false_ne_true)]
          exact ⟨hkeep, Phase.noConfusion, Phase.noConfusion⟩
        · exact ⟨hkeep, hover .done (by decide) (by decide)⟩
      · split
        · rw [if_neg (by rw [hkeep]; exact Bool.false_ne_true)]
          split
          · exact ⟨hkeep, Phase.noConfusion, Phase.noConfusion⟩
          · split
            · exact ⟨hkeep, hover .stalled (by decide) (by decide)⟩
            · exact ⟨hkeep, Phase.noConfusion, Phase.noConfusion⟩
        · exact ⟨hkeep, haborted, hfailed⟩
      · exact ⟨hkeep, Phase.noConfusion, Phase.noConfusion⟩
      · exact ⟨hkeep, Phase.noConfusion, Phase.noConfusion⟩
      · exact ⟨hkeep, haborted, hfailed⟩
    | writeFails => exact absurd he hcalm.2
    | abort => exact absurd he hcalm.1

theorem exists_over {es : ℕ → Event}
    (hfair : ∀ e : Event, e.own items.length → ∀ m, ∃ k, m ≤ k ∧ es k = e) :
    ∃ m o, (states items answers kept es m).phase = .ended o := by
  have hall : ∀ x m, left items.length (states items answers kept es m) = x →
      ∃ m o, (states items answers kept es m).phase = .ended o := by
    intro x
    induction x using WellFoundedLT.induction with
    | ind x ih =>
      intro m hm
      by_contra hgoes
      simp only [not_exists] at hgoes
      obtain ⟨k, hk⟩ := exists_left_lt hfair (hgoes m)
      obtain ⟨l, o, hover⟩ := ih _ (hm ▸ hk) k rfl
      exact hgoes l o hover
  exact hall _ 0 rfl

end Results

/-- Looking ahead changes nothing that is written, in whatever order the messages are opened. -/
theorem looking_ahead_is_plain {items : List T} {answers : ℕ → ℕ → Option (Render σ)} {kept : σ}
    (es : List Event) :
    AsPlain items answers kept (Machine.run (step items answers) (.start kept) es) :=
  (Inv.start.run es).asPlain

/-- An export comes to its end, with the file, the counts and the outcome of one that does not look
ahead, if no answer and no timer is held up forever, nobody aborts it and no write fails. -/
theorem export_ends_plain {items : List T} {answers : ℕ → ℕ → Option (Render σ)} {kept : σ}
    {es : ℕ → Event} (hfair : ∀ e : Event, e.own items.length → ∀ m, ∃ k, m ≤ k ∧ es k = e)
    (hcalm : ∀ m, es m ≠ .abort ∧ es m ≠ .writeFails) :
    ∃ m o, (states items answers kept es m).phase = .ended o ∧
      plain items answers kept = ((states items answers kept es m).out, o) := by
  obtain ⟨m, o, hover⟩ : ∃ m o, (states items answers kept es m).phase = .ended o :=
    exists_over hfair
  obtain ⟨-, haborted, hfailed⟩ := @phase_states T σ items answers kept es hcalm m
  refine ⟨m, o, hover, (inv_states es m).asPlain.ends o hover ?_⟩
  cases o with
  | done => exact .inl rfl
  | stalled => exact .inr rfl
  | aborted => exact absurd hover haborted
  | failed => exact absurd hover hfailed

def once (_ : ℕ) : ℕ → Option (Render Unit)
  | 1 => none
  | _ => some fun _ => ([[65]], ())

def around (m : ℕ) : Event := if m % 3 = 0 then .turn else if m % 3 = 1 then .answer 0 else .wake 0

theorem export_ends_plain_once : ∃ m o, (states [()] once () around m).phase = .ended o ∧
    plain [()] once () = ((states [()] once () around m).out, o) := by
  apply export_ends_plain
  · intro e hown m
    cases e with
    | turn => exact ⟨3 * m, by omega, by rw [around, if_pos (by omega)]⟩
    | answer j =>
      have hj : j = 0 := Nat.lt_one_iff.mp hown
      exact ⟨3 * m + 1, by omega, by rw [around, if_neg (by omega), if_pos (by omega), hj]⟩
    | wake j =>
      have hj : j = 0 := Nat.lt_one_iff.mp hown
      exact ⟨3 * m + 2, by omega, by rw [around, if_neg (by omega), if_neg (by omega), hj]⟩
    | writeFails => exact absurd hown not_false
    | abort => exact absurd hown not_false
  · intro m
    unfold around
    split
    · exact ⟨Event.noConfusion, Event.noConfusion⟩
    · split
      · exact ⟨Event.noConfusion, Event.noConfusion⟩
      · exact ⟨Event.noConfusion, Event.noConfusion⟩

end Dmcn.Web.ExportFolder
