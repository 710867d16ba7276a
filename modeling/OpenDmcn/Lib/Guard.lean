import Mathlib.Logic.Basic

/-! Early returns. A function that refuses at the first failed check is a sequence of guards in
`Except`; what it accepts is the conjunction of them, read off by `simp` with the lemmas below. -/

namespace Guard

variable {ε δ α β : Type}

def require (c : Prop) [Decidable c] (e : ε) : Except ε Unit := if c then .ok () else .error e

def refuse (c : Prop) [Decidable c] (e : ε) : Except ε Unit := if c then .error e else .ok ()

def need (o : Option α) (e : ε) : Except ε α :=
  match o with
  | some a => .ok a
  | none => .error e

def wrap (f : δ → ε) (x : Except δ α) : Except ε α :=
  match x with
  | .ok a => .ok a
  | .error e => .error (f e)

theorem ok_bind (a : α) (f : α → Except ε β) : (Except.ok a >>= f) = f a := rfl

theorem map_bind {γ : Type} (x : Except ε α) (f : α → Except ε β) (g : β → γ) :
    (x >>= f).map g = x >>= fun a => (f a).map g := by
  cases x with
  | ok a => rfl
  | error e => rfl

theorem bind_eq_ok {x : Except ε α} {f : α → Except ε β} {b : β} :
    (x >>= f) = .ok b ↔ ∃ a, x = .ok a ∧ f a = .ok b := by
  cases x with
  | ok a => simp [bind, Except.bind]
  | error e => simp [bind, Except.bind]

@[simp] theorem pure_eq_ok {a b : α} : (pure a : Except ε α) = .ok b ↔ a = b := by
  simp [pure, Except.pure]

@[simp] theorem require_eq_ok {c : Prop} [Decidable c] {e : ε} {u : Unit} : require c e = .ok u ↔
    c := by
  unfold require
  split <;> simp_all

@[simp] theorem refuse_eq_ok {c : Prop} [Decidable c] {e : ε} {u : Unit} : refuse c e = .ok u ↔
    ¬ c := by
  unfold refuse
  split <;> simp_all

@[simp] theorem need_eq_ok {o : Option α} {e : ε} {a : α} : need o e = .ok a ↔ o = some a := by
  cases o with
  | none => simp [need]
  | some b => simp [need]

@[simp] theorem wrap_eq_ok {f : δ → ε} {x : Except δ α} {a : α} : wrap f x = .ok a ↔ x = .ok a := by
  cases x with
  | ok b => simp [wrap]
  | error e => simp [wrap]

@[simp] theorem need_bind {o : Option α} {e : ε} {f : α → Except ε β} {b : β} :
    (need o e >>= f) = .ok b ↔ ∃ a, o = some a ∧ f a = .ok b := by
  simp only [bind_eq_ok, need_eq_ok]

@[simp] theorem unit_bind {x : Except ε Unit} {f : Unit → Except ε β} {b : β} :
    (x >>= f) = .ok b ↔ x = .ok () ∧ f () = .ok b := by
  rw [bind_eq_ok]
  exact ⟨fun ⟨_, hx, hf⟩ => ⟨hx, hf⟩, fun ⟨hx, hf⟩ => ⟨(), hx, hf⟩⟩

theorem bind_eq_error {x : Except ε α} {f : α → Except ε β} {e : ε} :
    (x >>= f) = .error e ↔ x = .error e ∨ ∃ a, x = .ok a ∧ f a = .error e := by
  cases x with
  | ok a => simp [bind, Except.bind]
  | error e' => simp [bind, Except.bind]

theorem require_eq_error {c : Prop} [Decidable c] {e e' : ε} :
    require c e = .error e' ↔ ¬ c ∧ e = e' := by
  unfold require
  split <;> simp_all

theorem refuse_eq_error {c : Prop} [Decidable c] {e e' : ε} :
    refuse c e = .error e' ↔ c ∧ e = e' := by
  unfold refuse
  split <;> simp_all

theorem wrap_eq_error {f : δ → ε} {x : Except δ α} {e : ε} :
    wrap f x = .error e ↔ ∃ d, x = .error d ∧ f d = e := by
  cases x with
  | ok a => simp [wrap]
  | error d => simp [wrap]

end Guard
