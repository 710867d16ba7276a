import Mathlib.Control.Monad.Basic

/-! Programs that make requests of a server, one after the other, and end with a result or an error.
A program can be run alone, or step by step among others; what it requests and how it ends can be
said with the phases of a protocol. -/

namespace Requests

variable {R : Type} {A : R → Type} {ε α β σ Φ : Type}

inductive Prog (R : Type) (A : R → Type) (ε α : Type) where
  | ret (a : α)
  | fail (e : ε)
  | ask (r : R) (cont : A r → Prog R A ε α)

namespace Prog

def bind : Prog R A ε α → (α → Prog R A ε β) → Prog R A ε β
  | ret a, f => f a
  | fail e, _ => fail e
  | ask r cont, f => ask r fun a => (cont a).bind f

instance : Monad (Prog R A ε) where
  pure := ret
  bind := bind

def request (r : R) : Prog R A ε (A r) := ask r ret

def run (serve : (r : R) → σ → A r × σ) : Prog R A ε α → σ → Except ε α × σ
  | ret a, s => (.ok a, s)
  | fail e, s => (.error e, s)
  | ask r cont, s => (cont (serve r s).1).run serve (serve r s).2

variable {serve : (r : R) → σ → A r × σ}

@[simp] theorem run_pure (a : α) (s : σ) : run serve (pure a : Prog R A ε α) s = (.ok a, s) := rfl

@[simp] theorem run_fail (e : ε) (s : σ) : run serve (fail e : Prog R A ε α) s = (.error e, s) :=
  rfl

theorem run_request_bind (r : R) (f : A r → Prog R A ε α) (s : σ) :
    run serve (request r >>= f) s = run serve (f (serve r s).1) (serve r s).2 := rfl

theorem run_bind (x : Prog R A ε α) (f : α → Prog R A ε β) (s : σ) :
    run serve (x >>= f) s = match run serve x s with
      | (.ok a, s') => run serve (f a) s'
      | (.error e, s') => (.error e, s') := by
  change run serve (x.bind f) s = _
  induction x generalizing s with
  | ret a => rfl
  | fail e => rfl
  | ask r cont ih => exact ih _ _

theorem run_bind_ok {x : Prog R A ε α} {f : α → Prog R A ε β} {s s' : σ} {a : α}
    (h : run serve x s = (.ok a, s')) :
    run serve (x >>= f) s = run serve (f a) s' := by
  rw [run_bind, h]

theorem run_bind_error {x : Prog R A ε α} {f : α → Prog R A ε β} {s s' : σ} {e : ε}
    (h : run serve x s = (.error e, s')) :
    run serve (x >>= f) s = (.error e, s') := by
  rw [run_bind, h]

end Prog

section Obeys

/-- The program makes only requests that the protocol has in its phase, and ends as it may in the
phase that it comes to. `next s r f` says that `r` may be requested in phase `s`, and that `f` takes
its answers to the phases that follow. -/
def Obeys (next : Φ → (r : R) → (A r → Φ) → Prop) (ends : Φ → Except ε α → Prop) : Φ →
    Prog R A ε α → Prop
  | s, .ret a => ends s (.ok a)
  | s, .fail e => ends s (.error e)
  | s, .ask r cont => ∃ f, next s r f ∧ ∀ a, Obeys next ends (f a) (cont a)

variable {next : Φ → (r : R) → (A r → Φ) → Prop} {ends : Φ → Except ε β → Prop}
  {mid : Φ → Except ε α → Prop}

theorem Obeys.bind {s : Φ} {x : Prog R A ε α} {f : α → Prog R A ε β} (h : Obeys next mid s x)
    (hok : ∀ s a, mid s (.ok a) → Obeys next ends s (f a))
    (herror : ∀ s e, mid s (.error e) → ends s (.error e)) :
    Obeys next ends s (x >>= f) := by
  change Obeys next ends s (x.bind f)
  induction x generalizing s with
  | ret a => exact hok s a h
  | fail e => exact herror s e h
  | ask r cont ih =>
    obtain ⟨g, hnext, hcont⟩ := h
    exact ⟨g, hnext, fun a => ih a (hcont a)⟩

end Obeys

end Requests
