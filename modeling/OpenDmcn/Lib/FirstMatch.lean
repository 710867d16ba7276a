import Mathlib.Data.List.Basic

/-! A list of rules of which the first that matches decides, beside the same list of which any rule
that matches may. -/

namespace FirstMatch

variable {α : Type} {p v : α → Bool} {l l' : List α}

def first (p v : α → Bool) (l : List α) : Bool := (l.find? p).any v

def Any (p v : α → Bool) (l : List α) : Prop := ∃ x ∈ l, p x = true ∧ v x = true

theorem Any.mono (h : Any p v l) (hsub : l ⊆ l') : Any p v l' := by
  obtain ⟨x, hx, hp, hv⟩ := h
  exact ⟨x, hsub hx, hp, hv⟩

theorem first_of_find {x : α} (h : l.find? p = some x) : first p v l = v x := by
  rw [first, h, Option.any_some]

theorem any_of_first (h : first p v l = true) : Any p v l := by
  cases hfind : l.find? p with
  | none =>
    rw [first, hfind, Option.any_none] at h
    cases h
  | some x =>
    rw [first_of_find hfind] at h
    exact ⟨x, List.mem_of_find?_eq_some hfind, List.find?_some hfind, h⟩

theorem first_iff_any_iff : (first p v l = true ↔ Any p v l) ↔
    ∀ x, l.find? p = some x → v x = false → ∀ y ∈ l, p y = true → v y = false := by
  constructor
  · intro h x hx hv y hy hp
    by_contra hne
    have hfirst := h.mpr ⟨y, hy, hp, by simpa using hne⟩
    rw [first_of_find hx, hv] at hfirst
    cases hfirst
  · intro h
    refine ⟨any_of_first, ?_⟩
    rintro ⟨y, hy, hp, hv⟩
    obtain ⟨x, hx⟩ := Option.isSome_iff_exists.mp (List.find?_isSome.mpr ⟨y, hy, hp⟩)
    rw [first_of_find hx]
    by_contra hne
    have hsilent := h x hx (by simpa using hne) y hy hp
    rw [hv] at hsilent
    cases hsilent

end FirstMatch
