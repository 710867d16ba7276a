import Mathlib.Data.List.Chain

/-! Lists in which each element carries a link to the one before it. Two such lists that meet in one
element agree on what comes before it, as far back as both go. -/

namespace HashChain

variable {α β : Type} {name link : α → β} {Same : α → α → Prop}

def Back (name link : α → β) (c : List α) : Prop := c.IsChain fun b a => link b = name a

theorem zip_agree {c c' : List α} {x y : α} (hx : Back name link (x :: c))
    (hy : Back name link (y :: c')) (hname : ∀ u ∈ c, ∀ v ∈ c', name u = name v → Same u v)
    (hlink : ∀ u v, Same u v → link u = link v) (hxy : link x = link y) : ∀ p ∈ c.zip c',
    Same p.1 p.2 := by
  induction c generalizing x y c' with
  | nil =>
    intro p hp
    cases hp
  | cons u c ih =>
    cases c' with
    | nil =>
      intro p hp
      cases hp
    | cons v c' =>
      obtain ⟨hu, hc⟩ := List.isChain_cons_cons.mp hx
      obtain ⟨hv, hc'⟩ := List.isChain_cons_cons.mp hy
      have hsame : Same u v := by
        apply hname u (List.mem_cons_self ..) v (List.mem_cons_self ..)
        rw [← hu, ← hv, hxy]
      have hrest := ih hc hc'
        (fun a ha b hb => hname a (List.mem_cons_of_mem _ ha) b (List.mem_cons_of_mem _ hb))
        (hlink u v hsame)
      intro p hp
      rcases List.mem_cons.mp hp with rfl | hp
      · exact hsame
      · exact hrest p hp

/-- Where the links of a first element are told from all others, lists that start with one have the
same length. -/
theorem length_eq_of_agree {c c' : List α} {x y : α} {zero : β} (hx : Back name link (x :: c))
    (hy : Back name link (y :: c')) (hname : ∀ u ∈ c, ∀ v ∈ c', name u = name v → Same u v)
    (hlink : ∀ u v, Same u v → link u = link v) (hxy : link x = link y)
    (hzero : ∀ a, name a ≠ zero) (hfirst : ∀ a, (x :: c).getLast? = some a → link a = zero)
    (hfirst' : ∀ a, (y :: c').getLast? = some a → link a = zero) : c.length = c'.length := by
  induction c generalizing x y c' with
  | nil =>
    have hx₀ : link x = zero := hfirst x rfl
    cases c' with
    | nil => rfl
    | cons v c' =>
      have hv := (List.isChain_cons_cons.mp hy).1
      rw [← hxy, hx₀] at hv
      exact absurd hv.symm (hzero v)
  | cons u c ih =>
    obtain ⟨hu, hc⟩ := List.isChain_cons_cons.mp hx
    cases c' with
    | nil =>
      have hy₀ : link y = zero := hfirst' y rfl
      rw [hxy, hy₀] at hu
      exact absurd hu.symm (hzero u)
    | cons v c' =>
      obtain ⟨hv, hc'⟩ := List.isChain_cons_cons.mp hy
      have hsame : Same u v := by
        apply hname u (List.mem_cons_self ..) v (List.mem_cons_self ..)
        rw [← hu, ← hv, hxy]
      have hlength := ih hc hc'
        (fun a ha b hb => hname a (List.mem_cons_of_mem _ ha) b (List.mem_cons_of_mem _ hb))
        (hlink u v hsame)
        (fun a ha => hfirst a (by rw [List.getLast?_cons_cons]; exact ha))
        (fun a ha => hfirst' a (by rw [List.getLast?_cons_cons]; exact ha))
      rw [List.length_cons, List.length_cons, hlength]

end HashChain
