import Mathlib.Data.List.Perm.Basic
import Mathlib.Logic.Function.Basic

/-! Shuffling in place, from the last position down: each position is swapped with one that is not
after it. What is drawn is an input; every order comes out for some draws, and nothing else does. -/

namespace Shuffle

variable {α : Type}

def settle (draw : ℕ → ℕ) : ℕ → List α → List α
  | 0, s => s
  | i + 1, s => settle draw i (s.swap (i + 1) (draw (i + 1)))

def shuffle (draw : ℕ → ℕ) (s : List α) : List α := settle draw (s.length - 1) s

theorem settle_perm (draw : ℕ → ℕ) (i : ℕ) (s : List α) : (settle draw i s).Perm s := by
  induction i generalizing s with
  | zero => exact List.Perm.refl s
  | succ i ih => exact (ih _).trans (List.swap_perm s (i + 1) (draw (i + 1)))

theorem shuffle_perm (draw : ℕ → ℕ) (s : List α) : (shuffle draw s).Perm s := settle_perm draw _ s

theorem settle_congr {draw draw' : ℕ → ℕ} {i : ℕ} (h : ∀ k ≤ i, draw k = draw' k) (s : List α) :
    settle draw i s = settle draw' i s := by
  induction i generalizing s with
  | zero => rfl
  | succ i ih =>
    rw [settle, settle, h (i + 1) (Nat.le_refl _)]
    exact ih (fun k hk => h k (Nat.le_succ_of_le hk)) _

theorem exists_swap {i : ℕ} {s t : List α} (hperm : t.Perm s) (hlength : i < s.length)
    (hsettled : s.drop (i + 1) = t.drop (i + 1)) :
    ∃ j ≤ i, (s.swap i j).drop i = t.drop i := by
  have hlength' : i < t.length := hperm.length_eq ▸ hlength
  have hfront : (t.take (i + 1)).Perm (s.take (i + 1)) := by
    rw [← List.take_append_drop (i + 1) t, ← List.take_append_drop (i + 1) s, hsettled] at hperm
    exact (List.perm_append_right_iff _).mp hperm
  have hmem : t[i] ∈ s.take (i + 1) := by
    rw [← hfront.mem_iff]
    exact List.mem_take_iff_getElem.mpr ⟨i, by omega, rfl⟩
  obtain ⟨j, hj, hsj⟩ := List.mem_take_iff_getElem.mp hmem
  refine ⟨j, by omega, List.ext_getElem? fun k => ?_⟩
  rw [List.getElem?_drop, List.getElem?_drop]
  cases k with
  | zero =>
    rw [Nat.add_zero, List.getElem?_eq_getElem (by rw [List.length_swap]; exact hlength),
      List.getElem?_eq_getElem
        hlength',
      List.getElem_swap_left_of_lt (by omega), hsj]
  | succ k =>
    have hsame := congrArg (fun l : List α => l[k]?) hsettled
    simp only [List.getElem?_drop] at hsame
    have hindex : i + (k + 1) = i + 1 + k := by omega
    rw [hindex, ← hsame]
    by_cases hk : i + 1 + k < s.length
    · rw [List.getElem?_eq_getElem (by rw [List.length_swap]; exact hk),
        List.getElem?_eq_getElem hk, List.getElem_swap_of_ne (by omega) (by omega)]
    · rw [List.getElem?_eq_none (by rw [List.length_swap]; omega), List.getElem?_eq_none (by omega)]

theorem exists_settle {i : ℕ} {s t : List α} (hperm : t.Perm s)
    (hsettled : s.drop (i + 1) = t.drop (i + 1)) :
    ∃ draw : ℕ → ℕ, (∀ k, draw k ≤ k) ∧ settle draw i s = t := by
  induction i generalizing s with
  | zero =>
    refine ⟨id, fun k => Nat.le_refl k, ?_⟩
    rw [settle]
    rw [← List.take_append_drop 1 t, ← List.take_append_drop 1 s, hsettled] at hperm ⊢
    have hfront := (List.perm_append_right_iff _).mp hperm
    cases t with
    | nil =>
      cases s with
      | nil => rfl
      | cons x s => simp at hfront
    | cons y t =>
      cases s with
      | nil => simp at hfront
      | cons x s =>
        obtain rfl : y = x := by simpa using hfront
        rfl
  | succ i ih =>
    by_cases hlength : i + 1 < s.length
    · obtain ⟨j, hj, hdrop⟩ := exists_swap hperm hlength hsettled
      obtain ⟨draw, hdraw, hsettle⟩ := ih (hperm.trans (List.swap_perm s (i + 1) j).symm) hdrop
      refine ⟨Function.update draw (i + 1) j, ?_, ?_⟩
      · intro k
        by_cases hk : k = i + 1
        · rw [hk, Function.update_self]
          exact hj
        · rw [Function.update_of_ne hk]
          exact hdraw k
      · rw [settle, Function.update_self, ← hsettle]
        exact settle_congr (fun k hk => Function.update_of_ne (by omega) _ _) _
    · have hlength' : t.length = s.length := hperm.length_eq
      have hdrop : s.drop (i + 1) = t.drop (i + 1) := by
        rw [List.drop_eq_nil_of_le (by omega), List.drop_eq_nil_of_le (by omega)]
      obtain ⟨draw, hdraw, hsettle⟩ := ih hperm hdrop
      refine ⟨Function.update draw (i + 1) (i + 1), ?_, ?_⟩
      · intro k
        by_cases hk : k = i + 1
        · have hself : Function.update draw (i + 1) (i + 1) k = k := by
            rw [hk, Function.update_self]
          exact Nat.le_of_eq hself
        · rw [Function.update_of_ne hk]
          exact hdraw k
      · rw [settle, Function.update_self, List.swap_self, ← hsettle]
        exact settle_congr (fun k hk => Function.update_of_ne (by omega) _ _) _

theorem exists_shuffle {s t : List α} (hperm : t.Perm s) :
    ∃ draw : ℕ → ℕ, (∀ k, draw k ≤ k) ∧ shuffle draw s = t := by
  have hlength := hperm.length_eq
  apply exists_settle hperm
  rw [List.drop_eq_nil_of_le (by omega), List.drop_eq_nil_of_le (by omega)]

end Shuffle
