import Mathlib.Data.Set.Card
import Mathlib.Order.Defs.Unbundled

/-! Walking a sorted collection page by page while it changes. A page lists keys past a cursor, in
order; the cursor of the next page is the last key listed, and there is none when nothing was
left. -/

namespace Paging

variable {κ : Type} (R : κ → κ → Prop)

def After (cursor : Option κ) (key : κ) : Prop := ∀ c ∈ cursor, R c key

structure IsPage (present good : κ → Prop) (cursor : Option κ) (keys : List κ) (next : Option κ) :
    Prop where
  sorted : keys.Pairwise R
  mem : ∀ k ∈ keys, good k ∧ After R cursor k
  last : next = none → ∀ k, good k → After R cursor k → k ∈ keys
  resume : ∀ c, next = some c → c ∈ keys ∧ (∀ k ∈ keys, k = c ∨ R k c) ∧
    (∀ k, good k → After R cursor k → ¬ R c k → k ∈ keys) ∧ ∃ k, present k ∧ R c k

def Going (next : ℕ → Option κ) (n : ℕ) : Prop := ∀ k < n, next k ≠ none

def cursor (next : ℕ → Option κ) : ℕ → Option κ
  | 0 => none
  | n + 1 => next n

def listed (keys : ℕ → List κ) (n : ℕ) : List κ := (List.range n).flatMap keys

theorem listed_succ (keys : ℕ → List κ) (n : ℕ) : listed keys
    (n + 1) = listed keys n ++ keys n := by
  unfold listed
  rw [List.range_succ, List.flatMap_append, List.flatMap_singleton]

theorem Going.prev {next : ℕ → Option κ} {n : ℕ} (h : Going next (n + 1)) : Going next n :=
  fun k hk => h k (Nat.lt_succ_of_lt hk)

section Walk

variable {R} [IsStrictTotalOrder κ R] {present good : ℕ → κ → Prop} {keys : ℕ → List κ}
  {next : ℕ → Option κ}
  (hpage : ∀ n, IsPage R (present n) (good n) (cursor next n) (keys n) (next n))

include hpage

theorem listed_before {n : ℕ} (hgoing : Going next n) : ∀ x ∈ listed keys n, ∀ y, After R
    (cursor next n) y → R x y := by
  induction n with
  | zero => exact fun x hx => absurd hx (by simp [listed])
  | succ n ih =>
    intro x hx y hy
    obtain ⟨c, hnext⟩ := Option.ne_none_iff_exists'.mp (hgoing n (Nat.lt_succ_self n))
    obtain ⟨hmem, hbefore, -, -⟩ := (hpage n).resume c hnext
    have hcy : R c y := hy c hnext
    rw [listed_succ] at hx
    rcases List.mem_append.mp hx with hx | hx
    · exact trans_of R (ih hgoing.prev x hx c ((hpage n).mem c hmem).2) hcy
    · rcases hbefore x hx with rfl | hxc
      · exact hcy
      · exact trans_of R hxc hcy

theorem sorted_listed {n : ℕ} (hgoing : Going next n) : (listed keys (n + 1)).Pairwise R := by
  induction n with
  | zero =>
    rw [listed_succ]
    exact (hpage 0).sorted
  | succ n ih =>
    rw [listed_succ, List.pairwise_append]
    refine ⟨ih hgoing.prev, (hpage (n + 1)).sorted, fun x hx y hy => ?_⟩
    exact listed_before hpage hgoing x hx y ((hpage (n + 1)).mem y hy).2

omit [IsStrictTotalOrder κ R] in
theorem listed_or_ahead {n : ℕ} (hgoing : Going next n) {x : κ} (hgood : ∀ k < n, good k x) :
    x ∈ listed keys n ∨ After R (cursor next n) x := by
  induction n with
  | zero => exact .inr fun c hc => absurd hc (by simp [cursor])
  | succ n ih =>
    obtain ⟨c, hnext⟩ := Option.ne_none_iff_exists'.mp (hgoing n (Nat.lt_succ_self n))
    obtain ⟨-, -, hall, -⟩ := (hpage n).resume c hnext
    rw [listed_succ, List.mem_append]
    rcases ih hgoing.prev fun k hk => hgood k (Nat.lt_succ_of_lt hk) with hx | hahead
    · exact .inl (.inl hx)
    · by_cases hcx : R c x
      · right
        intro c' hc'
        cases (show next n = some c' from hc').symm.trans hnext
        exact hcx
      · exact .inl (.inr (hall x (hgood n (Nat.lt_succ_self n)) hahead hcx))

omit [IsStrictTotalOrder κ R] in
theorem mem_listed {n : ℕ} (hgoing : Going next n) (hlast : next n = none) {x : κ}
    (hgood : ∀ k ≤ n, good k x) : x ∈ listed keys (n + 1) := by
  rw [listed_succ, List.mem_append]
  rcases listed_or_ahead hpage hgoing fun k hk => hgood k hk.le with hx | hahead
  · exact .inl hx
  · exact .inr ((hpage n).last hlast x (hgood n le_rfl) hahead)

theorem exists_last_page (hgp : ∀ n k, good n k → present n k) {N : ℕ}
    (hfinite : Set.Finite (present N)) (hstop : ∀ n, N ≤ n → ∀ k, present (n + 1) k → present n k) :
    ∃ n, Going next n ∧ next n = none := by
  by_contra hnever
  have hgoing : ∀ n, next n ≠ none := by
    intro n
    induction n using Nat.strong_induction_on with
    | _ n ih => exact fun hnone => hnever ⟨n, fun k hk => ih k hk, hnone⟩
  let ahead : ℕ → Set κ := fun n => {k | present n k ∧ After R (cursor next n) k}
  have hsmaller : ∀ n, N ≤ n → ahead (n + 1) ⊂ ahead n := by
    intro n hn
    obtain ⟨c, hnext⟩ := Option.ne_none_iff_exists'.mp (hgoing n)
    obtain ⟨hmem, -, -, -⟩ := (hpage n).resume c hnext
    obtain ⟨hgood, hafter⟩ := (hpage n).mem c hmem
    refine ⟨fun k hk => ⟨hstop n hn k hk.1, fun c' hc' => ?_⟩, fun hsub => ?_⟩
    · exact trans_of R (hafter c' hc') (hk.2 c hnext)
    · exact irrefl_of R c ((hsub ⟨hgp n c hgood, hafter⟩).2 c hnext)
  have hfin : ∀ n, (ahead (N + n)).Finite := by
    intro n
    induction n with
    | zero => exact hfinite.subset fun k hk => hk.1
    | succ n ih => exact ih.subset (hsmaller (N + n) (Nat.le_add_right N n)).1
  have hcount : ∀ n, (ahead (N + n)).ncard + n ≤ (ahead N).ncard := by
    intro n
    induction n with
    | zero => exact le_rfl
    | succ n ih =>
      have hlt := Set.ncard_lt_ncard (hsmaller (N + n) (Nat.le_add_right N n)) (hfin n)
      rw [← Nat.add_assoc N n 1]
      omega
  have htoo := hcount ((ahead N).ncard + 1)
  omega

end Walk

end Paging
