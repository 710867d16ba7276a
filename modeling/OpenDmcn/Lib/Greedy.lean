import Mathlib.Data.List.Perm.Subperm
import Mathlib.Data.List.Pairwise

/-! Choosing greedily. From a list, elements are taken one after the other, each if it may be chosen
together with all that were chosen before, until there are enough. Over all orders of the list, what
is chosen is any choice of that size, or one that cannot be extended. -/

namespace Greedy

variable {α : Type} (R : α → α → Prop)

section Taken

variable [DecidableRel R]

def greedy : ℕ → List α → List α → List α
  | _, _, [] => []
  | 0, _, _ :: _ => []
  | k + 1, base, c :: l => if ∀ b ∈ base, R c b then c :: greedy k (c :: base) l
    else greedy (k + 1) base l

end Taken

structure Choice (base l S : List α) : Prop where
  subset : S ⊆ l
  pairwise : S.Pairwise R
  apart : ∀ c ∈ S, ∀ b ∈ base, R c b

structure MaximalChoice (base l S : List α) : Prop extends Choice R base l S where
  stuck : ∀ c ∈ l, ¬ ((∀ b ∈ base, R c b) ∧ ∀ b ∈ S, R c b)

section Lemmas

variable {R} {k : ℕ} {base l S : List α}

theorem Choice.cons_base {c : α} (hsymm : ∀ c d, R c d → R d c) (h : Choice R (c :: base) l S)
    (hc : ∀ b ∈ base, R c
    b) :
    Choice R base (c :: l) (c :: S) where
  subset := List.cons_subset_cons c h.subset
  pairwise := List.pairwise_cons.mpr ⟨fun d hd => hsymm d c (h.apart d hd c List.mem_cons_self),
    h.pairwise⟩
  apart := by
    intro d hd
    rcases List.mem_cons.mp hd with rfl | hd
    · exact hc
    · exact fun b hb => h.apart d hd b (List.mem_cons_of_mem c hb)

theorem Choice.mono {l' : List α} (h : Choice R base l S) (hl : l ⊆ l') : Choice R base l' S :=
  ⟨fun _ hc => hl (h.subset hc), h.pairwise, h.apart⟩

theorem Choice.perm {l' : List α} (h : Choice R base l S) (hl : l'.Perm l) : Choice R base l' S :=
  h.mono hl.symm.subset

theorem MaximalChoice.perm {l' : List α} (h : MaximalChoice R base l S) (hl : l'.Perm l) :
    MaximalChoice R base l' S :=
  ⟨h.toChoice.perm hl, fun c hc => h.stuck c (hl.subset hc)⟩

theorem Choice.nodup (hirrefl : ∀ c, ¬ R c c) (h : Choice R base l S) : S.Nodup := by
  apply h.pairwise.imp
  rintro a b hab rfl
  exact hirrefl a hab

variable [DecidableRel R]

theorem greedy_extends (hsymm : ∀ c d, R c d → R d c) (k : ℕ) (base l : List α) : Choice R base l
    (greedy R k base l)
    := by
  induction l generalizing k base with
  | nil =>
    rw [greedy]
    exact ⟨List.nil_subset _, List.Pairwise.nil, by simp⟩
  | cons c l ih =>
    cases k with
    | zero =>
      rw [greedy]
      exact ⟨List.nil_subset _, List.Pairwise.nil, by simp⟩
    | succ k =>
      rw [greedy]
      split
      · next hc => exact (ih k (c :: base)).cons_base hsymm hc
      · exact (ih (k + 1) base).mono (List.subset_cons_self c l)

theorem length_greedy_le (k : ℕ) (base l : List α) : (greedy R k base l).length ≤ k := by
  induction l generalizing k base with
  | nil =>
    rw [greedy]
    exact Nat.zero_le k
  | cons c l ih =>
    cases k with
    | zero =>
      rw [greedy]
      exact Nat.le_refl 0
    | succ k =>
      rw [greedy]
      split
      · exact Nat.succ_le_succ (ih k (c :: base))
      · exact ih (k + 1) base

theorem greedy_stuck (hirrefl : ∀ c, ¬ R c c) (h : (greedy R k base l).length < k) :
    ∀ c ∈ l, ¬ ((∀ b ∈ base, R c b) ∧ ∀ b ∈ greedy R k base l, R c b) := by
  induction l generalizing k base with
  | nil => simp
  | cons d l ih =>
    cases k with
    | zero => exact absurd h (Nat.not_lt_zero _)
    | succ k =>
      rw [greedy] at h ⊢
      split at h
      · next hd =>
        have hlater := ih (Nat.lt_of_succ_lt_succ h)
        rw [if_pos hd]
        intro c hc
        rintro ⟨hbase, hchosen⟩
        have hcd : R c d := hchosen d List.mem_cons_self
        rcases List.mem_cons.mp hc with rfl | hc
        · exact hirrefl _ hcd
        · refine hlater c hc ⟨?_, fun b hb => hchosen b (List.mem_cons_of_mem d hb)⟩
          intro b hb
          rcases List.mem_cons.mp hb with rfl | hb
          · exact hcd
          · exact hbase b hb
      · next hd =>
        rw [if_neg hd]
        intro c hc
        rcases List.mem_cons.mp hc with rfl | hc
        · exact fun hfree => hd hfree.1
        · exact ih h _ hc

theorem greedy_maximal (hirrefl : ∀ c, ¬ R c c) (hsymm : ∀ c d, R c d → R d c)
    (h : (greedy R k base l).length < k) :
    MaximalChoice R base l (greedy R k base l) :=
  ⟨greedy_extends hsymm k base l, greedy_stuck hirrefl h⟩

theorem greedy_append (hsymm : ∀ c d, R c d → R d c) (h : Choice R base l S) (hk : S.length ≤ k)
    (rest : List α) :
    greedy R k base (S ++ rest) = S ++ greedy R (k - S.length) (S.reverse ++ base) rest := by
  induction S generalizing k base with
  | nil => simp
  | cons c S ih =>
    cases k with
    | zero => exact absurd hk (Nat.not_succ_le_zero _)
    | succ k =>
      obtain ⟨hc, hpairwise⟩ := List.pairwise_cons.mp h.pairwise
      have hbase : ∀ b ∈ base, R c b := h.apart c List.mem_cons_self
      have hrest : Choice R (c :: base) l S := by
        refine ⟨fun d hd => h.subset (List.mem_cons_of_mem c hd), hpairwise, ?_⟩
        intro d hd b hb
        rcases List.mem_cons.mp hb with rfl | hb
        · exact hsymm _ d (hc d hd)
        · exact h.apart d (List.mem_cons_of_mem c hd) b hb
      rw [List.cons_append, greedy, if_pos hbase, ih hrest (Nat.le_of_succ_le_succ hk)]
      simp

theorem greedy_eq_nil (h : ∀ c ∈ l, ¬ ∀ b ∈ base, R c b) : greedy R k base l = [] := by
  induction l with
  | nil => rw [greedy]
  | cons c l ih =>
    cases k with
    | zero => rw [greedy]
    | succ k =>
      rw [greedy, if_neg (h c List.mem_cons_self)]
      exact ih fun d hd => h d (List.mem_cons_of_mem c hd)

theorem exists_perm_greedy_eq [DecidableEq α] (hirrefl : ∀ c, ¬ R c c)
    (hsymm : ∀ c d, R c d → R d c) (h : Choice R
    base l S)
    (hk : S.length ≤ k) (hend : S.length = k ∨ MaximalChoice R base l S) :
    ∃ l', l'.Perm l ∧ greedy R k base l' = S := by
  obtain ⟨S', hS, hsub⟩ := List.subperm_of_subset (h.nodup hirrefl) h.subset
  obtain ⟨rest, hrest⟩ := hsub.exists_perm_append
  have hperm : l.Perm (S ++ rest) := hrest.trans (hS.append_right rest)
  refine ⟨S ++ rest, hperm.symm, ?_⟩
  rw [greedy_append hsymm h hk]
  have hnone : greedy R (k - S.length) (S.reverse ++ base) rest = [] := by
    rcases hend with hsize | hmaximal
    · have hzero : k - S.length = 0 := by omega
      exact List.eq_nil_of_length_eq_zero (Nat.le_zero.mp (hzero ▸ length_greedy_le _ _ _))
    · apply greedy_eq_nil
      intro c hc hfree
      have hmem : c ∈ l := hperm.symm.subset (List.mem_append_right S hc)
      refine hmaximal.stuck c hmem ⟨fun b hb => hfree b (List.mem_append_right _ hb), fun b hb =>
        hfree b ?_⟩
      exact List.mem_append_left _ (List.mem_reverse.mpr hb)
  rw [hnone, List.append_nil]

end Lemmas

end Greedy
