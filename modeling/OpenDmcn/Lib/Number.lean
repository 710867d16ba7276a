import Mathlib.Algebra.Group.Nat.Defs
import Mathlib.Data.Nat.Log

/-! The numbers of JavaScript, as far as they are whole: what does not fit the 53 bits of a double
is rounded to the nearest that does, of two to the even one. -/

namespace Js

def roundEven (n unit : ℕ) : ℕ :=
  let q := n / unit
  if 2 * (n % unit) < unit ∨ 2 * (n % unit) = unit ∧ q % 2 = 0 then q * unit else (q + 1) * unit

def nearest (n : ℕ) : ℕ := roundEven n (2 ^ (n.log2 - 52))

def number (n : ℤ) : ℤ := n.sign * nearest n.natAbs

theorem nearest_of_lt {n : ℕ} (h : n < 2 ^ 53) : nearest n = n := by
  have hlog : n.log2 - 52 = 0 := by
    by_cases hn : n = 0
    · rw [hn]
      rfl
    · have := (Nat.log2_lt hn).mpr h
      omega
  unfold nearest roundEven
  rw [hlog]
  simp [Nat.mod_one]

theorem nearest_of_le {n : ℕ} (h : n ≤ 2 ^ 53) : nearest n = n := by
  rcases Nat.lt_or_eq_of_le h with hlt | rfl
  · exact nearest_of_lt hlt
  · decide

theorem number_of_le {n : ℤ} (h : n.natAbs ≤ 2 ^ 53) : number n = n := by
  rw [number, nearest_of_le h]
  exact Int.sign_mul_natAbs n

theorem number_of_lt {n : ℤ} (h : n.natAbs < 2 ^ 53) : number n = n := number_of_le (Nat.le_of_lt h)

theorem unit_le {n : ℕ} (h : n ≠ 0) : 2 ^ (n.log2 - 52) ≤ n :=
  (Nat.pow_le_pow_right (by decide) (Nat.sub_le ..)).trans (Nat.log2_self_le h)

theorem nearest_eq_zero {n : ℕ} : nearest n = 0 ↔ n = 0 := by
  refine ⟨fun hzero => ?_, fun h => by rw [h]; rfl⟩
  by_contra h
  have hquotient : 1 ≤ n / 2 ^ (n.log2 - 52) :=
    (Nat.one_le_div_iff (Nat.two_pow_pos _)).mpr (unit_le h)
  unfold nearest roundEven at hzero
  dsimp only at hzero
  split at hzero
  · rcases Nat.mul_eq_zero.mp hzero with hq | hunit
    · omega
    · exact absurd hunit (Nat.two_pow_pos _).ne'
  · rcases Nat.mul_eq_zero.mp hzero with hq | hunit
    · omega
    · exact absurd hunit (Nat.two_pow_pos _).ne'

theorem number_eq_zero {n : ℤ} : number n = 0 ↔ n = 0 := by
  rw [number, Int.mul_eq_zero, Int.sign_eq_zero_iff_zero, Int.natCast_eq_zero, nearest_eq_zero,
    Int.natAbs_eq_zero, or_self]

theorem nearest_mul_pow {m k : ℕ} (h : m ≤ 2 ^ 53) : nearest (m * 2 ^ k) = m * 2 ^ k := by
  have hunit : 2 ^ ((m * 2 ^ k).log2 - 52) ∣ m * 2 ^ k := by
    rcases Nat.lt_or_eq_of_le h with hlt | rfl
    · have hlog : (m * 2 ^ k).log2 - 52 ≤ k := by
        by_cases hzero : m * 2 ^ k = 0
        · rw [hzero]
          exact Nat.zero_le _
        · have hbound : m * 2 ^ k < 2 ^ (53 + k) := by
            rw [Nat.pow_add]
            exact Nat.mul_lt_mul_of_pos_right hlt (Nat.two_pow_pos k)
          have := (Nat.log2_lt hzero).mpr hbound
          omega
      exact Nat.dvd_mul_left_of_dvd (Nat.pow_dvd_pow 2 hlog) m
    · rw [← Nat.pow_add, Nat.log2_two_pow]
      exact Nat.pow_dvd_pow 2 (by omega)
  unfold nearest roundEven
  dsimp only
  rw [Nat.mod_eq_zero_of_dvd hunit, if_pos (.inl (Nat.two_pow_pos _)), Nat.div_mul_cancel hunit]

theorem nearest_le_pow {n k : ℕ} (h : n ≤ 2 ^ k) : nearest n ≤ 2 ^ k := by
  rcases Nat.lt_or_eq_of_le h with hlt | rfl
  · by_cases hn : n = 0
    · rw [nearest_eq_zero.mpr hn]
      exact Nat.zero_le _
    · have hlog : n.log2 - 52 ≤ k := by
        have := (Nat.log2_lt hn).mpr hlt
        omega
      -- the power is a whole number of units, and so has room for one more than the quotient
      obtain ⟨q, hq⟩ := Nat.pow_dvd_pow 2 hlog
      have hquotient : n / 2 ^ (n.log2 - 52) + 1 ≤ q := by
        refine Nat.div_lt_of_lt_mul ?_
        rw [← hq]
        exact hlt
      have hroom : (n / 2 ^ (n.log2 - 52) + 1) * 2 ^ (n.log2 - 52) ≤ 2 ^ k := by
        rw [hq, Nat.mul_comm]
        exact Nat.mul_le_mul_left _ hquotient
      unfold nearest roundEven
      dsimp only
      split
      · exact (Nat.mul_le_mul_right _ (Nat.le_succ _)).trans hroom
      · exact hroom
  · rw [← Nat.one_mul (2 ^ k), nearest_mul_pow (by decide)]

theorem nearest_nearest (n : ℕ) : nearest (nearest n) = nearest n := by
  have hquotient : n / 2 ^ (n.log2 - 52) < 2 ^ 53 := by
    by_cases h : n = 0
    · rw [h]
      decide
    · refine Nat.div_lt_of_lt_mul ?_
      rw [← Nat.pow_add]
      refine (Nat.lt_log2_self).trans_le (Nat.pow_le_pow_right (by decide) (by omega))
  have hshape : ∃ m ≤ 2 ^ 53, nearest n = m * 2 ^ (n.log2 - 52) := by
    unfold nearest roundEven
    dsimp only
    split
    · exact ⟨_, Nat.le_of_lt hquotient, rfl⟩
    · exact ⟨_, hquotient, rfl⟩
  obtain ⟨m, hm, hnearest⟩ := hshape
  rw [hnearest]
  exact nearest_mul_pow hm

theorem number_number (n : ℤ) : number (number n) = number n := by
  by_cases h : n = 0
  · rw [h]
    rfl
  · have hpos : nearest n.natAbs ≠ 0 :=
      fun hzero => h (Int.natAbs_eq_zero.mp (nearest_eq_zero.mp hzero))
    have hone : (nearest n.natAbs : ℤ).sign = 1 := Int.sign_eq_one_of_pos (by omega)
    have hsign : (number n).sign = n.sign := by
      rw [number, Int.sign_mul, hone, Int.mul_one, Int.sign_sign]
    have habs : (number n).natAbs = nearest n.natAbs := by
      rw [number, Int.natAbs_mul, Int.natAbs_sign_of_ne_zero h, Int.natAbs_natCast, Nat.one_mul]
    rw [number, hsign, habs, nearest_nearest]
    rfl

example : number (2 ^ 53 + 1) = 2 ^ 53 := by decide

end Js
