import Mathlib.Data.Int.Basic
import Mathlib.Tactic.NormNum
import Mathlib.Tactic.Ring

/-! Go's `time.Time` and `time.Duration`: seconds since year 1 held in an `int64`, so that
`time.Unix` wraps, `Add` saturates the seconds and `Sub` saturates the nanoseconds. -/

namespace Go

abbrev Duration := Int64

namespace Duration

def second : Duration := 1000000000
def minute : Duration := 60 * second
def hour : Duration := 60 * minute

def fmtFrac (v prec : ℕ) : String :=
  let digits := Nat.toDigits 10 (v % 10 ^ prec)
  if v % 10 ^ prec = 0 then ""
  else "." ++ String.ofList
    ((List.replicate (prec - digits.length) '0' ++ digits).reverse.dropWhile (· = '0')).reverse

def string (d : Duration) : String :=
  let u := d.toInt.natAbs
  let unit (prec : ℕ) (name : String) : String := toString (u / 10 ^ prec) ++ fmtFrac u prec ++ name
  let text :=
    if u = 0 then "0s"
    else if u < 1000 then unit 0 "ns"
    else if u < 1000000 then unit 3 "µs"
    else if u < 1000000000 then unit 6 "ms"
    else
      let seconds := u / 1000000000
      let minutes := seconds / 60
      (if minutes = 0 then ""
        else (if minutes / 60 = 0 then "" else toString (minutes / 60) ++ "h") ++
          toString (minutes % 60) ++ "m") ++
        toString (seconds % 60) ++ fmtFrac u 9 ++ "s"
  if d < 0 then "-" ++ text else text

end Duration

structure Time where
  sec : Int64
  nsec : Fin 1000000000
  deriving DecidableEq

namespace Time

instance : Inhabited Time := ⟨⟨0, 0⟩⟩

theorem one_lt_nanos : 1 < 1000000000 := by decide

def unixToInternal : Int64 := 62135596800

def ofUnix (u : Int64) : Time := ⟨u + unixToInternal, 0⟩

def unix (t : Time) : Int64 := t.sec - unixToInternal

def unixNano (t : Time) : Int64 := t.unix * 1000000000 + Int64.ofNat t.nsec.val

def isZero (t : Time) : Bool := t.sec == 0 && t.nsec == 0

def nanos (t : Time) : ℤ := t.sec.toInt * 1000000000 + t.nsec.val

def before (t u : Time) : Bool := t.sec < u.sec || (t.sec == u.sec && t.nsec < u.nsec)

def after (t u : Time) : Bool := u.before t

def addSec (s : Int64) (d : ℤ) : Int64 :=
  if s.toInt + d > 9223372036854775807 then 9223372036854775807
  else if s.toInt + d < -9223372036854775808 then -9223372036854775807
  else Int64.ofInt (s.toInt + d)

def add (t : Time) (d : Duration) : Time :=
  let total := (t.nsec.val : ℤ) + d.toInt
  ⟨addSec t.sec (total / 1000000000), ⟨(total % 1000000000).toNat, by omega⟩⟩

def sub (t u : Time) : Duration :=
  if t.nanos - u.nanos > 9223372036854775807 then 9223372036854775807
  else if t.nanos - u.nanos < -9223372036854775808 then -9223372036854775808
  else Int64.ofInt (t.nanos - u.nanos)

@[simp] theorem unix_ofUnix (u : Int64) : (ofUnix u).unix = u := by simp [ofUnix, unix]

@[simp] theorem nsec_ofUnix (u : Int64) : (ofUnix u).nsec = 0 := rfl

theorem isZero_iff {t : Time} : t.isZero = true ↔ t = default := by
  cases t
  simp [isZero, default]

theorem isZero_default : (default : Time).isZero = true := isZero_iff.mpr rfl

theorem before_iff {t u : Time} : t.before u = true ↔ t.nanos < u.nanos := by
  have ht := t.nsec.isLt
  have hu := u.nsec.isLt
  simp only [before, nanos, Bool.or_eq_true, Bool.and_eq_true, decide_eq_true_eq, beq_iff_eq,
    Int64.lt_iff_toInt_lt, ← Int64.toInt_inj, Fin.lt_def]
  omega

theorem before_eq_false_iff {t u : Time} : t.before u = false ↔ u.nanos ≤ t.nanos := by
  rw [Bool.eq_false_iff, Ne, before_iff, not_lt]

theorem after_iff {t u : Time} : t.after u = true ↔ u.nanos < t.nanos := before_iff

theorem after_eq_false_iff {t u : Time} : t.after u = false ↔ t.nanos ≤ u.nanos :=
  before_eq_false_iff

def wholeSecond (t : Time) : Time := { t with nsec := 0 }

theorem ofUnix_unix (t : Time) : ofUnix t.unix = t.wholeSecond := by
  simp [ofUnix, unix, wholeSecond]

@[simp] theorem unix_wholeSecond (t : Time) : t.wholeSecond.unix = t.unix := rfl

@[simp] theorem wholeSecond_ofUnix (u : Int64) : (ofUnix u).wholeSecond = ofUnix u := rfl

@[simp] theorem wholeSecond_wholeSecond (t : Time) : t.wholeSecond.wholeSecond = t.wholeSecond :=
  rfl

theorem isZero_of_wholeSecond {t : Time} (h : t.wholeSecond.isZero = false) : t.isZero = false := by
  have hsec : (t.sec == 0) = false := by simpa [isZero, wholeSecond] using h
  unfold isZero
  rw [hsec, Bool.false_and]

theorem after_of_wholeSecond {t u : Time} (h : t.wholeSecond.after u.wholeSecond = true) :
    t.after u = true := by
  have hu := u.nsec.isLt
  rw [after_iff] at h ⊢
  simp only [nanos, wholeSecond, Fin.val_zero] at h ⊢
  omega

theorem nanos_wholeSecond_le (t : Time) : t.wholeSecond.nanos ≤ t.nanos := by
  have hnsec : (0 : ℤ) ≤ t.nsec.val := Int.natCast_nonneg _
  simp only [nanos, wholeSecond, Fin.val_zero]
  omega

-- unfolding it makes the unifier compute with the bound on the nanoseconds
attribute [irreducible] wholeSecond

theorem toInt_addSec_le {s : Int64} {d : ℤ} (h : 0 ≤ d) : (addSec s d).toInt ≤ s.toInt + d := by
  have hlow := s.le_toInt
  have hmax : (9223372036854775807 : Int64).toInt = 9223372036854775807 := rfl
  unfold addSec
  split
  · rw [hmax]
    omega
  · rw [if_neg (by omega), Int64.toInt_ofInt_of_le (by omega) (by omega)]

theorem nanos_add_le {t : Time} {d : Duration} (h : 0 ≤ d.toInt) :
    (t.add d).nanos ≤ t.nanos + d.toInt := by
  have hsec : (t.add d).sec.toInt ≤ t.sec.toInt + ((t.nsec.val : ℤ) + d.toInt) / 1000000000 :=
    toInt_addSec_le (by omega)
  have hnsec : ((t.add d).nsec.val : ℤ) = ((t.nsec.val : ℤ) + d.toInt) % 1000000000 :=
    Int.toNat_of_nonneg (by omega)
  simp only [nanos, hnsec]
  omega

end Time
end Go
