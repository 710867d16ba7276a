import OpenDmcn.Lib.Bytes
import Mathlib.Tactic.IntervalCases

/-! Lower-case hexadecimal, as `encoding/hex` writes it; reading takes either case. -/

namespace Go.Hex

def digit (n : ℕ) : Char := "0123456789abcdef".toList.getD n '0'

def value (c : Char) : Option ℕ :=
  if '0' ≤ c ∧ c ≤ '9' then some (c.toNat - '0'.toNat)
  else if 'a' ≤ c ∧ c ≤ 'f' then some (c.toNat - 'a'.toNat + 10)
  else if 'A' ≤ c ∧ c ≤ 'F' then some (c.toNat - 'A'.toNat + 10)
  else none

def encodeChars (b : Bytes) : List Char :=
  b.flatMap fun x => [digit (x.toNat / 16), digit (x.toNat % 16)]

def encode (b : Bytes) : String := String.ofList (encodeChars b)

def decodeChars : List Char → Option Bytes
  | [] => some []
  | [_] => none
  | c :: d :: cs => do
    let hi ← value c
    let lo ← value d
    let rest ← decodeChars cs
    return UInt8.ofNat (16 * hi + lo) :: rest

def decode (s : String) : Option Bytes := decodeChars s.toList

theorem value_digit {n : ℕ} (h : n < 16) : value (digit n) = some n := by
  interval_cases n <;> rfl

theorem decodeChars_encodeChars (b : Bytes) : decodeChars (encodeChars b) = some b := by
  induction b with
  | nil => rfl
  | cons x b ih =>
    have hx : x.toNat < 256 := x.toNat_lt
    have hbyte : UInt8.ofNat (16 * (x.toNat / 16) + x.toNat % 16) = x := by
      rw [Nat.div_add_mod, UInt8.ofNat_toNat]
    have hcons : encodeChars (x :: b) =
        digit (x.toNat / 16) :: digit (x.toNat % 16) :: encodeChars b := rfl
    rw [hcons, decodeChars, value_digit (by omega), value_digit (by omega), ih]
    simp only [Option.bind_eq_bind, Option.bind_some, hbyte]
    rfl

@[simp] theorem decode_encode (b : Bytes) : decode (encode b) = some b := by
  unfold decode encode
  rw [String.toList_ofList]
  exact decodeChars_encodeChars b

theorem encode_injective : Function.Injective encode := by
  intro b b' h
  have hdecode := congrArg decode h
  simpa using hdecode

theorem length_encodeChars (b : Bytes) : (encodeChars b).length = 2 * b.length := by
  induction b with
  | nil => rfl
  | cons x b ih =>
    have hcons : encodeChars (x :: b) =
        digit (x.toNat / 16) :: digit (x.toNat % 16) :: encodeChars b := rfl
    rw [hcons]
    simp only [List.length_cons, ih]
    omega

theorem digit_ne_slash {n : ℕ} (h : n < 16) : digit n ≠ '/' := by
  interval_cases n <;> decide

theorem slash_not_mem_encodeChars (b : Bytes) : '/' ∉ encodeChars b := by
  unfold encodeChars
  rw [List.mem_flatMap]
  rintro ⟨x, -, hx⟩
  have hbound : x.toNat < 256 := x.toNat_lt
  rcases List.mem_cons.mp hx with hhi | hx
  · exact digit_ne_slash (by omega) hhi.symm
  · exact digit_ne_slash (by omega) (List.mem_singleton.mp hx).symm

end Go.Hex
