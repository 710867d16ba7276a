import Mathlib.Data.Bool.AllAny
import OpenDmcn.Lib.Bytes

/-! Base64, as `encoding/base64` writes it: the digits of an alphabet, and the standard encoding
with padding. -/

namespace Go.Base64

structure Alphabet where
  chars : List Char
  length_eq : chars.length = 64
  nodup : chars.Nodup

namespace Alphabet

variable (a : Alphabet)

theorem mod_lt_length (n : ℕ) : n % 64 < a.chars.length := by
  rw [a.length_eq]
  exact Nat.mod_lt n (by decide)

def digit (n : ℕ) : Char := a.chars.get ⟨n % 64, a.mod_lt_length n⟩

def value (c : Char) : Option ℕ := a.chars.idxOf? c

theorem digit_mem (n : ℕ) : a.digit n ∈ a.chars := List.get_mem _ _

theorem value_digit {n : ℕ} (h : n < 64) : a.value (a.digit n) = some n := by
  have hlt : n < a.chars.length := h.trans_eq a.length_eq.symm
  unfold value digit
  simp only [List.get_eq_getElem, Nat.mod_eq_of_lt h]
  refine List.idxOf?_eq_some_iff.mpr ⟨hlt, rfl, fun j hj heq => ?_⟩
  exact hj.ne (a.nodup.getElem_inj_iff.mp heq)

end Alphabet

def alphabet : List Char :=
  "ABCDEFGHIJKLMNOPQRSTUVWXYZabcdefghijklmnopqrstuvwxyz0123456789+/".toList

theorem alphabet_eq : alphabet =
    ['A', 'B', 'C', 'D', 'E', 'F', 'G', 'H', 'I', 'J', 'K', 'L', 'M', 'N', 'O', 'P', 'Q', 'R', 'S',
      'T', 'U', 'V', 'W', 'X', 'Y', 'Z', 'a', 'b', 'c', 'd', 'e', 'f', 'g', 'h', 'i', 'j', 'k',
      'l', 'm', 'n', 'o', 'p', 'q', 'r', 's', 't', 'u', 'v', 'w', 'x', 'y', 'z', '0', '1', '2',
      '3', '4', '5', '6', '7', '8', '9', '+', '/'] :=
  String.toList_ofList

theorem length_alphabet : alphabet.length = 64 := congrArg List.length alphabet_eq

theorem nodup_alphabet : alphabet.Nodup := by
  rw [alphabet_eq]
  exact .of_map Char.toNat (by decide)

def std : Alphabet := ⟨alphabet, length_alphabet, nodup_alphabet⟩

def encode : Bytes → List Char
  | [] => []
  | [a] => [std.digit (a.toNat / 4), std.digit (a.toNat % 4 * 16), '=', '=']
  | [a, b] =>
    [std.digit (a.toNat / 4), std.digit (a.toNat % 4 * 16 + b.toNat / 16),
      std.digit (b.toNat % 16 * 4), '=']
  | a :: b :: c :: rest =>
    std.digit (a.toNat / 4) :: std.digit (a.toNat % 4 * 16 + b.toNat / 16) ::
      std.digit (b.toNat % 16 * 4 + c.toNat / 64) ::
      std.digit (c.toNat % 64) :: encode rest

def byte₁ (w x : ℕ) : UInt8 := UInt8.ofNat (w * 4 + x / 16)
def byte₂ (x y : ℕ) : UInt8 := UInt8.ofNat (x % 16 * 16 + y / 4)
def byte₃ (y z : ℕ) : UInt8 := UInt8.ofNat (y % 4 * 64 + z)

def decode : List Char → Option Bytes
  | [] => some []
  | w :: x :: y :: z :: rest => do
    let w ← std.value w
    let x ← std.value x
    if y = '=' ∧ z = '=' ∧ rest = [] then return [byte₁ w x]
    let y ← std.value y
    if z = '=' ∧ rest = [] then return [byte₁ w x, byte₂ x y]
    let z ← std.value z
    let rest ← decode rest
    return byte₁ w x :: byte₂ x y :: byte₃ y z :: rest
  | _ => none

def decodeString (s : String) : Option Bytes :=
  decode (s.toList.filter fun c => c != '\n' && c != '\r')

theorem digit_ne_pad (n : ℕ) : std.digit n ≠ '=' := by
  intro hpad
  have hmem : std.digit n ∈ alphabet := std.digit_mem n
  rw [hpad, alphabet_eq] at hmem
  exact absurd hmem (by decide)

theorem ascii_alphabet : ∀ c ∈ alphabet, c.toNat ≤ 127 := by
  rw [alphabet_eq]
  exact List.all_iff_forall_prop.mp (by decide)

theorem byte₁_eq (a b : UInt8) : byte₁ (a.toNat / 4) (a.toNat % 4 * 16 + b.toNat / 16) = a := by
  have ha := a.toNat_lt
  have hb := b.toNat_lt
  have hsum : a.toNat / 4 * 4 + (a.toNat % 4 * 16 + b.toNat / 16) / 16 = a.toNat := by omega
  rw [byte₁, hsum, UInt8.ofNat_toNat]

theorem byte₂_eq (a b c : UInt8) :
    byte₂ (a.toNat % 4 * 16 + b.toNat / 16) (b.toNat % 16 * 4 + c.toNat / 64) = b := by
  have ha := a.toNat_lt
  have hb := b.toNat_lt
  have hc := c.toNat_lt
  have hsum : (a.toNat % 4 * 16 + b.toNat / 16) % 16 * 16 + (b.toNat % 16 * 4 + c.toNat / 64) / 4 =
      b.toNat := by omega
  rw [byte₂, hsum, UInt8.ofNat_toNat]

theorem byte₃_eq (b c : UInt8) : byte₃ (b.toNat % 16 * 4 + c.toNat / 64) (c.toNat % 64) = c := by
  have hb := b.toNat_lt
  have hc := c.toNat_lt
  have hsum : (b.toNat % 16 * 4 + c.toNat / 64) % 4 * 64 + c.toNat % 64 = c.toNat := by omega
  rw [byte₃, hsum, UInt8.ofNat_toNat]

theorem decode_encode (b : Bytes) : decode (encode b) = some b := by
  induction b using encode.induct with
  | case1 => rfl
  | case2 a =>
    have ha := a.toNat_lt
    have hbyte := byte₁_eq a 0
    simp only [UInt8.toNat_zero, Nat.zero_div, Nat.add_zero] at hbyte
    simp [encode, decode, std.value_digit (show a.toNat / 4 < 64 by omega),
      std.value_digit (show a.toNat % 4 * 16 < 64 by omega), hbyte]
  | case3 a b =>
    have ha := a.toNat_lt
    have hb := b.toNat_lt
    have hbyte := byte₂_eq a b 0
    simp only [UInt8.toNat_zero, Nat.zero_div, Nat.add_zero] at hbyte
    simp [encode, decode, std.value_digit (show a.toNat / 4 < 64 by omega),
      std.value_digit (show a.toNat % 4 * 16 + b.toNat / 16 < 64 by omega),
      std.value_digit (show b.toNat % 16 * 4 < 64 by omega),
      digit_ne_pad, byte₁_eq, hbyte]
  | case4 a b c rest ih =>
    have ha := a.toNat_lt
    have hb := b.toNat_lt
    have hc := c.toNat_lt
    simp [encode, decode, std.value_digit (show a.toNat / 4 < 64 by omega),
      std.value_digit (show a.toNat % 4 * 16 + b.toNat / 16 < 64 by omega),
      std.value_digit (show b.toNat % 16 * 4 + c.toNat / 64 < 64 by omega),
      std.value_digit (show c.toNat % 64 < 64 by omega),
      digit_ne_pad, byte₁_eq, byte₂_eq, byte₃_eq, ih]

theorem length_encode (b : Bytes) : (encode b).length = 4 * ((b.length + 2) / 3) := by
  induction b using encode.induct with
  | case1 => rfl
  | case2 a => simp [encode]
  | case3 a b => simp [encode]
  | case4 a b c rest ih =>
    simp only [encode, List.length_cons, ih]
    omega

theorem mem_encode {b : Bytes} {c : Char} (h : c ∈ encode b) : c ∈ alphabet ∨ c = '=' := by
  induction b using encode.induct with
  | case1 => cases h
  | case2 a =>
    simp only [encode, List.mem_cons, List.not_mem_nil, or_false] at h
    rcases h with rfl | rfl | rfl | rfl
    · exact .inl (std.digit_mem _)
    · exact .inl (std.digit_mem _)
    · exact .inr rfl
    · exact .inr rfl
  | case3 a b =>
    simp only [encode, List.mem_cons, List.not_mem_nil, or_false] at h
    rcases h with rfl | rfl | rfl | rfl
    · exact .inl (std.digit_mem _)
    · exact .inl (std.digit_mem _)
    · exact .inl (std.digit_mem _)
    · exact .inr rfl
  | case4 a b d rest ih =>
    simp only [encode, List.mem_cons] at h
    rcases h with rfl | rfl | rfl | rfl | h
    · exact .inl (std.digit_mem _)
    · exact .inl (std.digit_mem _)
    · exact .inl (std.digit_mem _)
    · exact .inl (std.digit_mem _)
    · exact ih h

theorem decodeString_encode (b : Bytes) : decodeString (String.ofList (encode b)) = some b := by
  have hkept : (encode b).filter (fun c => c != '\n' && c != '\r') = encode b := by
    rw [List.filter_eq_self]
    intro c hc
    rcases mem_encode hc with halphabet | rfl
    · have hplain : ∀ c ∈ alphabet, (c != '\n' && c != '\r') = true :=
        alphabet_eq ▸ List.all_iff_forall_prop.mp (by decide)
      exact hplain c halphabet
    · decide
  unfold decodeString
  rw [String.toList_ofList, hkept, decode_encode]

end Go.Base64
