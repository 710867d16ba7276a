import OpenDmcn.Lib.Base64

/-! Base64 of the URL alphabet without padding, as `base64.RawURLEncoding` writes it. Reading passes
over line breaks and does not look at the bits that fill no byte, so a text has several
spellings. -/

namespace Go.RawURL

def alphabet : List Char :=
  "ABCDEFGHIJKLMNOPQRSTUVWXYZabcdefghijklmnopqrstuvwxyz0123456789-_".toList

theorem alphabet_eq : alphabet =
    ['A', 'B', 'C', 'D', 'E', 'F', 'G', 'H', 'I', 'J', 'K', 'L', 'M', 'N', 'O', 'P', 'Q', 'R', 'S',
      'T', 'U', 'V', 'W', 'X', 'Y', 'Z', 'a', 'b', 'c', 'd', 'e', 'f', 'g', 'h', 'i', 'j', 'k',
      'l', 'm', 'n', 'o', 'p', 'q', 'r', 's', 't', 'u', 'v', 'w', 'x', 'y', 'z', '0', '1', '2',
      '3', '4', '5', '6', '7', '8', '9', '-', '_'] :=
  String.toList_ofList

theorem length_alphabet : alphabet.length = 64 := congrArg List.length alphabet_eq

theorem nodup_alphabet : alphabet.Nodup := by
  rw [alphabet_eq]
  exact .of_map Char.toNat (by decide)

def url : Base64.Alphabet := ⟨alphabet, length_alphabet, nodup_alphabet⟩

def encodeChars : Bytes → List Char
  | [] => []
  | [a] => [url.digit (a.toNat / 4), url.digit (a.toNat % 4 * 16)]
  | [a, b] => [url.digit (a.toNat / 4), url.digit (a.toNat % 4 * 16 + b.toNat / 16),
    url.digit (b.toNat % 16 * 4)]
  | a :: b :: c :: rest =>
    url.digit (a.toNat / 4) :: url.digit (a.toNat % 4 * 16 + b.toNat / 16) ::
      url.digit (b.toNat % 16 * 4 + c.toNat / 64) ::
      url.digit (c.toNat % 64) :: encodeChars rest

def decodeChars : List Char → Option Bytes
  | [] => some []
  | [_] => none
  | [w, x] => do return [Base64.byte₁ (← url.value w) (← url.value x)]
  | [w, x, y] => do
    let w ← url.value w
    let x ← url.value x
    let y ← url.value y
    return [Base64.byte₁ w x, Base64.byte₂ x y]
  | w :: x :: y :: z :: rest => do
    let w ← url.value w
    let x ← url.value x
    let y ← url.value y
    let z ← url.value z
    let rest ← decodeChars rest
    return Base64.byte₁ w x :: Base64.byte₂ x y :: Base64.byte₃ y z :: rest

def encode (b : Bytes) : String := String.ofList (encodeChars b)

def decode (s : String) : Option Bytes :=
  decodeChars (s.toList.filter fun c => c != '\n' && c != '\r')

theorem decodeChars_encodeChars (b : Bytes) : decodeChars (encodeChars b) = some b := by
  induction b using encodeChars.induct with
  | case1 => rfl
  | case2 a =>
    have ha := a.toNat_lt
    have hbyte := Base64.byte₁_eq a 0
    simp only [UInt8.toNat_zero, Nat.zero_div, Nat.add_zero] at hbyte
    simp [encodeChars, decodeChars, url.value_digit (show a.toNat / 4 < 64 by omega),
      url.value_digit (show a.toNat % 4 * 16 < 64 by omega), hbyte]
  | case3 a b =>
    have ha := a.toNat_lt
    have hb := b.toNat_lt
    have hbyte := Base64.byte₂_eq a b 0
    simp only [UInt8.toNat_zero, Nat.zero_div, Nat.add_zero] at hbyte
    simp [encodeChars, decodeChars, url.value_digit (show a.toNat / 4 < 64 by omega),
      url.value_digit (show a.toNat % 4 * 16 + b.toNat / 16 < 64 by omega),
      url.value_digit (show b.toNat % 16 * 4 < 64 by omega), Base64.byte₁_eq, hbyte]
  | case4 a b c rest ih =>
    have ha := a.toNat_lt
    have hb := b.toNat_lt
    have hc := c.toNat_lt
    simp [encodeChars, decodeChars, url.value_digit (show a.toNat / 4 < 64 by omega),
      url.value_digit (show a.toNat % 4 * 16 + b.toNat / 16 < 64 by omega),
      url.value_digit (show b.toNat % 16 * 4 + c.toNat / 64 < 64 by omega),
      url.value_digit (show c.toNat % 64 < 64 by omega), Base64.byte₁_eq, Base64.byte₂_eq,
        Base64.byte₃_eq, ih]

theorem mem_alphabet {b : Bytes} {c : Char} (h : c ∈ encodeChars b) : c ∈ alphabet := by
  induction b using encodeChars.induct with
  | case1 => exact absurd h List.not_mem_nil
  | case2 a =>
    simp only [encodeChars, List.mem_cons, List.not_mem_nil, or_false] at h
    rcases h with rfl | rfl <;> exact url.digit_mem _
  | case3 a b =>
    simp only [encodeChars, List.mem_cons, List.not_mem_nil, or_false] at h
    rcases h with rfl | rfl | rfl <;> exact url.digit_mem _
  | case4 a b d rest ih =>
    simp only [encodeChars, List.mem_cons] at h
    rcases h with rfl | rfl | rfl | rfl | h
    · exact url.digit_mem _
    · exact url.digit_mem _
    · exact url.digit_mem _
    · exact url.digit_mem _
    · exact ih h

theorem plain_of_mem {b : Bytes} {c : Char} (h : c ∈ (encode b).toList) :
    c ≠ '.' ∧ c ≠ '\n' ∧ c ≠ '\r' := by
  rw [encode, String.toList_ofList] at h
  have hplain : ∀ c ∈ alphabet, c ≠ '.' ∧ c ≠ '\n' ∧ c ≠ '\r' :=
    alphabet_eq ▸ List.all_iff_forall_prop.mp (by decide)
  exact hplain c (mem_alphabet h)

theorem decode_encode (b : Bytes) : decode (encode b) = some b := by
  have hkept : (encode b).toList.filter (fun c => c != '\n' && c != '\r') = (encode b).toList := by
    rw [List.filter_eq_self]
    intro c hc
    have hplain := plain_of_mem hc
    simp [hplain.2.1, hplain.2.2]
  rw [decode, hkept, encode, String.toList_ofList, decodeChars_encodeChars]

end Go.RawURL
