import Mathlib.Data.String.Basic
import OpenDmcn.Lib.Bytes

/-! The characters of a byte string (`unicode/utf8`). A byte that begins no character is read as the
replacement character, by itself. -/

namespace Go.Utf8

def runeError : Char := '\uFFFD'

def encode (cs : List Char) : Bytes := cs.flatMap String.utf8EncodeChar

def decodeChar (b : Bytes) : Option Char := ByteArray.utf8DecodeChar? b.toByteArray 0

def runes : Bytes → List Char
  | [] => []
  | x :: b =>
    match decodeChar (x :: b) with
    | some c => c :: runes (b.drop (c.utf8Size - 1))
    | none => runeError :: runes b
termination_by b => b.length
decreasing_by
  · simp only [List.length_drop, List.length_cons]
    omega
  · exact Nat.lt_succ_self _

def valid (b : Bytes) : Bool := (readUtf8 b).isSome

theorem encode_cons (c : Char) (cs : List Char) :
    encode (c :: cs) = String.utf8EncodeChar c ++ encode cs := rfl

theorem encode_append (cs ds : List Char) : encode (cs ++ ds) = encode cs ++ encode ds :=
  List.flatMap_append

theorem utf8_ofList (cs : List Char) : utf8 (String.ofList cs) = encode cs := by
  rw [utf8_eq, String.toList_ofList]
  rfl

theorem encodeChar_ne_nil (c : Char) : String.utf8EncodeChar c ≠ [] := by
  have hsize := c.utf8Size_pos
  rw [← String.length_utf8EncodeChar] at hsize
  exact List.ne_nil_of_length_pos hsize

theorem encode_eq_nil {cs : List Char} : encode cs = [] ↔ cs = [] := by
  constructor
  · intro h
    cases cs with
    | nil => rfl
    | cons c cs => exact absurd (List.append_eq_nil_iff.mp h).1 (encodeChar_ne_nil c)
  · rintro rfl
    rfl

/-- The bytes of a smaller character are smaller, whatever comes after both. -/
theorem encodeChar_lt {c d : Char} (h : c < d) (s t : Bytes) :
    String.utf8EncodeChar c ++ s < String.utf8EncodeChar d ++ t := by
  have hlt : c.val.toNat < d.val.toNat := h
  have hd : d.val.toNat < 0x110000 := by
    rcases d.valid with hv | hv
    · exact lt_of_lt_of_le hv (by decide)
    · exact hv.2
  have hthree : ∀ n, n / 4096 = n / 64 / 64 := fun n => (Nat.div_div_eq_div_mul n 64 64).symm
  have hfour : ∀ n, n / 262144 = n / 64 / 64 / 64 := fun n => by
    rw [Nat.div_div_eq_div_mul, Nat.div_div_eq_div_mul]
  unfold String.utf8EncodeChar
  generalize c.val.toNat = m at *
  generalize d.val.toNat = n at *
  dsimp only
  split_ifs <;> first
    | omega
    | (simp only [List.cons_append, List.nil_append, List.cons_lt_cons_iff, UInt8.lt_iff_toNat_lt,
        ← UInt8.toNat_inj, UInt8.toNat_ofNat', hthree, hfour]
       omega)

instance asymmUInt8 : Std.Asymm (α := UInt8) (· < ·) := ⟨fun _ _ => UInt8.lt_asymm⟩

theorem encode_lt_encode {cs ds : List Char} (h : cs < ds) : encode cs < encode ds := by
  induction cs generalizing ds with
  | nil =>
    cases ds with
    | nil => exact absurd h (List.not_lt_nil _)
    | cons d ds =>
      obtain ⟨b, bs, hbytes⟩ := List.exists_cons_of_ne_nil fun hnil =>
        List.cons_ne_nil d ds (encode_eq_nil.mp hnil)
      rw [hbytes]
      exact List.nil_lt_cons b bs
  | cons c cs ih =>
    cases ds with
    | nil => exact absurd h (List.not_lt_nil _)
    | cons d ds =>
      rw [encode_cons, encode_cons]
      rcases List.cons_lt_cons_iff.mp h with hlt | ⟨rfl, hlater⟩
      · exact encodeChar_lt hlt _ _
      · exact List.append_left_lt (ih hlater)

/-- The order of texts is the order of their bytes. -/
theorem utf8_le_utf8 {s t : String} : utf8 s ≤ utf8 t ↔ s ≤ t := by
  rw [utf8_eq, utf8_eq]
  constructor
  · intro hle
    by_contra hlt
    exact hle (encode_lt_encode (String.lt_iff_toList_lt.mp (not_le.mp hlt)))
  · intro hle hlt
    rcases hle.eq_or_lt with rfl | hless
    · exact List.lt_irrefl _ hlt
    · exact List.lt_asymm (encode_lt_encode hless) hlt

theorem encodeChar_of_low {c : Char} {b : UInt8} (hb : b ∈ String.utf8EncodeChar c)
    (hlow : b < 128) :
    String.utf8EncodeChar c = [b] ∧ c.toNat = b.toNat := by
  have hhigh : ∀ {n : ℕ}, 128 ≤ n → n < 256 → b ≠ UInt8.ofNat n := by
    rintro n hn hbyte rfl
    have hbound := UInt8.lt_iff_toNat_lt.mp hlow
    rw [UInt8.toNat_ofNat', Nat.mod_eq_of_lt hbyte] at hbound
    exact absurd hbound (Nat.not_lt_of_le hn)
  unfold String.utf8EncodeChar at hb ⊢
  dsimp only at hb ⊢
  split at hb
  · next hascii =>
    have hbyte := List.mem_singleton.mp hb
    rw [if_pos hascii, hbyte]
    refine ⟨rfl, ?_⟩
    rw [UInt8.toNat_ofNat', Nat.mod_eq_of_lt (hascii.trans_lt (by decide))]
    rfl
  · exfalso
    split at hb
    · simp only [List.mem_cons, List.not_mem_nil, or_false] at hb
      rcases hb with h | h
      · exact hhigh (by omega) (by omega) h
      · exact hhigh (by omega) (by omega) h
    · split at hb
      · simp only [List.mem_cons, List.not_mem_nil, or_false] at hb
        rcases hb with h | h | h
        · exact hhigh (by omega) (by omega) h
        · exact hhigh (by omega) (by omega) h
        · exact hhigh (by omega) (by omega) h
      · simp only [List.mem_cons, List.not_mem_nil, or_false] at hb
        rcases hb with h | h | h | h
        · exact hhigh (by omega) (by omega) h
        · exact hhigh (by omega) (by omega) h
        · exact hhigh (by omega) (by omega) h
        · exact hhigh (by omega) (by omega) h

theorem exists_of_mem_encode {cs : List Char} {b : UInt8} (hb : b ∈ encode cs) (hlow : b < 128) :
    ∃ c ∈ cs, c.toNat = b.toNat := by
  obtain ⟨c, hc, hmem⟩ := List.mem_flatMap.mp hb
  exact ⟨c, hc, (encodeChar_of_low hmem hlow).2⟩

theorem decodeChar_encode (c : Char) (rest : Bytes) : decodeChar
    (String.utf8EncodeChar c ++ rest) = some c := by
  have happend : (String.utf8EncodeChar c ++ rest).toByteArray =
      (String.utf8EncodeChar c).toByteArray ++
    rest.toByteArray :=
    List.toByteArray_append
  unfold decodeChar
  rw [happend]
  exact ByteArray.utf8DecodeChar?_utf8EncodeChar_append

theorem runes_cons (c : Char) (rest : Bytes) : runes (String.utf8EncodeChar c ++ rest) = c :: runes
    rest := by
  obtain ⟨x, tail, hbytes⟩ := List.exists_cons_of_ne_nil (encodeChar_ne_nil c)
  have hlength : tail.length = c.utf8Size - 1 := by
    have hsize := String.length_utf8EncodeChar c
    rw [hbytes, List.length_cons] at hsize
    omega
  have hread := decodeChar_encode c rest
  rw [hbytes, List.cons_append] at hread ⊢
  rw [runes, hread]
  dsimp only
  rw [← hlength, List.drop_left]

@[simp] theorem runes_encode (cs : List Char) : runes (encode cs) = cs := by
  induction cs with
  | nil => rw [encode, List.flatMap_nil, runes]
  | cons c cs ih => rw [encode_cons, runes_cons, ih]

theorem prefix_of_encode {cs ds : List Char} (h : encode ds <+: encode cs) : ds <+: cs := by
  induction ds generalizing cs with
  | nil => exact List.nil_prefix
  | cons d ds ih =>
    obtain ⟨rest, hrest⟩ := h
    rw [encode_cons, List.append_assoc] at hrest
    cases cs with
    | nil => exact absurd (List.append_eq_nil_iff.mp hrest).1 (encodeChar_ne_nil d)
    | cons c cs =>
      have hread := decodeChar_encode d (encode ds ++ rest)
      rw [hrest, encode_cons, decodeChar_encode] at hread
      cases hread
      exact List.cons_prefix_cons.mpr ⟨rfl, ih ⟨rest, List.append_cancel_left hrest⟩⟩

theorem utf8_of_readUtf8 {b : Bytes} {s : String} (h : readUtf8 b = some s) : utf8 s = b := by
  unfold readUtf8 String.fromUTF8? at h
  split at h
  · cases h
    rfl
  · cases h

theorem valid_iff {b : Bytes} : valid b = true ↔ ∃ cs, b = encode cs := by
  constructor
  · intro h
    obtain ⟨s, hs⟩ := Option.isSome_iff_exists.mp h
    refine ⟨s.toList, ?_⟩
    rw [← utf8_of_readUtf8 hs, utf8_eq]
    rfl
  · rintro ⟨cs, rfl⟩
    unfold valid
    rw [← utf8_ofList, readUtf8_utf8]
    rfl

end Go.Utf8
