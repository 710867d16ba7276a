import OpenDmcn.Lib.Date
import OpenDmcn.Lib.MailText
import Mathlib.Data.List.GetD

/-! The encodings of an exported message (`export/mime.ts`). They read back, but for a header that
looks encoded as it stands. -/

namespace Dmcn.Web.Mime

open Go (Bytes)
open Go.Utf8 (encode)
open MailText
  (Charsets blank crlf lines unescape literal runs decodeWord readHeader readParam readBase64
  readQuotedPrintable)

section Writer

def whiteSpace (c : Char) : Bool :=
  decide (c.toNat ∈ [9, 10, 11, 12, 13, 32, 0xa0, 0x1680, 0x2028, 0x2029, 0x202f, 0x205f, 0x3000,
    0xfeff] ∨ (0x2000 ≤ c.toNat ∧ c.toNat ≤ 0x200a))

def trim (s : List Char) : List Char := (s.dropWhile whiteSpace).rdropWhile whiteSpace

def control (c : Char) : Bool := decide ((c.toNat < 32 ∧ c ≠ '\t') ∨ c.toNat = 127)

def spaced (inRun : Bool) : List Char → List Char
  | [] => []
  | c :: s =>
    if control c then (if inRun then [] else [' ']) ++ spaced true s
    else c :: spaced false s

def clean (s : List Char) : List Char := trim (spaced false s)

def printable (c : Char) : Bool := decide (0x20 ≤ c.toNat ∧ c.toNat ≤ 0x7e)

def hexByte (b : UInt8) : List Char :=
  Js.padStart ((Nat.toDigits 16 b.toNat).map Char.toUpper) 2 '0'

def chunksFrom (chunk : Bytes) : List Char → List Bytes
  | [] => if chunk = [] then [] else [chunk]
  | ch :: s =>
    let b := String.utf8EncodeChar ch
    if chunk.length + b.length > 45 then chunk :: chunksFrom b s else chunksFrom (chunk ++ b) s

def encodeWord (w : Bytes) : List Char := "=?UTF-8?B?".toList ++ (Go.Base64.encode w ++ "?=".toList)

def encodeWords (s : List Char) : List Char :=
  if s.all printable then s else (crlf ++ [' ']).intercalate ((chunksFrom [] s).map encodeWord)

def escaped (s : List Char) : List Char := s.flatMap fun c => if c = '\\' ∨ c = '"' then ['\\', c]
    else [c]

def plainAttribute (b : UInt8) : Bool :=
  let c := Char.ofNat b.toNat
  c.isAlphanum || decide (c ∈ "!#$&+.^_`|~-".toList)

def percent (b : UInt8) : List Char :=
  if plainAttribute b then [Char.ofNat b.toNat] else '%' :: hexByte b

def filenameParam (param value : List Char) : List Char :=
  if value.all printable then param ++ ("=\"".toList ++ (escaped value ++ ['"']))
  else param ++ ("*=UTF-8''".toList ++ (encode value).flatMap percent)

def B64 : Bytes := Go.Base64.alphabet.map fun c => UInt8.ofNat c.toNat

def digits (n : ℕ) (a b c : UInt8) : Bytes :=
  let v := a.toNat <<< 16 ||| b.toNat <<< 8 ||| c.toNat
  [B64.getD (v >>> 18 &&& 63) 0, B64.getD (v >>> 12 &&& 63) 0,
    if n > 1 then B64.getD (v >>> 6 &&& 63) 0 else 0x3d, if n > 2 then B64.getD (v &&& 63) 0
      else 0x3d]

def base64From (col : ℕ) : Bytes → Bytes
  | [] => []
  | [a] => digits 1 a 0 0 ++ [0x0d, 0x0a]
  | [a, b] => digits 2 a b 0 ++ [0x0d, 0x0a]
  | a :: b :: c :: bytes =>
    if col + 4 = 76 ∨ bytes = [] then digits (bytes.length + 3) a b c ++
      ([0x0d, 0x0a] ++ base64From 0 bytes)
    else digits (bytes.length + 3) a b c ++ base64From (col + 4) bytes

def base64Lines (bytes : Bytes) : Bytes :=
  let chars := (bytes.length + 2) / 3 * 4
  let size := chars + (chars + 75) / 76 * 2
  let written := base64From 0 bytes
  written.take size ++ List.replicate (size - written.length) 0

def unixBreaks : List Char → List Char
  | [] => []
  | [c] => [if c = '\r' then '\n' else c]
  | c :: d :: text =>
    if c = '\r' then '\n' :: (if d = '\n' then unixBreaks text else unixBreaks (d :: text))
    else c :: unixBreaks (d :: text)

def isLiteral (b : UInt8) (last : Bool) : Bool :=
  decide ((33 ≤ b ∧ b ≤ 126 ∧ b ≠ 61) ∨ ((b = 32 ∨ b = 9) ∧ last = false))

def token (b : UInt8) (last : Bool) : List Char :=
  if isLiteral b last then [Char.ofNat b.toNat] else '=' :: hexByte b

def tokens : Bytes → List (List Char)
  | [] => []
  | b :: bytes => token b bytes.isEmpty :: tokens bytes

def lineStart (t : List Char) (rest : List (List Char)) : List Char :=
  if t = ['.'] then "=2E".toList
  else if t = ['F'] ∧ ((t :: rest).take 5).flatten = "From ".toList then "=46".toList
  else t

def qpFrom (len : ℕ) : List (List Char) → List Char
  | [] => []
  | t :: rest =>
    let soft := len + t.length > 75
    let len' := if soft then 0 else len
    let t' := if len' = 0 then lineStart t rest else t
    (if soft then '=' :: crlf else []) ++ (t' ++ qpFrom (len' + t'.length) rest)

def qpLine (line : List Char) : List Char := qpFrom 0 (tokens (encode line))

def quotedPrintable (text : List Char) : List Char :=
  crlf.intercalate (((unixBreaks text).splitOn '\n').map qpLine) ++ crlf

end Writer

section Bytes

def upperDigit (n : ℕ) : Char := "0123456789ABCDEF".toList.getD n '0'

theorem hexByte_eq (b : UInt8) :
    hexByte b = [upperDigit (b.toNat / 16), upperDigit (b.toNat % 16)] := by
  have hdigit : ∀ n < 16, n.digitChar.toUpper = upperDigit n := by decide
  have hbyte := b.toNat_lt
  unfold hexByte
  by_cases hone : b.toNat < 16
  · have hhigh : b.toNat / 16 = 0 := Nat.div_eq_of_lt hone
    rw [Nat.toDigits_of_lt_base hone, List.map_singleton, hdigit _ hone, hhigh,
      Nat.mod_eq_of_lt hone]
    rfl
  · have hhigh : b.toNat / 16 < 16 := by omega
    have hlow : b.toNat % 16 < 16 := Nat.mod_lt _ (by decide)
    rw [Nat.toDigits_of_base_le (by decide) (Nat.le_of_not_lt hone), Nat.toDigits_of_lt_base hhigh,
      List.map_append, List.map_singleton, List.map_singleton, hdigit _ hhigh, hdigit _ hlow]
    rfl

theorem toNat_ofNat_byte (b : UInt8) : (Char.ofNat b.toNat).toNat = b.toNat := by
  have hvalid : b.toNat.isValidChar := .inl (b.toNat_lt.trans (by decide))
  unfold Char.ofNat
  rw [dif_pos hvalid]
  rfl

theorem value_upperDigit {n : ℕ} (h : n < 16) : Go.Hex.value (upperDigit n) = some n := by
  revert n
  decide

theorem upperDigit_plain {n : ℕ} (h : n < 16) :
    whiteSpace (upperDigit n) = false ∧ upperDigit n ≠ '=' ∧ upperDigit n ≠ '\'' ∧
      upperDigit n ≠ '\r' := by
  revert n
  decide

theorem digits_lt (b : UInt8) : b.toNat / 16 < 16 ∧ b.toNat % 16 < 16 := by
  have hbyte := b.toNat_lt
  omega

variable {mark : Char} {plain : Char → Option UInt8}

def Reads (mark : Char) (plain : Char → Option UInt8) (text : List Char) (bytes : Bytes) : Prop :=
  ∀ rest, unescape mark plain (text ++ rest) = (unescape mark plain rest).map (bytes ++ ·)

theorem Reads.nil : Reads mark plain [] [] := by
  intro rest
  rw [List.nil_append]
  cases unescape mark plain rest with
  | none => rfl
  | some bytes => rfl

theorem Reads.append {s t : List Char} {a b : Bytes} (hs : Reads mark plain s a)
    (ht : Reads mark plain t b) :
    Reads mark plain (s ++ t) (a ++ b) := by
  intro rest
  rw [List.append_assoc, hs, ht]
  cases unescape mark plain rest with
  | none => rfl
  | some bytes => exact congrArg some (List.append_assoc a b bytes).symm

theorem Reads.read {text : List Char} {bytes : Bytes} (h : Reads mark plain text bytes) :
    unescape mark plain text = some bytes := by
  have hread := h []
  rw [List.append_nil] at hread
  rw [hread, unescape, Option.map_some, List.append_nil]

theorem Reads.char {c : Char} {b : UInt8} (hmark : c ≠ mark) (hc : plain c = some b) :
    Reads mark plain [c] [b] :=
  fun rest => MailText.unescape_plain hmark hc rest

theorem Reads.hexByte (b : UInt8) : Reads mark plain (mark :: hexByte b) [b] := by
  intro rest
  obtain ⟨hhigh, hlow⟩ := digits_lt b
  have hread := @MailText.unescape_mark mark plain _ _ _ _ (value_upperDigit hhigh)
    (value_upperDigit hlow) rest
  rw [hexByte_eq]
  rw [Nat.div_add_mod, UInt8.ofNat_toNat] at hread
  exact hread

end Bytes

section Parameters

theorem unquote_escaped (value : List Char) : MailText.unquote
    (escaped value ++ ['"']) = some value := by
  unfold escaped
  induction value with
  | nil => rfl
  | cons c value ih =>
    rw [List.flatMap_cons, List.append_assoc]
    split
    · have hread : ∀ text, MailText.unquote (['\\', c] ++ text) = (MailText.unquote text).map
          (c :: ·) := fun _ => rfl
      rw [hread, ih]
      rfl
    · next hplain =>
      have hquote : c ≠ '"' := fun hc => hplain (.inr hc)
      have hslash : c ≠ '\\' := fun hc => hplain (.inl hc)
      rw [List.singleton_append, MailText.unquote.eq_def]
      dsimp only
      rw [if_neg hquote, if_neg hslash, ih]
      rfl

theorem alphanum_bounds {c : Char} (h : c.isAlphanum = true) : 33 ≤ c.toNat ∧ c.toNat ≤ 126 := by
  delta Char.isAlphanum Char.isAlpha Char.isUpper Char.isLower Char.isDigit at h
  simp only [Bool.or_eq_true, Bool.and_eq_true, decide_eq_true_eq, UInt32.le_iff_toNat_le,
    ge_iff_le] at h
  change ((65 ≤ c.toNat ∧ c.toNat ≤ 90) ∨ 97 ≤ c.toNat ∧ c.toNat ≤ 122) ∨ 48 ≤ c.toNat ∧
    c.toNat ≤ 57 at h
  omega

theorem attributeByte_plain {b : UInt8} (h : plainAttribute b = true) :
    MailText.attributeByte (Char.ofNat b.toNat) = some b := by
  have hchar : ∀ c : Char, c.isAlphanum = true ∨ c ∈ "!#$&+.^_`|~-".toList →
      (33 ≤ c.toNat ∧ c.toNat ≤ 126) ∧ c ∉ "*'%()<>@,;:\\\"/[]?=".toList := by
    intro c hc
    rcases hc with hc | hc
    · refine ⟨alphanum_bounds hc, fun hmem => ?_⟩
      have hspecial : ∀ d ∈ "*'%()<>@,;:\\\"/[]?=".toList, d.isAlphanum = false :=
        List.all_iff_forall_prop.mp (by decide)
      exact Bool.false_ne_true ((hspecial c hmem).symm.trans hc)
    · have hall : ∀ d ∈ "!#$&+.^_`|~-".toList, (33 ≤ d.toNat ∧ d.toNat ≤ 126) ∧
          d ∉ "*'%()<>@,;:\\\"/[]?=".toList := List.all_iff_forall_prop.mp (by decide)
      exact hall c hc
  unfold plainAttribute at h
  unfold MailText.attributeByte
  rw [if_pos (hchar _ (by simpa using h)), toNat_ofNat_byte, UInt8.ofNat_toNat]

theorem percent_reads (b : UInt8) : Reads '%' MailText.attributeByte (percent b) [b] := by
  unfold percent
  split
  · next hplain =>
    have hread := attributeByte_plain hplain
    apply Reads.char _ hread
    intro hmark
    rw [hmark] at hread
    exact absurd hread (by simp [MailText.attributeByte])
  · exact Reads.hexByte b

theorem quote_notMem_percent (b : UInt8) : '\'' ∉ percent b := by
  unfold percent
  split
  · next hplain =>
    have hread := attributeByte_plain hplain
    intro hmem
    rw [← List.mem_singleton.mp hmem] at hread
    exact absurd hread (by simp [MailText.attributeByte])
  · obtain ⟨hhigh, hlow⟩ := digits_lt b
    rw [hexByte_eq]
    intro hmem
    simp only [List.mem_cons, List.not_mem_nil, or_false] at hmem
    rcases hmem with h | h | h
    · exact absurd h (by decide)
    · exact (upperDigit_plain hhigh).2.2.1 h.symm
    · exact (upperDigit_plain hlow).2.2.1 h.symm

theorem readExtended_percent (C : Charsets) (value : List Char) :
    MailText.readExtended C ("UTF-8''".toList ++ (encode value).flatMap percent) = some value := by
  have hreads : ∀ bytes : Bytes, Reads '%' MailText.attributeByte (bytes.flatMap percent)
      bytes := by
    intro bytes
    induction bytes with
    | nil => exact Reads.nil
    | cons b bytes ih => exact (percent_reads b).append ih
  have hquote : '\'' ∉ (encode value).flatMap percent := by
    intro hmem
    obtain ⟨b, _, hb⟩ := List.mem_flatMap.mp hmem
    exact quote_notMem_percent b hb
  have hparts : ("UTF-8''".toList ++ (encode value).flatMap percent).splitOn '\'' =
      ["UTF-8".toList, [], (encode value).flatMap percent] := by
    have hfirst : '\'' ∉ "UTF-8".toList := by decide
    have htext : "UTF-8''".toList ++ (encode value).flatMap percent =
        "UTF-8".toList ++ '\'' :: ([] ++ '\'' :: (encode value).flatMap percent) := rfl
    rw [htext, List.splitOn_append_cons_self_of_not_mem hfirst,
      List.splitOn_append_cons_self_of_not_mem List.not_mem_nil, List.splitOn_eq_singleton hquote]
  unfold MailText.readExtended
  rw [hparts]
  dsimp only
  rw [(hreads (encode value)).read, Option.bind_some]
  exact C.utf8 _ value rfl

theorem readParam_filenameParam (C : Charsets) (param value : List Char) :
    readParam C param (filenameParam param value) = some value := by
  unfold filenameParam MailText.readParam
  split
  · rw [List.take_left, if_pos rfl, List.drop_left]
    exact unquote_escaped value
  · rw [List.take_left, if_pos rfl, List.drop_left]
    exact readExtended_percent C value

end Parameters

section Words

theorem chunksFrom_spec (start : List Char) (hstart : (encode start).length ≤ 45) (s : List Char) :
    ∃ segments : List (List Char), chunksFrom (encode start) s = segments.map encode ∧
      segments.flatten = start ++ s ∧
      ∀ segment ∈ segments, segment ≠ [] ∧ (encode segment).length ≤ 45 := by
  have hchar : ∀ ch : Char, encode [ch] = String.utf8EncodeChar ch := fun ch => by
    rw [Go.Utf8.encode_cons, encode, List.flatMap_nil, List.append_nil]
  induction s generalizing start with
  | nil =>
    rw [chunksFrom]
    split
    · next hempty =>
      refine ⟨[], rfl, ?_, fun segment hsegment => absurd hsegment List.not_mem_nil⟩
      rw [Go.Utf8.encode_eq_nil.mp hempty]
      rfl
    · next hsome =>
      refine ⟨[start], rfl, by simp, fun segment hsegment => ?_⟩
      rw [List.mem_singleton.mp hsegment]
      exact ⟨fun hnil => hsome (Go.Utf8.encode_eq_nil.mpr hnil), hstart⟩
  | cons ch s ih =>
    have hsize : (encode [ch]).length ≤ 4 := by
      rw [hchar, String.length_utf8EncodeChar]
      exact Char.utf8Size_le_four ch
    rw [chunksFrom, ← hchar ch]
    split
    · next hfull =>
      -- The chunk is not empty, for one character alone is not too long for it.
      obtain ⟨segments, hchunks, hflat, hall⟩ := ih [ch] (by omega)
      refine ⟨start :: segments, by rw [hchunks, List.map_cons], ?_, ?_⟩
      · rw [List.flatten_cons, hflat]
        rfl
      · intro segment hsegment
        rcases List.mem_cons.mp hsegment with rfl | hsegment
        · refine ⟨?_, hstart⟩
          rintro rfl
          have hnone : (encode []).length = 0 := rfl
          omega
        · exact hall segment hsegment
    · next hfits =>
      rw [← Go.Utf8.encode_append]
      obtain ⟨segments, hchunks, hflat, hall⟩ := ih (start ++ [ch]) (by
        rw [Go.Utf8.encode_append, List.length_append]
        omega)
      exact ⟨segments, hchunks, by rw [hflat, List.append_assoc]; rfl, hall⟩

theorem decodeWord_encodeWord (C : Charsets) {segment : List Char} (hne : segment ≠ [])
    (hshort : (encode segment).length ≤ 45) : decodeWord C (encodeWord (encode segment)) =
    some segment := by
  have htext : '?' ∉ Go.Base64.encode (encode segment) := by
    intro hmem
    rcases Go.Base64.mem_encode hmem with h | h
    · rw [Go.Base64.alphabet_eq] at h
      exact absurd h (by decide)
    · exact absurd h (by decide)
  have hparts : (encodeWord (encode segment)).splitOn '?' =
      [['='], "UTF-8".toList, ['B'], Go.Base64.encode (encode segment), ['=']] := by
    have hword : encodeWord (encode segment) = ['='] ++ '?' ::
        ("UTF-8".toList ++ '?' :: (['B'] ++ '?' ::
        (Go.Base64.encode (encode segment) ++ '?' :: ['=']))) := rfl
    rw [hword, List.splitOn_append_cons_self_of_not_mem (by decide),
      List.splitOn_append_cons_self_of_not_mem (by decide),
        List.splitOn_append_cons_self_of_not_mem (by decide),
      List.splitOn_append_cons_self_of_not_mem htext, List.splitOn_eq_singleton (by decide)]
  have hlength : (encodeWord (encode segment)).length ≤ 75 := by
    have hframe : (encodeWord (encode segment)).length = 10 +
        ((Go.Base64.encode (encode segment)).length + 2) := by
      unfold encodeWord
      rw [List.length_append, List.length_append]
      rfl
    rw [hframe, Go.Base64.length_encode]
    omega
  have hbody : Go.Base64.encode (encode segment) ≠ [] := by
    apply List.ne_nil_of_length_pos
    have hpos := List.length_pos_of_ne_nil (mt Go.Utf8.encode_eq_nil.mp hne)
    rw [Go.Base64.length_encode]
    omega
  unfold MailText.decodeWord
  rw [hparts]
  dsimp only
  rw [if_pos ⟨rfl, rfl, hlength, hbody⟩]
  unfold MailText.wordBytes
  rw [if_pos (.inl rfl), Go.Base64.decode_encode, Option.bind_some]
  exact C.utf8 _ segment rfl

theorem encodeWord_plain (w : Bytes) : encodeWord w ≠ [] ∧ ∀ c ∈ encodeWord w, blank c = false ∧
    c ≠ '\r' := by
  have hparts : ∀ c ∈ "=?UTF-8?B?".toList ++ (Go.Base64.alphabet ++ '=' :: "?=".toList),
      blank c = false ∧ c ≠ '\r' := by
    rw [Go.Base64.alphabet_eq]
    exact List.all_iff_forall_prop.mp (by decide)
  refine ⟨List.append_ne_nil_of_left_ne_nil (by decide) _, fun c hc => hparts c ?_⟩
  rcases List.mem_append.mp hc with hc | hc
  · exact List.mem_append_left _ hc
  apply List.mem_append_right
  rcases List.mem_append.mp hc with hc | hc
  · rcases Go.Base64.mem_encode hc with hc | rfl
    · exact List.mem_append_left _ hc
    · exact List.mem_append_right _ List.mem_cons_self
  · exact List.mem_append_right _ (List.mem_cons_of_mem _ hc)

def Plain (C : Charsets) (s : List Char) : Prop := ∀ word ∈ runs s, decodeWord C word = none

theorem readHeader_encodeWords_iff (C : Charsets) (s : List Char) :
    readHeader C (encodeWords s) = s ↔ (∃ c ∈ s, printable c = false) ∨ Plain C s := by
  unfold encodeWords
  split
  · next hall =>
    have hprintable := List.all_eq_true.mp hall
    have hline : '\r' ∉ s := fun hmem => absurd (hprintable _ hmem) (by decide)
    rw [MailText.readHeader_eq_self_iff C hline]
    constructor
    · exact Or.inr
    · rintro (⟨c, hc, hnot⟩ | hplain)
      · rw [hprintable c hc] at hnot
        cases hnot
      · exact hplain
  · next hsome =>
    have hother : ∃ c ∈ s, printable c = false := by
      by_contra hnone
      apply hsome
      apply List.all_eq_true.mpr
      intro c hc
      by_contra hc'
      exact hnone ⟨c, hc, Bool.eq_false_iff.mpr hc'⟩
    refine iff_of_true ?_ (.inl hother)
    obtain ⟨segments, hchunks, hflat, hall⟩ := chunksFrom_spec [] (Nat.zero_le 45) s
    have hpairs : ∀ w ∈ segments.map fun segment => (encodeWord (encode segment), segment),
        decodeWord C w.1 = some w.2 ∧ w.1 ≠ [] ∧ ∀ c ∈ w.1, blank c = false ∧ c ≠ '\r' := by
      intro w hw
      obtain ⟨segment, hsegment, rfl⟩ := List.mem_map.mp hw
      exact ⟨decodeWord_encodeWord C (hall segment hsegment).1 (hall segment hsegment).2,
        encodeWord_plain _⟩
    have hwords := MailText.readHeader_words C hpairs
    rw [List.map_map, List.map_map] at hwords
    have hnil : chunksFrom [] s = segments.map encode := hchunks
    rw [hnil, List.map_map]
    refine hwords.trans ?_
    rw [List.nil_append] at hflat
    rw [← hflat]
    congr 1
    exact List.map_id segments

end Words

section Base64

def chars (bytes : Bytes) : List Char := bytes.map fun b => Char.ofNat b.toNat

theorem B64_digit {n : ℕ} (h : n < 64) : Char.ofNat (B64.getD n 0).toNat = Go.Base64.std.digit
    n := by
  have hascii : ∀ c ∈ Go.Base64.alphabet, Char.ofNat (UInt8.ofNat c.toNat).toNat = c :=
    Go.Base64.alphabet_eq ▸ List.all_iff_forall_prop.mp (by decide)
  have hlt : n < Go.Base64.alphabet.length := h.trans_eq Go.Base64.length_alphabet.symm
  unfold B64 Go.Base64.Alphabet.digit
  rw [List.getD_eq_getElem _ _ (by rwa [List.length_map]), List.getElem_map]
  simp only [Nat.mod_eq_of_lt h]
  exact hascii _ (List.getElem_mem hlt)

theorem joined_eq (a b c : UInt8) :
    a.toNat <<< 16 ||| b.toNat <<< 8 ||| c.toNat = a.toNat * 65536 + b.toNat * 256 + c.toNat := by
  have hb := b.toNat_lt
  have hc := c.toNat_lt
  have hlow : b.toNat <<< 8 ||| c.toNat = b.toNat * 256 + c.toNat := by
    rw [← Nat.shiftLeft_add_eq_or_of_lt hc, Nat.shiftLeft_eq]
  have hsum : b.toNat * 256 + c.toNat < 2 ^ 16 := by omega
  rw [Nat.or_assoc, hlow, ← Nat.shiftLeft_add_eq_or_of_lt hsum, Nat.shiftLeft_eq, Nat.add_assoc]

theorem chars_digits (n : ℕ) (a b c : UInt8) : chars (digits n a b c) =
    [Go.Base64.std.digit (a.toNat / 4), Go.Base64.std.digit (a.toNat % 4 * 16 + b.toNat / 16),
      if n > 1 then Go.Base64.std.digit (b.toNat % 16 * 4 + c.toNat / 64) else '=',
      if n > 2 then Go.Base64.std.digit (c.toNat % 64) else '='] := by
  have ha := a.toNat_lt
  have hb := b.toNat_lt
  have hc := c.toNat_lt
  have hmask : ∀ v k : ℕ, v >>> k &&& 63 = v / 2 ^ k % 64 := fun v k => by
    rw [Nat.shiftRight_eq_div_pow]
    exact Nat.and_two_pow_sub_one_eq_mod _ 6
  have hlast : ∀ v : ℕ, v &&& 63 = v % 64 := fun v => Nat.and_two_pow_sub_one_eq_mod v 6
  have h₁ : (a.toNat * 65536 + b.toNat * 256 + c.toNat) / 2 ^ 18 % 64 = a.toNat / 4 := by omega
  have h₂ : (a.toNat * 65536 + b.toNat * 256 + c.toNat) / 2 ^ 12 % 64 = a.toNat % 4 * 16 +
      b.toNat / 16 := by omega
  have h₃ : (a.toNat * 65536 + b.toNat * 256 + c.toNat) / 2 ^ 6 % 64 = b.toNat % 16 * 4 +
      c.toNat / 64 := by omega
  have h₄ : (a.toNat * 65536 + b.toNat * 256 + c.toNat) % 64 = c.toNat % 64 := by omega
  have hpad : Char.ofNat (0x3d : UInt8).toNat = '=' := rfl
  unfold chars digits
  simp only [joined_eq, hmask, hlast, h₁, h₂, h₃, h₄, List.map_cons, List.map_nil, List.cons.injEq,
    and_true]
  refine ⟨B64_digit (by omega), B64_digit (by omega), ?_, ?_⟩
  · split
    · exact B64_digit (by omega)
    · exact hpad
  · split
    · exact B64_digit (by omega)
    · exact hpad

theorem chars_append (s t : Bytes) : chars (s ++ t) = chars s ++ chars t := List.map_append

theorem chars_break : chars [0x0d, 0x0a] = crlf := rfl

theorem digits_plain (n : ℕ) (a b c : UInt8) :
    ∀ x ∈ chars (digits n a b c), x ∈ Go.Base64.alphabet ∨ x = '=' := by
  intro x hx
  rw [chars_digits] at hx
  simp only [List.mem_cons, List.not_mem_nil, or_false] at hx
  rcases hx with rfl | rfl | rfl | rfl
  · exact .inl (Go.Base64.std.digit_mem _)
  · exact .inl (Go.Base64.std.digit_mem _)
  · split
    · exact .inl (Go.Base64.std.digit_mem _)
    · exact .inr rfl
  · split
    · exact .inl (Go.Base64.std.digit_mem _)
    · exact .inr rfl

theorem length_digits (n : ℕ) (a b c : UInt8) : (digits n a b c).length = 4 := rfl

theorem filter_digits (n : ℕ) (a b c : UInt8) (rest : List Char) :
    (chars (digits n a b c) ++ rest).filter (fun x => decide (x ∈ Go.Base64.alphabet ∨ x = '=')) =
      chars (digits n a b c) ++ rest.filter fun x => decide (x ∈ Go.Base64.alphabet ∨ x = '=') := by
  rw [List.filter_append]
  congr 1
  rw [List.filter_eq_self]
  intro x hx
  exact decide_eq_true (digits_plain n a b c x hx)

theorem filter_break (rest : List Char) :
    (crlf ++ rest).filter (fun x => decide (x ∈ Go.Base64.alphabet ∨ x = '=')) =
      rest.filter fun x => decide (x ∈ Go.Base64.alphabet ∨ x = '=') := by
  have hnone : crlf.filter (fun x => decide (x ∈ Go.Base64.alphabet ∨ x = '=')) = [] := by
    rw [Go.Base64.alphabet_eq]
    decide
  rw [List.filter_append, hnone, List.nil_append]

theorem filter_base64From (bytes : Bytes) (col : ℕ) :
    (chars (base64From col bytes)).filter (fun x => decide (x ∈ Go.Base64.alphabet ∨ x = '=')) =
      Go.Base64.encode bytes := by
  have hend := filter_break []
  rw [List.append_nil, List.filter_nil] at hend
  induction bytes using Go.Base64.encode.induct generalizing col with
  | case1 => rfl
  | case2 a =>
    rw [base64From, chars_append, chars_break, filter_digits, hend, chars_digits]
    rfl
  | case3 a b =>
    rw [base64From, chars_append, chars_break, filter_digits, hend, chars_digits]
    rfl
  | case4 a b c rest ih =>
    have hone : rest.length + 3 > 1 := by omega
    have htwo : rest.length + 3 > 2 := by omega
    rw [base64From, Go.Base64.encode]
    split
    · rw [chars_append, chars_append, chars_break, filter_digits, filter_break, ih, chars_digits,
        if_pos hone, if_pos htwo]
      rfl
    · rw [chars_append, filter_digits, ih, chars_digits, if_pos hone, if_pos htwo]
      rfl

theorem length_append_digits (cur : List Char) (n : ℕ) (a b c : UInt8) :
    (cur ++ chars (digits n a b c)).length = cur.length + 4 := by
  rw [List.length_append]
  rfl

theorem notMem_append_digits {cur : List Char} (hcur : '\r' ∉ cur) (n : ℕ) (a b c : UInt8) :
    '\r' ∉ cur ++ chars (digits n a b c) := by
  intro hmem
  rcases List.mem_append.mp hmem with hmem | hmem
  · exact hcur hmem
  · rcases digits_plain n a b c _ hmem with h | h
    · rw [Go.Base64.alphabet_eq] at h
      exact absurd h (by decide)
    · exact absurd h (by decide)

theorem lines_append_digits {cur : List Char} (hcur : '\r' ∉ cur) (hcol : cur.length ≤ 72) (n : ℕ)
    (a b c : UInt8) {text : List Char} (htext : ∀ line ∈ lines text, line.length ≤ 76) :
    ∀ line ∈ lines (cur ++ (chars (digits n a b c) ++ (crlf ++ text))), line.length ≤ 76 := by
  intro line hmem
  rw [← List.append_assoc, MailText.lines_crlf (notMem_append_digits hcur n a b c)] at hmem
  rcases List.mem_cons.mp hmem with rfl | hmem
  · rw [length_append_digits]
    omega
  · exact htext line hmem

theorem lines_base64From (bytes : Bytes) (cur : List Char) (hcur : '\r' ∉ cur)
    (hcol : cur.length ≤ 72) (hfour : cur.length % 4 = 0) (hbytes : bytes = [] → cur = []) :
    ∀ line ∈ lines (cur ++ chars (base64From cur.length bytes)), line.length ≤ 76 := by
  have hnone : ∀ line ∈ lines [], line.length ≤ 76 := by decide
  induction bytes using Go.Base64.encode.induct generalizing cur with
  | case1 =>
    have hnil := hbytes rfl
    subst hnil
    exact hnone
  | case2 a => exact lines_append_digits hcur hcol 1 a 0 0 hnone
  | case3 a b => exact lines_append_digits hcur hcol 2 a b 0 hnone
  | case4 a b c rest ih =>
    rw [base64From]
    split
    · rw [chars_append, chars_append, chars_break]
      exact lines_append_digits hcur hcol _ a b c
        (ih [] List.not_mem_nil (Nat.zero_le 72) rfl fun _ => rfl)
    · next hmore =>
      have hlength := length_append_digits cur (rest.length + 3) a b c
      have hnext := ih (cur ++ chars (digits (rest.length + 3) a b c))
        (notMem_append_digits hcur _ a b c) (by omega)
        (by omega) fun hnil => absurd (.inr hnil) hmore
      rw [chars_append, ← List.append_assoc, ← hlength]
      exact hnext

theorem length_base64From {bytes : Bytes} (hbytes : bytes ≠ []) {col : ℕ} (hcol : col ≤ 72)
    (hfour : col % 4 = 0) :
    (base64From col bytes).length =
      (bytes.length + 2) / 3 * 4 + (col + (bytes.length + 2) / 3 * 4 + 75) / 76 * 2 := by
  induction bytes using Go.Base64.encode.induct generalizing col with
  | case1 => exact absurd rfl hbytes
  | case2 a =>
    rw [base64From]
    simp only [List.length_append, length_digits, List.length_cons, List.length_nil]
    omega
  | case3 a b =>
    rw [base64From]
    simp only [List.length_append, length_digits, List.length_cons, List.length_nil]
    omega
  | case4 a b c rest ih =>
    rw [base64From]
    split
    · next hfull =>
      simp only [List.length_append, length_digits, List.length_cons, List.length_nil]
      by_cases hrest : rest = []
      · subst hrest
        simp only [base64From, List.length_nil]
        omega
      · have hlength := ih hrest (Nat.zero_le 72) rfl
        have hend := hfull.resolve_right hrest
        omega
    · next hmore =>
      have hrest : rest ≠ [] := fun hnil => hmore (.inr hnil)
      have hlength := @ih hrest (col + 4) (by omega) (by omega)
      simp only [List.length_append, length_digits, List.length_cons]
      omega

theorem base64Lines_eq (bytes : Bytes) : base64Lines bytes = base64From 0 bytes := by
  have hlength : (base64From 0 bytes).length =
      (bytes.length + 2) / 3 * 4 + ((bytes.length + 2) / 3 * 4 + 75) / 76 * 2 := by
    by_cases hbytes : bytes = []
    · subst hbytes
      rfl
    · have hexact := length_base64From hbytes (Nat.zero_le 72) rfl
      rwa [Nat.zero_add] at hexact
  unfold base64Lines
  dsimp only
  rw [← hlength, List.take_length, Nat.sub_self, List.replicate_zero, List.append_nil]

theorem readBase64_base64Lines (bytes : Bytes) : readBase64
    (chars (base64Lines bytes)) = some bytes := by
  unfold MailText.readBase64
  rw [base64Lines_eq, filter_base64From, Go.Base64.decode_encode]

theorem lines_base64Lines (bytes : Bytes) : ∀ line ∈ lines (chars (base64Lines bytes)),
    line.length ≤ 76 := by
  rw [base64Lines_eq]
  exact lines_base64From bytes [] List.not_mem_nil (Nat.zero_le 72) rfl fun _ => rfl

end Base64

section Lines

def withCrlf : List Char → List Char
  | [] => []
  | [c] => if c = '\r' ∨ c = '\n' then crlf else [c]
  | c :: d :: text =>
    if c = '\r' ∧ d = '\n' then crlf ++ withCrlf text
    else (if c = '\r' ∨ c = '\n' then crlf else [c]) ++ withCrlf (d :: text)

theorem flatMap_unixBreaks (text : List Char) :
    (unixBreaks text).flatMap (fun c => if c = '\n' then crlf else [c]) = withCrlf text := by
  induction text using unixBreaks.induct with
  | case1 => rfl
  | case2 c =>
    rw [unixBreaks, withCrlf, List.flatMap_singleton]
    by_cases hcr : c = '\r'
    · rw [if_pos hcr, if_pos rfl, if_pos (.inl hcr)]
    · rw [if_neg hcr]
      by_cases hlf : c = '\n'
      · rw [if_pos hlf, if_pos (.inr hlf)]
      · rw [if_neg hlf, if_neg fun h => h.elim hcr hlf]
  | case3 d text hnext hsame =>
    rw [unixBreaks, withCrlf, if_pos rfl, List.flatMap_cons, if_pos rfl]
    by_cases hlf : d = '\n'
    · rw [if_pos hlf, if_pos ⟨rfl, hlf⟩, hnext]
    · rw [if_neg hlf, if_neg fun h => hlf h.2, if_pos (.inl rfl), hsame]
  | case4 c d text hcr ih =>
    rw [unixBreaks, withCrlf, if_neg hcr, if_neg fun h => hcr h.1, List.flatMap_cons, ih]
    by_cases hlf : c = '\n'
    · rw [if_pos hlf, if_pos (.inr hlf)]
    · rw [if_neg hlf, if_neg fun h => h.elim hcr hlf]

theorem flatMap_splitOn (text : List Char) : (text.splitOn '\n').flatMap
    (fun line => line ++ crlf) =
    text.flatMap (fun c => if c = '\n' then crlf else [c]) ++ crlf := by
  induction text with
  | nil => rfl
  | cons c text ih =>
    rw [List.splitOn_cons_eq_if_modifyHead, List.flatMap_cons, List.append_assoc, ← ih]
    by_cases hc : c = '\n'
    · rw [if_pos hc, if_pos (beq_iff_eq.mpr hc)]
      rfl
    · rw [if_neg hc, if_neg (mt beq_iff_eq.mp hc)]
      obtain ⟨line, rest, hlines⟩ := List.exists_cons_of_ne_nil (List.splitOn_ne_nil '\n' text)
      rw [hlines]
      rfl

structure Token (t : List Char) (b : UInt8) : Prop where
  reads : Reads '=' literal t [b]
  plain : '\r' ∉ t
  form : (∃ c, t = [c] ∧ c ≠ '=') ∨ ∃ d e, t = ['=', d, e]

def Ends (t : List Char) : Prop := ∀ c ∈ t.getLast?, whiteSpace c = false ∧ c ≠ '='

theorem Token.length_le {t : List Char} {b : UInt8} (h : Token t b) : t ≠ [] ∧ t.length ≤ 3 := by
  obtain ⟨c, rfl, _⟩ | ⟨d, e, rfl⟩ := h.form
  · exact ⟨List.cons_ne_nil _ _, Nat.le_add_left 1 2⟩
  · exact ⟨List.cons_ne_nil _ _, Nat.le_refl 3⟩

theorem blank_of_whiteSpace {c : Char} (h : whiteSpace c = false) : blank c = false := by
  by_contra hblank
  rw [Bool.not_eq_false] at hblank
  rcases Bool.or_eq_true_iff.mp hblank with hc | hc
  · rw [beq_iff_eq.mp hc] at h
    exact absurd h (by decide)
  · rw [beq_iff_eq.mp hc] at h
    exact absurd h (by decide)

theorem token_hexByte (b : UInt8) : Token ('=' :: hexByte b) b ∧ Ends ('=' :: hexByte b) := by
  obtain ⟨hhigh, hlow⟩ := digits_lt b
  have hplain := upperDigit_plain hlow
  have hreturn : '\r' ∉ '=' :: hexByte b := by
    rw [hexByte_eq]
    intro hmem
    simp only [List.mem_cons, List.not_mem_nil, or_false] at hmem
    rcases hmem with h | h | h
    · exact absurd h (by decide)
    · exact (upperDigit_plain hhigh).2.2.2 h.symm
    · exact hplain.2.2.2 h.symm
  refine ⟨⟨Reads.hexByte b, hreturn, .inr ⟨_, _, by rw [hexByte_eq]⟩⟩, ?_⟩
  rw [hexByte_eq]
  intro c hc
  cases hc
  exact ⟨hplain.1, hplain.2.1⟩

theorem isLiteral_spec {b : UInt8} {last : Bool} (h : isLiteral b last = true) :
    (Char.ofNat b.toNat ≠ '=' ∧ Char.ofNat b.toNat ≠ '\r' ∧ literal (Char.ofNat b.toNat) = some b) ∧
      (last = true → whiteSpace (Char.ofNat b.toNat) = false) := by
  have hnat := toNat_ofNat_byte b
  generalize Char.ofNat b.toNat = c at hnat
  have hchar : ∀ d : Char, c = d → b.toNat = d.toNat := fun d hd => by rw [← hnat, hd]
  simp only [isLiteral, decide_eq_true_eq, UInt8.le_iff_toNat_le, ne_eq, ← UInt8.toNat_inj] at h
  have hcases : (33 ≤ b.toNat ∧ b.toNat ≤ 126 ∧ b.toNat ≠ 61) ∨
      ((b.toNat = 32 ∨ b.toNat = 9) ∧ last = false) := h
  refine ⟨⟨fun hc => ?_, fun hc => ?_, ?_⟩, fun hlast => ?_⟩
  · have heq : b.toNat = 61 := hchar '=' hc
    omega
  · have heq : b.toNat = 13 := hchar '\r' hc
    omega
  · have hgood : (33 ≤ c.toNat ∧ c.toNat ≤ 126) ∨ blank c = true := by
      rcases hcases with hrange | ⟨hspace | htab, -⟩
      · exact .inl ⟨by omega, by omega⟩
      · have hc : c = ' ' := Char.toNat_inj.mp (hnat.trans hspace)
        exact .inr (by rw [hc]; rfl)
      · have hc : c = '\t' := Char.toNat_inj.mp (hnat.trans htab)
        exact .inr (by rw [hc]; rfl)
    rw [literal, if_pos hgood, hnat, UInt8.ofNat_toNat]
  · rw [hlast] at hcases
    have hrange : 33 ≤ c.toNat ∧ c.toNat ≤ 126 := by
      rcases hcases with hrange | ⟨-, hfalse⟩
      · omega
      · cases hfalse
    simp only [whiteSpace, List.mem_cons, List.not_mem_nil, or_false, decide_eq_false_iff_not]
    omega

theorem token_spec (b : UInt8) (last : Bool) : Token (token b last) b ∧
    (last = true → Ends (token b last)) := by
  unfold token
  split
  · next hliteral =>
    obtain ⟨⟨hmark, hreturn, hread⟩, hlast⟩ := isLiteral_spec hliteral
    refine ⟨⟨Reads.char hmark hread, fun hmem => hreturn (List.mem_singleton.mp hmem).symm,
      .inl ⟨_, rfl, hmark⟩⟩, ?_⟩
    intro h c hc
    cases hc
    exact ⟨hlast h, hmark⟩
  · exact ⟨(token_hexByte b).1, fun _ => (token_hexByte b).2⟩

theorem tokens_spec (bytes : Bytes) :
    List.Forall₂ Token (tokens bytes) bytes ∧ ∀ t ∈ (tokens bytes).getLast?, Ends t := by
  induction bytes with
  | nil => exact ⟨.nil, fun t ht => by cases ht⟩
  | cons b bytes ih =>
    obtain ⟨htoken, hlast⟩ := token_spec b bytes.isEmpty
    refine ⟨.cons htoken ih.1, ?_⟩
    cases bytes with
    | nil =>
      intro t ht
      cases ht
      exact hlast rfl
    | cons b' bytes =>
      rw [tokens, tokens, List.getLast?_cons_cons]
      exact ih.2

end Lines

section QuotedPrintable

def FROM : List Char := "From ".toList

def encodedLines (cur : List Char) : List (List Char) → List (List Char)
  | [] => [cur]
  | t :: rest =>
    if cur.length + t.length > 75 then (cur ++ ['=']) :: encodedLines (lineStart t rest) rest
    else if cur = [] then encodedLines (lineStart t rest) rest
    else encodedLines (cur ++ t) rest

theorem flatMap_encodedLines (ts : List (List Char)) (cur : List Char) :
    (encodedLines cur ts).flatMap (fun line => line ++ crlf) = cur ++
      (qpFrom cur.length ts ++ crlf) := by
  induction ts generalizing cur with
  | nil => rw [encodedLines, qpFrom, List.flatMap_singleton, List.nil_append]
  | cons t rest ih =>
    rw [encodedLines, qpFrom]
    by_cases hsoft : cur.length + t.length > 75
    · rw [if_pos hsoft, List.flatMap_cons, ih]
      simp only [hsoft, if_true, List.append_assoc, List.cons_append, List.nil_append, Nat.zero_add]
    · rw [if_neg hsoft]
      by_cases hcur : cur = []
      · subst hcur
        rw [if_pos rfl, ih]
        have hfits : ¬ t.length > 75 := fun hlong => hsoft (hlong.trans_le (Nat.le_add_left _ _))
        simp only [List.length_nil, Nat.zero_add, if_neg hfits, if_true, List.nil_append,
          List.append_assoc]
      · have hlength : cur.length ≠ 0 := mt List.length_eq_zero_iff.mp hcur
        rw [if_neg hcur, ih]
        simp only [if_neg hsoft, if_neg hlength, List.nil_append, List.append_assoc,
          List.length_append]

structure Safe (line : List Char) : Prop where
  short : line.length ≤ 76
  ends : ∀ c ∈ line.getLast?, whiteSpace c = false
  undotted : ¬ ['.'] <+: line
  unseparated : ¬ FROM <+: line

def Begins (text : List Char) : Prop := ¬ ['.'] <+: text ∧ ¬ FROM <+: text

/-- An encoded line that has begun with `cur`, which stands for `read`, and goes on with the tokens
`ts`. -/
structure Begun (cur : List Char) (read : Bytes) (ts : List (List Char)) : Prop where
  reads : Reads '=' literal cur read
  plain : '\r' ∉ cur
  fits : cur.length ≤ 75
  begins : cur = [] ∨ Begins (cur ++ ts.flatten)
  ends : ts = [] → Ends cur
  last : ∀ t ∈ ts.getLast?, Ends t

theorem take_of_starts {ts : List (List Char)} {bytes : Bytes} (h : List.Forall₂ Token ts bytes)
    {w : List Char} (hw : '=' ∉ w) (hstart : w <+: ts.flatten) : (ts.take w.length).flatten =
    w := by
  induction w generalizing ts bytes with
  | nil => rfl
  | cons c w ih =>
    cases h with
    | nil => exact absurd (List.prefix_nil.mp hstart) (List.cons_ne_nil _ _)
    | cons htoken hrest =>
      rw [List.flatten_cons] at hstart
      obtain ⟨d, rfl, _⟩ | ⟨d, e, rfl⟩ := htoken.form
      · obtain ⟨rfl, htail⟩ := List.cons_prefix_cons.mp hstart
        have hrest := ih hrest (fun hmem => hw (List.mem_cons_of_mem c hmem)) htail
        rw [List.length_cons, List.take_succ_cons, List.flatten_cons, hrest]
        rfl
      · obtain ⟨rfl, _⟩ := List.cons_prefix_cons.mp hstart
        exact absurd List.mem_cons_self hw

theorem ends_append {s t : List Char} (ht : t ≠ []) (h : Ends t) : Ends (s ++ t) := by
  unfold Ends
  rw [List.getLast?_append_of_ne_nil s ht]
  exact h

theorem lineStart_token {t : List Char} {b : UInt8} (h : Token t b) (rest : List (List Char)) :
    Token (lineStart t rest) b ∧ (Ends t → Ends (lineStart t rest)) := by
  unfold lineStart
  split
  · next hdot =>
    subst hdot
    have hbyte : b = 46 := (List.singleton_inj.mp (Option.some.inj h.reads.read)).symm
    subst hbyte
    exact ⟨(token_hexByte 46).1, fun _ => (token_hexByte 46).2⟩
  · split
    · next hfrom =>
      obtain ⟨rfl, _⟩ := hfrom
      have hbyte : b = 70 := (List.singleton_inj.mp (Option.some.inj h.reads.read)).symm
      subst hbyte
      exact ⟨(token_hexByte 70).1, fun _ => (token_hexByte 70).2⟩
    · exact ⟨h, id⟩

variable {rest : List (List Char)}

theorem begins_lineStart {t : List Char} {bytes : Bytes} (h : List.Forall₂ Token (t :: rest) bytes)
    : Begins (lineStart t rest ++ rest.flatten) := by
  have hescaped : ∀ d e text, Begins ('=' :: d :: e :: text) := by
    intro d e text
    constructor
    · intro hstart
      exact absurd (List.cons_prefix_cons.mp hstart).1 (by decide)
    · intro hstart
      exact absurd (List.cons_prefix_cons.mp hstart).1 (by decide)
  unfold lineStart
  split
  · exact hescaped '2' 'E' rest.flatten
  · next hdot =>
    split
    · exact hescaped '4' '6' rest.flatten
    · next hfrom =>
      cases h with
      | cons htoken hrest =>
        obtain ⟨c, rfl, hc⟩ | ⟨d, e, rfl⟩ := htoken.form
        · constructor
          · intro hstart
            obtain ⟨rfl, _⟩ := List.cons_prefix_cons.mp hstart
            exact hdot rfl
          · intro hstart
            have htake := take_of_starts (.cons htoken hrest) (w := FROM) (by decide) hstart
            obtain ⟨rfl, _⟩ := List.cons_prefix_cons.mp hstart
            exact hfrom ⟨rfl, htake⟩
        · exact hescaped d e rest.flatten

theorem Begun.of_lineStart {t : List Char} {b : UInt8} {bytes : Bytes}
    (h : List.Forall₂ Token (t :: rest) (b :: bytes))
    (hlast : ∀ t' ∈ (t :: rest).getLast?, Ends t') :
    Begun (lineStart t rest) [b] rest := by
  cases h with
  | cons htoken hrest =>
    obtain ⟨htoken', hends⟩ := lineStart_token htoken rest
    have hbegins := begins_lineStart (.cons htoken hrest)
    refine ⟨htoken'.reads, htoken'.plain, htoken'.length_le.2.trans (by decide), .inr hbegins, ?_,
      ?_⟩
    · rintro rfl
      exact hends (hlast t rfl)
    · intro t' ht'
      apply hlast
      cases rest with
      | nil => cases ht'
      | cons next rest => rwa [List.getLast?_cons_cons]

variable {read : Bytes}

theorem Begun.add {cur t : List Char} {b : UInt8} (h : Begun cur read (t :: rest))
    (htoken : Token t b) (hcur : cur ≠ []) (hfits : ¬ cur.length + t.length > 75) :
    Begun (cur ++ t) (read ++ [b]) rest := by
  refine ⟨h.reads.append htoken.reads, ?_, ?_, .inr ?_, ?_, ?_⟩
  · intro hmem
    rcases List.mem_append.mp hmem with hmem | hmem
    · exact h.plain hmem
    · exact htoken.plain hmem
  · rw [List.length_append]
    omega
  · have hbegins := h.begins.resolve_left hcur
    rwa [List.flatten_cons, ← List.append_assoc] at hbegins
  · rintro rfl
    exact ends_append htoken.length_le.1 (h.last t rfl)
  · intro t' ht'
    apply h.last
    cases rest with
    | nil => cases ht'
    | cons next rest => rwa [List.getLast?_cons_cons]

theorem Begun.safe_soft {cur : List Char} {ts : List (List Char)} (h : Begun cur read ts)
    (hlong : 5 ≤ cur.length) : Safe (cur ++ ['=']) ∧
    '\r' ∉ cur ++ ['='] := by
  have hcur : cur ≠ [] := by
    rintro rfl
    exact absurd hlong (by decide)
  obtain ⟨hdot, hfrom⟩ := h.begins.resolve_left hcur
  have hwithin : ∀ w : List Char, w.length ≤ cur.length → w <+: cur ++ ['='] →
      w <+: cur ++ ts.flatten := by
    intro w hw hstart
    have hcut := List.prefix_of_prefix_length_le hstart (List.prefix_append cur ['=']) hw
    exact hcut.trans (List.prefix_append cur ts.flatten)
  refine ⟨⟨?_, ?_, fun hstart => hdot (hwithin _ ?_ hstart), fun hstart =>
    hfrom (hwithin _ hlong hstart)⟩, ?_⟩
  · have hfits := h.fits
    rw [List.length_append, List.length_singleton]
    omega
  · intro c hc
    rw [List.getLast?_append_of_ne_nil cur (List.cons_ne_nil '=' [])] at hc
    cases hc
    decide
  · exact Nat.le_trans (by decide) hlong
  · intro hmem
    rcases List.mem_append.mp hmem with hmem | hmem
    · exact h.plain hmem
    · exact absurd hmem (by decide)

theorem Begun.safe_hard {cur : List Char} (h : Begun cur read []) : Safe cur := by
  have hends := h.ends rfl
  refine ⟨h.fits.trans (by decide), fun c hc => (hends c hc).1, ?_, ?_⟩
  · intro hstart
    rcases h.begins with rfl | hbegins
    · exact absurd (List.prefix_nil.mp hstart) (by decide)
    · exact hbegins.1 (hstart.trans (List.prefix_append cur _))
  · intro hstart
    rcases h.begins with rfl | hbegins
    · exact absurd (List.prefix_nil.mp hstart) (by decide)
    · exact hbegins.2 (hstart.trans (List.prefix_append cur _))

theorem rdropWhile_of_ends {line : List Char} (h : ∀ c ∈ line.getLast?, blank c = false) :
    line.rdropWhile blank = line := by
  rw [List.rdropWhile_eq_self_iff]
  intro hline
  rw [h _ (List.getLast?_eq_some_getLast hline)]
  exact Bool.false_ne_true

theorem readLines_soft {cur : List Char} (h : Reads '=' literal cur read)
    (rest : List (List Char)) :
    MailText.readLines ((cur ++ ['=']) :: rest) = (MailText.readLines rest).map (read ++ ·) := by
  have hkept : (cur ++ ['=']).rdropWhile blank = cur ++ ['='] := by
    apply rdropWhile_of_ends
    intro c hc
    rw [List.getLast?_append_of_ne_nil cur (List.cons_ne_nil '=' [])] at hc
    cases hc
    decide
  have hlast : (cur ++ ['=']).getLast? = some '=' := List.getLast?_concat
  rw [MailText.readLines, hkept, if_pos hlast, List.dropLast_concat, h.read]
  cases MailText.readLines rest with
  | none => rfl
  | some bytes => rfl

theorem readLines_hard {line : List Char} (h : Reads '=' literal line read) (hends : Ends line)
    (hrest : rest ≠ []) :
    MailText.readLines (line :: rest) = (MailText.readLines rest).map fun bytes =>
      read ++ ([13, 10] ++ bytes) := by
  have hkept := rdropWhile_of_ends fun c hc => blank_of_whiteSpace (hends c hc).1
  have hlast : line.getLast? ≠ some '=' := fun hsome => (hends '=' hsome).2 rfl
  rw [MailText.readLines, hkept, if_neg hlast, if_neg hrest, h.read]
  cases MailText.readLines rest with
  | none => rfl
  | some bytes => rfl

theorem encodedLines_spec {ts : List (List Char)} {bytes : Bytes} (h : List.Forall₂ Token ts bytes)
    {cur : List Char} (hbegun : Begun cur read ts) :
    (∀ line ∈ encodedLines cur ts, Safe line ∧ '\r' ∉ line) ∧
      ∀ rest ≠ [], MailText.readLines (encodedLines cur ts ++ rest) =
        (MailText.readLines rest).map fun later => read ++ bytes ++ ([13, 10] ++ later) := by
  induction h generalizing cur read with
  | nil =>
    rw [encodedLines]
    constructor
    · intro line hline
      rw [List.mem_singleton.mp hline]
      exact ⟨hbegun.safe_hard, hbegun.plain⟩
    · intro rest hrest
      rw [List.append_nil]
      exact readLines_hard hbegun.reads (hbegun.ends rfl) hrest
  | @cons t b ts bytes htoken hts ih =>
    have hstart := Begun.of_lineStart (.cons htoken hts) hbegun.last
    have hlength := htoken.length_le.2
    rw [encodedLines]
    split
    · next hsoft =>
      obtain ⟨hsafe, hread⟩ := ih hstart
      constructor
      · intro line hline
        rcases List.mem_cons.mp hline with rfl | hline
        · exact hbegun.safe_soft (by omega)
        · exact hsafe line hline
      · intro rest hrest
        rw [List.cons_append, readLines_soft hbegun.reads, hread rest hrest, Option.map_map]
        congr 1
        funext later
        exact (List.append_assoc _ _ _).symm
    · next hfits =>
      split
      · next hcur =>
        subst hcur
        obtain ⟨hsafe, hread⟩ := ih hstart
        have hnone : read = [] := (Option.some.inj hbegun.reads.read).symm
        subst hnone
        exact ⟨hsafe, hread⟩
      · next hcur =>
        obtain ⟨hsafe, hread⟩ := ih (hbegun.add htoken hcur hfits)
        refine ⟨hsafe, fun rest hrest => ?_⟩
        rw [hread rest hrest, List.append_assoc read [b] bytes]
        rfl

theorem begun_start (bytes : Bytes) : Begun [] [] (tokens bytes) :=
  ⟨Reads.nil, List.not_mem_nil, Nat.zero_le 75, .inl rfl, fun _ c hc => (by cases hc),
    (tokens_spec bytes).2⟩

def allLines (text : List Char) : List (List Char) :=
  ((unixBreaks text).splitOn '\n').flatMap fun line => encodedLines [] (tokens (encode line))

theorem intercalate_append (pieces : List (List Char)) (h : pieces ≠ []) :
    crlf.intercalate pieces ++ crlf = pieces.flatMap fun piece => piece ++ crlf := by
  induction pieces with
  | nil => exact absurd rfl h
  | cons piece pieces ih =>
    cases pieces with
    | nil => rw [List.intercalate_singleton, List.flatMap_singleton]
    | cons next pieces =>
      rw [List.intercalate_cons_cons, List.flatMap_cons, ← ih (List.cons_ne_nil _ _),
        List.append_assoc, List.append_assoc]

theorem quotedPrintable_eq (text : List Char) :
    quotedPrintable text = (allLines text).flatMap fun line => line ++ crlf := by
  have hne : ((unixBreaks text).splitOn '\n').map qpLine ≠ [] :=
    mt List.map_eq_nil_iff.mp (List.splitOn_ne_nil '\n' _)
  unfold quotedPrintable allLines
  rw [intercalate_append _ hne, List.flatMap_map, List.flatMap_assoc]
  congr 1
  funext line
  rw [flatMap_encodedLines]
  rfl

theorem lines_quotedPrintable (text : List Char) :
    lines (quotedPrintable text) = allLines text ++ [[]] := by
  rw [quotedPrintable_eq]
  apply MailText.lines_flatMap
  intro line hline
  obtain ⟨piece, _, hmem⟩ := List.mem_flatMap.mp hline
  exact ((encodedLines_spec (tokens_spec (encode piece)).1 (begun_start _)).1 line hmem).2

theorem safe_quotedPrintable (text : List Char) : ∀ line ∈ lines (quotedPrintable text),
    Safe line := by
  intro line hline
  rw [lines_quotedPrintable] at hline
  rcases List.mem_append.mp hline with hline | hline
  · obtain ⟨piece, _, hmem⟩ := List.mem_flatMap.mp hline
    exact ((encodedLines_spec (tokens_spec (encode piece)).1 (begun_start _)).1 line hmem).1
  · rw [List.mem_singleton.mp hline]
    exact (begun_start []).safe_hard

theorem read_quotedPrintable (text : List Char) :
    readQuotedPrintable (quotedPrintable text) = some (encode (withCrlf text ++ crlf)) := by
  have hpieces : ∀ pieces : List (List Char),
      MailText.readLines (pieces.flatMap (fun line => encodedLines [] (tokens (encode line))) ++
        [[]]) =
        some (encode (pieces.flatMap fun line => line ++ crlf)) := by
    intro pieces
    induction pieces with
    | nil => rfl
    | cons piece pieces ih =>
      have hread := (encodedLines_spec (tokens_spec (encode piece)).1 (begun_start _)).2
        (pieces.flatMap (fun line => encodedLines [] (tokens (encode line))) ++ [[]])
        (List.append_ne_nil_of_right_ne_nil _ (List.cons_ne_nil _ _))
      have hcrlf : encode crlf = [13, 10] := by decide
      rw [List.flatMap_cons, List.append_assoc, hread, ih, Option.map_some, List.flatMap_cons,
        Go.Utf8.encode_append, Go.Utf8.encode_append, hcrlf, List.nil_append, List.append_assoc]
  unfold MailText.readQuotedPrintable
  rw [lines_quotedPrintable]
  refine (hpieces _).trans ?_
  rw [flatMap_splitOn, flatMap_unixBreaks]

end QuotedPrintable

/-- What the encodings of a text, of an attachment, of a header and of a parameter are for. -/
structure DecodesBack (C : Charsets) (text : List Char) (bytes : Bytes) (s param : List Char) :
    Prop where
  text_reads : readQuotedPrintable (quotedPrintable text) = some (encode (withCrlf text ++ crlf))
  text_safe : ∀ line ∈ lines (quotedPrintable text), Safe line
  bytes_read : readBase64 (chars (base64Lines bytes)) = some bytes
  bytes_short : ∀ line ∈ lines (chars (base64Lines bytes)), line.length ≤ 76
  header_reads : readHeader C (encodeWords (clean s)) = clean s
  param_reads : readParam C param (filenameParam param (clean s)) = some (clean s)

theorem exported_encodings_decode_back (C : Charsets) (text : List Char) (bytes : Bytes)
    (s param : List Char) :
    DecodesBack C text bytes s param ↔ (∃ c ∈ clean s, printable c = false) ∨
      Plain C (clean s) := by
  rw [← readHeader_encodeWords_iff]
  constructor
  · exact DecodesBack.header_reads
  · intro hheader
    exact ⟨read_quotedPrintable text, safe_quotedPrintable text, readBase64_base64Lines bytes,
      lines_base64Lines bytes, hheader, readParam_filenameParam C param (clean s)⟩

/-- A subject that looks encoded is read as something else. -/
theorem encoded_subject_changes :
    ¬ DecodesBack MailText.utf8Only [] [] "=?UTF-8?B?Zm9v?=".toList "filename".toList := by
  intro h
  have hread : readHeader MailText.utf8Only (encodeWords (clean "=?UTF-8?B?Zm9v?=".toList)) =
      "foo".toList := by
    decide
  have hsame := h.header_reads
  rw [hread] at hsame
  exact absurd hsame (by decide)

end Dmcn.Web.Mime
