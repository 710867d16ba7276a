import OpenDmcn.Lib.Base64
import OpenDmcn.Lib.Hex
import OpenDmcn.Lib.Utf8
import Mathlib.Algebra.BigOperators.Group.List.Basic
import Mathlib.Data.List.DropRight
import Mathlib.Data.List.SplitBy

/-! Readers of the encodings that mail is written in: the bodies of RFC 2045, the encoded words of
RFC 2047 and the parameters of RFC 2231. -/

namespace MailText

open Go (Bytes)

def crlf : List Char := ['\r', '\n']

def blank (c : Char) : Bool := c == ' ' || c == '\t'

section Lines

def lines : List Char → List (List Char)
  | [] => [[]]
  | [c] => [[c]]
  | c :: d :: text => if c = '\r' ∧ d = '\n' then [] :: lines text
    else (lines (d :: text)).modifyHead (c :: ·)

theorem lines_crlf {line : List Char} (h : '\r' ∉ line) (text : List Char) :
    lines (line ++ (crlf ++ text)) = line :: lines text := by
  induction line with
  | nil => rfl
  | cons c line ih =>
    have hc : c ≠ '\r' := fun hc => h (hc ▸ List.mem_cons_self)
    obtain ⟨d, rest, hrest⟩ : ∃ d rest, line ++ (crlf ++ text) = d :: rest := by
      apply List.exists_cons_of_ne_nil
      simp [crlf]
    have htail := ih fun hmem => h (List.mem_cons_of_mem c hmem)
    rw [List.cons_append, hrest, lines, if_neg fun hbreak => hc hbreak.1, ← hrest, htail]
    rfl

theorem lines_flatMap {ls : List (List Char)} (h : ∀ line ∈ ls, '\r' ∉ line) :
    lines (ls.flatMap fun line => line ++ crlf) = ls ++ [[]] := by
  induction ls with
  | nil => rfl
  | cons line ls ih =>
    have htail := ih fun l hl => h l (List.mem_cons_of_mem line hl)
    rw [List.flatMap_cons, List.append_assoc, lines_crlf (h line List.mem_cons_self), htail]
    rfl

end Lines

section Escapes

variable {mark : Char} {plain : Char → Option UInt8}

def unescape (mark : Char) (plain : Char → Option UInt8) : List Char → Option Bytes
  | [] => some []
  | c :: text =>
    if c = mark then
      match text with
      | a :: b :: rest => do
        let hi ← Go.Hex.value a
        let lo ← Go.Hex.value b
        let bytes ← unescape mark plain rest
        return UInt8.ofNat (16 * hi + lo) :: bytes
      | _ => none
    else do
      let x ← plain c
      let bytes ← unescape mark plain text
      return x :: bytes

theorem unescape_mark {a b : Char} {hi lo : ℕ} (ha : Go.Hex.value a = some hi)
    (hb : Go.Hex.value b = some lo) (rest : List Char) :
    unescape mark plain (mark :: a :: b :: rest) =
    (unescape mark plain rest).map (UInt8.ofNat (16 * hi + lo) :: ·) := by
  rw [unescape, if_pos rfl]
  simp only [ha, hb, Option.bind_eq_bind, Option.bind_some]
  cases unescape mark plain rest with
  | none => rfl
  | some bytes => rfl

theorem unescape_plain {c : Char} {x : UInt8} (hc : c ≠ mark) (hx : plain c = some x)
    (text : List Char) :
    unescape mark plain (c :: text) = (unescape mark plain text).map (x :: ·) := by
  rw [unescape.eq_def]
  dsimp only
  rw [if_neg hc, hx]
  cases unescape mark plain text with
  | none => rfl
  | some bytes => rfl

theorem length_unescape {text : List Char} {bytes : Bytes}
    (h : unescape mark plain text = some bytes) :
    bytes.length ≤ text.length := by
  induction text using unescape.induct mark generalizing bytes with
  | case1 =>
    cases h
    exact Nat.le_refl 0
  | case2 a b rest ih =>
    rw [unescape, if_pos rfl] at h
    simp only [Option.bind_eq_bind, Option.bind_eq_some_iff] at h
    obtain ⟨hi, _, lo, _, tail, htail, hbytes⟩ := h
    cases hbytes
    have hlength := ih htail
    simp only [List.length_cons]
    omega
  | case3 text hshort =>
    rw [unescape, if_pos rfl] at h
    · cases h
    · exact hshort
  | case4 c text hc ih =>
    rw [unescape.eq_def] at h
    dsimp only at h
    rw [if_neg hc] at h
    simp only [Option.bind_eq_bind, Option.bind_eq_some_iff] at h
    obtain ⟨x, _, tail, htail, hbytes⟩ := h
    cases hbytes
    exact Nat.succ_le_succ (ih htail)

end Escapes

section Bodies

def literal (c : Char) : Option UInt8 :=
  if (33 ≤ c.toNat ∧ c.toNat ≤ 126) ∨ blank c = true then some (UInt8.ofNat c.toNat) else none

def readLines : List (List Char) → Option Bytes
  | [] => some []
  | line :: rest => do
    let line := line.rdropWhile blank
    if line.getLast? = some '=' then
      let bytes ← unescape '=' literal line.dropLast
      return bytes ++ (← readLines rest)
    let bytes ← unescape '=' literal line
    return bytes ++ ((if rest = [] then [] else [13, 10]) ++ (← readLines rest))

def readQuotedPrintable (text : List Char) : Option Bytes := readLines (lines text)

def readBase64 (text : List Char) : Option Bytes :=
  Go.Base64.decode (text.filter fun c => decide (c ∈ Go.Base64.alphabet ∨ c = '='))

theorem length_decode {text : List Char} {bytes : Bytes} (h : Go.Base64.decode text = some bytes) :
    bytes.length ≤ text.length := by
  induction text using Go.Base64.decode.induct generalizing bytes with
  | case1 =>
    cases h
    exact Nat.le_refl 0
  | case2 w x y z rest ih =>
    rw [Go.Base64.decode] at h
    simp only [Option.bind_eq_bind, Option.bind_eq_some_iff] at h
    obtain ⟨w', _, x', _, h⟩ := h
    split at h
    · cases h
      simp only [List.length_cons, List.length_nil]
      omega
    · simp only [Option.bind_eq_some_iff] at h
      obtain ⟨y', _, h⟩ := h
      split at h
      · cases h
        simp only [List.length_cons, List.length_nil]
        omega
      · simp only [Option.bind_eq_some_iff] at h
        obtain ⟨z', _, tail, htail, h⟩ := h
        cases h
        have hlength := ih htail
        simp only [List.length_cons]
        omega
  | case3 text hnil hfour =>
    unfold Go.Base64.decode at h
    split at h
    · exact absurd rfl hnil
    · next w x y z rest => exact absurd rfl (hfour w x y z rest)
    · cases h

end Bodies

section Headers

/-- The charsets that a reader knows, by their names. A character takes at least one byte. -/
structure Charsets where
  decode : List Char → Bytes → Option (List Char)
  utf8 : ∀ name cs, name.map Char.toLower = "utf-8".toList → decode name (Go.Utf8.encode cs) =
    some cs
  short : ∀ name bytes cs, decode name bytes = some cs → cs.length ≤ bytes.length

def utf8Only : Charsets where
  decode name bytes :=
    if name.map Char.toLower = "utf-8".toList then (Go.readUtf8 bytes).map String.toList else none
  utf8 := by
    intro name cs hname
    rw [if_pos hname, ← Go.Utf8.utf8_ofList, Go.readUtf8_utf8, Option.map_some,
      String.toList_ofList]
  short := by
    intro name bytes cs h
    split at h
    · obtain ⟨s, hs, hcs⟩ := Option.map_eq_some_iff.mp h
      rw [← hcs, ← Go.Utf8.utf8_of_readUtf8 hs, Go.utf8_eq, List.length_flatMap]
      refine (List.length_map _).symm.trans_le (List.length_le_sum_of_one_le _ ?_)
      intro n hn
      obtain ⟨c, _, rfl⟩ := List.mem_map.mp hn
      exact List.length_pos_of_ne_nil (Go.Utf8.encodeChar_ne_nil c)
    · cases h

variable (C : Charsets)

def unfold : List Char → List Char
  | [] => []
  | [c] => [c]
  | [c, d] => [c, d]
  | c :: d :: e :: text =>
    if c = '\r' ∧ d = '\n' ∧ blank e = true then e :: unfold text else c :: unfold (d :: e :: text)

def qByte (c : Char) : Option UInt8 :=
  if c = '_' then some 32
  else if 33 ≤ c.toNat ∧ c.toNat ≤ 126 then some (UInt8.ofNat c.toNat) else none

def wordBytes (encoding text : List Char) : Option Bytes :=
  if encoding = ['B'] ∨ encoding = ['b'] then Go.Base64.decode text
  else if encoding = ['Q'] ∨ encoding = ['q'] then unescape '=' qByte text
  else none

def decodeWord (word : List Char) : Option (List Char) :=
  match word.splitOn '?' with
  | [start, charset, encoding, text, stop] =>
    if start = ['='] ∧ stop = ['='] ∧ word.length ≤ 75 ∧ text ≠ [] then
      (wordBytes encoding text).bind (C.decode charset)
    else none
  | _ => none

def readRuns (afterWord : Bool) : List (List Char) → List Char
  | [] => []
  | run :: runs =>
    match decodeWord C run with
    | some text => text ++ readRuns true runs
    | none =>
      if afterWord = true ∧ run.all blank = true ∧
          (runs.head?.bind (decodeWord C)).isSome = true then
        readRuns true runs
      else run ++ readRuns false runs

def runs (text : List Char) : List (List Char) := text.splitBy fun c d => blank c == blank d

def readHeader (text : List Char) : List Char := readRuns C false (runs (unfold text))

@[simp] theorem unfold_cons {c : Char} (hc : c ≠ '\r') (text : List Char) :
    unfold (c :: text) = c :: unfold text := by
  match text with
  | [] => rfl
  | [_] => rfl
  | d :: e :: text => rw [unfold, if_neg fun h => hc h.1]

theorem unfold_append {line : List Char} (h : '\r' ∉ line) (text : List Char) :
    unfold (line ++ text) = line ++ unfold text := by
  induction line with
  | nil => rfl
  | cons c line ih =>
    have hc : c ≠ '\r' := fun hc => h (hc ▸ List.mem_cons_self)
    rw [List.cons_append, unfold_cons hc, ih fun hmem => h (List.mem_cons_of_mem c hmem),
      List.cons_append]

theorem unfold_of_notMem {text : List Char} (h : '\r' ∉ text) : unfold text = text := by
  have happend := unfold_append h []
  rwa [List.append_nil, show unfold [] = [] from rfl, List.append_nil] at happend

theorem unfold_intercalate {words : List (List Char)} (h : ∀ word ∈ words, '\r' ∉ word) :
    unfold ((crlf ++ [' ']).intercalate words) = [' '].intercalate words := by
  induction words with
  | nil => rfl
  | cons word words ih =>
    have hword := h word List.mem_cons_self
    cases words with
    | nil =>
      rw [List.intercalate_singleton, List.intercalate_singleton]
      exact unfold_of_notMem hword
    | cons next words =>
      have htail := ih fun w hw => h w (List.mem_cons_of_mem word hw)
      have hfold : ∀ text, unfold (crlf ++ [' '] ++ text) = ' ' :: unfold text := fun text => rfl
      rw [List.intercalate_cons_cons, List.intercalate_cons_cons, List.append_assoc,
        unfold_append hword, hfold, htail, List.append_assoc]
      rfl

theorem wordBytes_length {encoding text : List Char} {bytes : Bytes}
    (h : wordBytes encoding text = some bytes) :
    bytes.length ≤ text.length := by
  unfold wordBytes at h
  split at h
  · exact length_decode h
  · split at h
    · exact length_unescape h
    · cases h

theorem length_decodeWord {word text : List Char} (h : decodeWord C word = some text) :
    text.length < word.length := by
  unfold decodeWord at h
  split at h
  · next start charset encoding body stop hparts =>
    split at h
    · next hword =>
      obtain ⟨bytes, hbytes, htext⟩ := Option.bind_eq_some_iff.mp h
      have hjoined : ['?'].intercalate [start, charset, encoding, body, stop] = word := by
        rw [← hparts]
        exact List.intercalate_splitOn '?'
      have hlength := congrArg List.length hjoined
      simp only [List.intercalate_cons_cons, List.intercalate_singleton, List.length_append,
        List.length_singleton]
        at hlength
      have hbody := wordBytes_length hbytes
      have hshort := C.short _ _ _ htext
      omega
    · cases h
  · cases h

theorem readRuns_of_none {runs : List (List Char)} (h : ∀ run ∈ runs, decodeWord C run = none)
    (afterWord : Bool) :
    readRuns C afterWord runs = runs.flatten := by
  induction runs generalizing afterWord with
  | nil => rfl
  | cons run runs ih =>
    have hrest : ∀ r ∈ runs, decodeWord C r = none := fun r hr => h r (List.mem_cons_of_mem run hr)
    have hnext : (runs.head?.bind (decodeWord C)).isSome = false := by
      cases runs with
      | nil => rfl
      | cons next runs =>
        have hnone := hrest next List.mem_cons_self
        rw [List.head?_cons, Option.bind_some, hnone]
        rfl
    rw [readRuns, h run List.mem_cons_self]
    dsimp only
    rw [if_neg, ih hrest, List.flatten_cons]
    rw [hnext]
    exact fun hword => Bool.false_ne_true hword.2.2

theorem length_readRuns (runs : List (List Char)) (afterWord : Bool) :
    (readRuns C afterWord runs).length ≤ runs.flatten.length ∧
      ((∃ run ∈ runs, (decodeWord C run).isSome = true) →
        (readRuns C afterWord runs).length < runs.flatten.length) := by
  induction runs generalizing afterWord with
  | nil =>
    refine ⟨Nat.le_refl 0, ?_⟩
    rintro ⟨run, hrun, _⟩
    cases hrun
  | cons run runs ih =>
    rw [readRuns, List.flatten_cons, List.length_append]
    cases hword : decodeWord C run with
    | some text =>
      have hlength := length_decodeWord C hword
      have hrest := (ih true).1
      dsimp only
      rw [List.length_append]
      exact ⟨by omega, fun _ => by omega⟩
    | none =>
      have hlater : (∃ r ∈ run :: runs, (decodeWord C r).isSome = true) →
          ∃ r ∈ runs, (decodeWord C r).isSome = true := by
        rintro ⟨r, hr, hsome⟩
        rcases List.mem_cons.mp hr with rfl | hr
        · rw [hword] at hsome
          cases hsome
        · exact ⟨r, hr, hsome⟩
      dsimp only
      split
      · have hrest := ih true
        exact ⟨by omega, fun h => Nat.lt_add_left _ (hrest.2 (hlater h))⟩
      · have hrest := ih false
        rw [List.length_append]
        exact ⟨by omega, fun h => Nat.add_lt_add_left (hrest.2 (hlater h)) _⟩

theorem readHeader_eq_self_iff {text : List Char} (h : '\r' ∉ text) :
    readHeader C text = text ↔ ∀ run ∈ runs text, decodeWord C run = none := by
  have hjoined : (runs text).flatten = text := List.flatten_splitBy _ text
  unfold readHeader
  rw [unfold_of_notMem h]
  constructor
  · intro hread run hrun
    by_contra hsome
    have hless :=
      (length_readRuns C (runs text) false).2 ⟨run, hrun, Option.isSome_iff_ne_none.mpr hsome⟩
    rw [hread, hjoined] at hless
    exact Nat.lt_irrefl _ hless
  · intro hnone
    rw [readRuns_of_none C hnone, hjoined]

theorem runs_intercalate {words : List (List Char)}
    (h : ∀ word ∈ words, word ≠ [] ∧ ∀ c ∈ word, blank c = false) :
    runs ([' '].intercalate words) = words.intersperse [' '] := by
  have hchain : ∀ {b} {word : List Char}, (∀ c ∈ word, blank c = b) →
      word.IsChain fun c d => (blank c == blank d) = true := by
    intro b word hword
    apply List.Pairwise.isChain
    apply List.pairwise_of_forall_mem_list
    intro c hc d hd
    rw [hword c hc, hword d hd, beq_self_eq_true]
  have hspace : ∀ c ∈ [' '], blank c = true := fun c hc => List.mem_singleton.mp hc ▸ rfl
  apply List.splitBy_flatten
  · intro hmem
    induction words with
    | nil => cases hmem
    | cons word words ih =>
      cases words with
      | nil => exact (h word List.mem_cons_self).1 (List.mem_singleton.mp hmem).symm
      | cons next words =>
        rw [List.intersperse_cons_cons, List.mem_cons, List.mem_cons] at hmem
        rcases hmem with hmem | hmem | hmem
        · exact (h word List.mem_cons_self).1 hmem.symm
        · cases hmem
        · exact ih (fun w hw => h w (List.mem_cons_of_mem word hw)) hmem
  · intro run hrun
    induction words with
    | nil => cases hrun
    | cons word words ih =>
      cases words with
      | nil =>
        rw [List.mem_singleton.mp hrun]
        exact hchain (h word List.mem_cons_self).2
      | cons next words =>
        rw [List.intersperse_cons_cons, List.mem_cons, List.mem_cons] at hrun
        rcases hrun with rfl | rfl | hrun
        · exact hchain (h run List.mem_cons_self).2
        · exact hchain hspace
        · exact ih (fun w hw => h w (List.mem_cons_of_mem word hw)) hrun
  · induction words with
    | nil => exact List.isChain_nil
    | cons word words ih =>
      cases words with
      | nil => exact List.isChain_singleton word
      | cons next words =>
        have hword := h word List.mem_cons_self
        have hnext := h next (List.mem_cons_of_mem word List.mem_cons_self)
        rw [List.intersperse_cons_cons, List.isChain_cons_cons, List.isChain_cons]
        refine ⟨⟨hword.1, List.cons_ne_nil _ _, ?_⟩, ?_, ih fun w hw =>
          h w (List.mem_cons_of_mem word hw)⟩
        · rw [hword.2 _ (List.getLast_mem hword.1)]
          rfl
        · intro first hfirst
          have hhead : first = next := by
            cases words with
            | nil => exact (Option.some.inj hfirst).symm
            | cons _ _ => exact (Option.some.inj hfirst).symm
          subst hhead
          refine ⟨List.cons_ne_nil _ _, hnext.1, ?_⟩
          rw [hnext.2 _ (List.head_mem hnext.1)]
          rfl

theorem readHeader_words {words : List (List Char × List Char)}
    (h : ∀ w ∈ words, decodeWord C w.1 = some w.2 ∧ w.1 ≠ [] ∧ ∀ c ∈ w.1, blank c = false ∧
      c ≠ '\r') :
    readHeader C ((crlf ++ [' ']).intercalate (words.map Prod.fst)) =
      (words.map Prod.snd).flatten := by
  have hread : ∀ afterWord, readRuns C afterWord ((words.map Prod.fst).intersperse [' ']) =
      (words.map Prod.snd).flatten := by
    induction words with
    | nil => intro afterWord; rfl
    | cons w words ih =>
      intro afterWord
      have hword := (h w List.mem_cons_self).1
      cases words with
      | nil =>
        rw [List.map_singleton, List.intersperse_singleton, readRuns, hword]
        rfl
      | cons next words =>
        have hnext := (h next (List.mem_cons_of_mem w List.mem_cons_self)).1
        have htail := ih (fun v hv => h v (List.mem_cons_of_mem w hv)) true
        have hspace : decodeWord C [' '] = none := rfl
        have hhead : (((next :: words).map Prod.fst).intersperse [' ']).head? = some next.1 := by
          cases words with
          | nil => rfl
          | cons _ _ => rfl
        rw [List.map_cons, List.map_cons, List.intersperse_cons_cons, readRuns, hword]
        dsimp only
        rw [readRuns, hspace]
        dsimp only
        rw [← List.map_cons, hhead, Option.bind_some, hnext, if_pos ⟨rfl, rfl, rfl⟩, htail]
        rfl
  have hline : ∀ word ∈ words.map Prod.fst, '\r' ∉ word := by
    intro word hword hmem
    obtain ⟨w, hw, rfl⟩ := List.mem_map.mp hword
    exact ((h w hw).2.2 _ hmem).2 rfl
  have hruns : ∀ word ∈ words.map Prod.fst, word ≠ [] ∧ ∀ c ∈ word, blank c = false := by
    intro word hword
    obtain ⟨w, hw, rfl⟩ := List.mem_map.mp hword
    exact ⟨(h w hw).2.1, fun c hc => ((h w hw).2.2 c hc).1⟩
  unfold readHeader
  rw [unfold_intercalate hline, runs_intercalate hruns, hread]

def unquote : List Char → Option (List Char)
  | [] => none
  | c :: text =>
    if c = '"' then if text = [] then some [] else none
    else if c = '\\' then
      match text with
      | d :: rest => (unquote rest).map (d :: ·)
      | [] => none
    else (unquote text).map (c :: ·)

def attributeByte (c : Char) : Option UInt8 :=
  if (33 ≤ c.toNat ∧ c.toNat ≤ 126) ∧ c ∉ "*'%()<>@,;:\\\"/[]?=".toList
    then some (UInt8.ofNat c.toNat) else none

def readExtended (text : List Char) : Option (List Char) :=
  match text.splitOn '\'' with
  | [charset, _, value] => (unescape '%' attributeByte value).bind (C.decode charset)
  | _ => none

def readParam (param text : List Char) : Option (List Char) :=
  if text.take param.length = param then
    match text.drop param.length with
    | c :: d :: rest =>
      if c = '=' ∧ d = '"' then unquote rest
      else if c = '*' ∧ d = '=' then readExtended C rest
      else none
    | _ => none
  else none

end Headers

end MailText
