import OpenDmcn.Lib.Date
import OpenDmcn.Lib.Utf16
import OpenDmcn.Lib.Utf8
import Mathlib.Data.List.TakeWhile

/-! The mbox file that messages are exported in (`export/mbox.ts`). A line that begins like the one
before a message is written behind one more `>`. -/

namespace Dmcn.Web.Mbox

open Go (Bytes)
open Go.Utf8 (encode)

def lf : UInt8 := 0x0a
def cr : UInt8 := 0x0d
def gt : UInt8 := 0x3e

def FROM : Bytes := [70, 114, 111, 109, 32]

section Writer

def DAYS : List String := ["Sun", "Mon", "Tue", "Wed", "Thu", "Fri", "Sat"]
def MONTHS : List String :=
  ["Jan", "Feb", "Mar", "Apr", "May", "Jun", "Jul", "Aug", "Sep", "Oct", "Nov", "Dec"]

def two (n : Option ℤ) : List Char := Js.padStart (Js.decimal n) 2 '0'

def who (sender : Js.Text) : List Char :=
  let kept := sender.filter fun u => decide (0x21 ≤ u.toNat ∧ u.toNat ≤ 0x7e)
  if kept = [] then "MAILER-DAEMON".toList else kept.map fun u => Char.ofNat u.toNat

def fromLine (sender : Js.Text) (sec : ℤ) : List Char :=
  let d := Js.Date.ofSeconds sec
  "From ".toList ++ (who sender ++
    ([' '] ++ (Js.entry DAYS d.getUTCDay ++ ([' '] ++ (Js.entry MONTHS d.getUTCMonth ++ ([' '] ++
    (Js.padStart (Js.decimal d.getUTCDate) 2 ' ' ++
      ([' '] ++ (two d.getUTCHours ++ ([':'] ++ (two d.getUTCMinutes ++ ([':'] ++
      (two d.getUTCSeconds ++ ([' '] ++ Js.decimal d.getUTCFullYear))))))))))))))

def lineAlignedFrom : Option Bytes → List Bytes → List Bytes
  | none, [] => []
  | some carry, [] => [carry]
  | carry, c :: chunks =>
    let cur := match carry with
      | some carry => carry ++ c
      | none => c
    if cur ≠ [] ∧ cur.getLast? ≠ some lf then lineAlignedFrom (some cur) chunks
    else if cur ≠ [] then cur :: lineAlignedFrom none chunks
    else lineAlignedFrom none chunks

def lineAligned (chunks : List Bytes) : List Bytes := lineAlignedFrom none chunks

def withoutCR (line : Bytes) : Bytes := if line.getLast? = some cr then line.dropLast else line

def linesFrom : Bytes → Bytes → List Bytes
  | line, [] => if line = [] then [] else [line]
  | line, x :: message => if x = lf then withoutCR line :: linesFrom [] message
    else linesFrom (line ++ [x]) message

def quotedFrom (line : Bytes) : Bool := FROM.isPrefixOf (line.dropWhile (· == gt))

def writeLine (line : Bytes) : Bytes := (if quotedFrom line then [gt] else []) ++ (line ++ [lf])

def linesSize (lines : List Bytes) : ℕ :=
  (lines.map fun line => line.length + 1 + if quotedFrom line then 1 else 0).sum

def mboxLines (message : Bytes) : Bytes :=
  let lines := linesFrom [] message
  let written := lines.flatMap writeLine
  written.take (linesSize lines) ++ List.replicate (linesSize lines - written.length) 0

def mboxEntry (sender : Js.Text) (sec : ℤ) (message : List Bytes) : List Bytes :=
  encode (fromLine sender sec ++ ['\n']) :: ((lineAligned message).map mboxLines ++ [[lf]])

end Writer

section Reader

def fileLinesFrom : Bytes → Bytes → List Bytes
  | line, [] => if line = [] then [] else [line]
  | line, x :: file => if x = lf then line :: fileLinesFrom [] file
    else fileLinesFrom (line ++ [x]) file

def isSeparator (line : Bytes) : Bool := FROM.isPrefixOf line

/-- The lines before the first separator, and those behind each separator up to the next one. -/
def split : List Bytes → List Bytes × List (List Bytes)
  | [] => ([], [])
  | line :: lines =>
    let (body, rest) := split lines
    if isSeparator line then ([], body :: rest) else (line :: body, rest)

def withoutBlank (body : List Bytes) : List Bytes :=
  if body.getLast? = some [] then body.dropLast else body

def unquote (line : Bytes) : Bytes :=
  if line.head? = some gt ∧ FROM.isPrefixOf (line.dropWhile (· == gt)) = true then line.tail
    else line

def readMessage (body : List Bytes) : Bytes := (withoutBlank body).flatMap fun line =>
  unquote line ++ [lf]

def readMbox (file : Bytes) : List Bytes := (split (fileLinesFrom [] file)).2.map readMessage

def unixLines : Bytes → Bytes
  | [] => []
  | [x] => [x]
  | x :: y :: message => if x = cr ∧ y = lf then lf :: unixLines message else x ::
    unixLines (y :: message)

/-- The message with an LF at the end of its last line. A message without lines stays as it is. -/
def ended (message : Bytes) : Bytes := if message = [] ∨ message.getLast? = some lf then message
    else message ++ [lf]

def normal (message : Bytes) : Bytes := ended (unixLines message)

end Reader

section Lines

theorem fromLine_newline (sender : Js.Text) (sec : ℤ) : '\n' ∉ fromLine sender sec := by
  have hwho : '\n' ∉ who sender := by
    unfold who
    dsimp only
    split
    · decide
    · intro h
      obtain ⟨u, hu, hnewline⟩ := List.mem_map.mp h
      have hbounds := (List.mem_filter.mp hu).2
      rw [decide_eq_true_iff] at hbounds
      have hprinted : ∀ n < 127, 0x21 ≤ n → Char.ofNat n ≠ '\n' := by decide
      exact hprinted u.toNat (Nat.lt_succ_of_le hbounds.2) hbounds.1 hnewline
  have hdays : ∀ word ∈ DAYS, '\n' ∉ word.toList := by decide
  have hmonths : ∀ word ∈ MONTHS, '\n' ∉ word.toList := by decide
  have hnumber : ∀ n k c, c ≠ '\n' → '\n' ∉ Js.padStart (Js.decimal n) k c :=
    fun n k c hc => Js.newline_notMem_padStart (Js.newline_notMem_decimal n) hc
  unfold fromLine two
  simp only [List.mem_append, not_or]
  refine ⟨by decide, hwho, by decide, Js.newline_notMem_entry hdays _, by decide,
    Js.newline_notMem_entry hmonths _, by decide,
    hnumber _ _ _ (by decide), by
      decide, hnumber _ _ _ (by decide), by decide, hnumber _ _ _ (by decide), by decide,
    hnumber _ _ _ (by decide), by decide, Js.newline_notMem_decimal _⟩

theorem length_written (lines : List Bytes) :
    (lines.flatMap writeLine).length = linesSize lines := by
  unfold linesSize
  induction lines with
  | nil => rfl
  | cons line lines ih =>
    have hline : (writeLine line).length = line.length + 1 + if quotedFrom line then 1 else 0 := by
      unfold writeLine
      cases quotedFrom line with
      | true => simp [Nat.add_comm]
      | false => simp
    rw [List.flatMap_cons, List.length_append, ih, hline, List.map_cons, List.sum_cons]

theorem mboxLines_eq (message : Bytes) : mboxLines message = (linesFrom [] message).flatMap
    writeLine := by
  unfold mboxLines
  dsimp only
  rw [← length_written, List.take_length, Nat.sub_self, List.replicate_zero, List.append_nil]

theorem linesFrom_append {line message rest : Bytes} (h : message.getLast? = some lf) :
    linesFrom line (message ++ rest) = linesFrom line message ++ linesFrom [] rest := by
  induction message generalizing line with
  | nil => cases h
  | cons x message ih =>
    rw [List.cons_append, linesFrom, linesFrom]
    cases message with
    | nil =>
      have hx : x = lf := by simpa using h
      rw [if_pos hx, if_pos hx]
      rfl
    | cons y message =>
      have hlast : (y :: message).getLast? = some lf := by rwa [List.getLast?_cons_cons] at h
      split
      · rw [ih hlast]
        rfl
      · exact ih hlast

theorem mboxLines_append {message rest : Bytes} (h : message.getLast? = some lf) :
    mboxLines (message ++ rest) = mboxLines message ++ mboxLines rest := by
  rw [mboxLines_eq, mboxLines_eq, mboxLines_eq, linesFrom_append h, List.flatMap_append]

theorem mboxLines_lineAlignedFrom (carry : Option Bytes) (chunks : List Bytes)
    (h : ∀ b, carry = some b → b ≠ []) :
    ((lineAlignedFrom carry chunks).map mboxLines).flatten =
      mboxLines (carry.getD [] ++ chunks.flatten) := by
  have hnil : mboxLines [] = [] := rfl
  induction chunks generalizing carry with
  | nil =>
    cases carry with
    | none => rfl
    | some b => simp [lineAlignedFrom]
  | cons c chunks ih =>
    have hcur : ∀ cur : Bytes, cur = carry.getD [] ++ c →
        ((if cur ≠ [] ∧ cur.getLast? ≠ some lf then lineAlignedFrom (some cur) chunks
          else if cur ≠ [] then cur :: lineAlignedFrom none chunks
          else lineAlignedFrom none chunks).map mboxLines).flatten =
            mboxLines (cur ++ chunks.flatten) := by
      intro cur _
      have hfresh := ih none fun b hb => by cases hb
      rw [Option.getD_none, List.nil_append] at hfresh
      by_cases hempty : cur = []
      · rw [if_neg (fun hboth => hboth.1 hempty), if_neg (not_not.mpr hempty), hfresh, hempty,
          List.nil_append]
      · by_cases hlast : cur.getLast? = some lf
        · rw [if_neg (fun hboth => hboth.2 hlast), if_pos hempty, List.map_cons, List.flatten_cons,
            hfresh, mboxLines_append hlast]
        · rw [if_pos ⟨hempty, hlast⟩, ih (some cur) (fun b hb => by cases hb; exact hempty),
            Option.getD_some]
    rw [List.flatten_cons, ← List.append_assoc]
    cases carry with
    | none => exact hcur c rfl
    | some b => exact hcur (b ++ c) rfl

theorem notMem_linesFrom {line message : Bytes} (h : lf ∉ line) : ∀ l ∈ linesFrom line message,
    lf ∉ l := by
  induction message generalizing line with
  | nil =>
    intro l hl
    unfold linesFrom at hl
    split at hl
    · cases hl
    · rwa [List.mem_singleton.mp hl]
  | cons x message ih =>
    intro l hl
    unfold linesFrom at hl
    split at hl
    · rcases List.mem_cons.mp hl with rfl | hl
      · unfold withoutCR
        split
        · exact fun hmem => h (List.mem_of_mem_dropLast hmem)
        · exact h
      · exact ih List.not_mem_nil l hl
    · next hx =>
      refine ih (fun hmem => ?_) l hl
      rcases List.mem_append.mp hmem with hmem | hmem
      · exact h hmem
      · exact hx (List.mem_singleton.mp hmem).symm

theorem unixLines_cons {x : UInt8} {message : Bytes} (h : x = cr → message.head? ≠ some lf) :
    unixLines (x :: message) = x :: unixLines message := by
  cases message with
  | nil => rfl
  | cons y message =>
    rw [unixLines]
    refine if_neg ?_
    rintro ⟨hx, rfl⟩
    exact h hx rfl

theorem unixLines_of_notMem {line : Bytes} (h : lf ∉ line) : unixLines line = line := by
  induction line with
  | nil => rfl
  | cons x line ih =>
    obtain ⟨-, hline⟩ := List.ne_and_not_mem_of_not_mem_cons h
    rw [unixLines_cons fun _ hhead => hline (List.mem_of_head? hhead), ih hline]

theorem unixLines_line {line : Bytes} (h : lf ∉ line) (rest : Bytes) :
    unixLines (line ++ lf :: rest) = withoutCR line ++ lf :: unixLines rest := by
  induction line with
  | nil =>
    have hlf : lf ≠ cr := by decide
    exact unixLines_cons fun hx => absurd hx hlf
  | cons x line ih =>
    obtain ⟨-, hline⟩ := List.ne_and_not_mem_of_not_mem_cons h
    cases line with
    | nil =>
      by_cases hx : x = cr
      · subst hx
        rfl
      · have hkept : withoutCR [x] = [x] := by
          unfold withoutCR
          exact if_neg (by simpa using hx)
        have hnext : unixLines (lf :: rest) = lf :: unixLines rest :=
          unixLines_cons fun hfalse => by cases hfalse
        rw [hkept, List.singleton_append, unixLines_cons fun hfalse => absurd hfalse hx, hnext]
        rfl
    | cons y line =>
      have hy : y ≠ lf := fun heq => hline (heq ▸ List.mem_cons_self)
      have hstep : withoutCR (x :: y :: line) = x :: withoutCR (y :: line) := by
        unfold withoutCR
        rw [List.getLast?_cons_cons]
        split
        · rfl
        · rfl
      rw [List.cons_append, unixLines_cons, ih hline, hstep]
      · rfl
      · intro _ hhead
        exact hy (Option.some.inj hhead)

theorem flatMap_linesFrom {line : Bytes} (h : lf ∉ line) (message : Bytes) :
    (linesFrom line message).flatMap (· ++ [lf]) = normal (line ++ message) := by
  induction message generalizing line with
  | nil =>
    rw [List.append_nil]
    unfold linesFrom normal ended
    rw [unixLines_of_notMem h]
    by_cases hempty : line = []
    · rw [if_pos hempty, if_pos (.inl hempty), hempty]
      rfl
    · rw [if_neg hempty, if_neg, List.flatMap_singleton]
      rintro (hline | hlast)
      · exact hempty hline
      · exact h (List.mem_of_getLast? hlast)
  | cons x message ih =>
    unfold linesFrom
    by_cases hx : x = lf
    · rw [if_pos hx, List.flatMap_cons, ih List.not_mem_nil, List.nil_append, hx]
      unfold normal
      rw [unixLines_line h]
      unfold ended
      cases hrest : unixLines message with
      | nil =>
        rw [if_pos (.inl rfl), if_pos (.inr (by simp)), List.append_nil]
      | cons y rest =>
        have hne : withoutCR line ++ lf :: y :: rest ≠ [] := by simp
        have hlast : (withoutCR line ++ lf :: y :: rest).getLast? = (y :: rest).getLast? := by
          rw [List.getLast?_append_of_ne_nil _ (List.cons_ne_nil _ _), List.getLast?_cons_cons]
        by_cases hend : (y :: rest).getLast? = some lf
        · rw [if_pos (.inr hend), if_pos (.inr (hlast.trans hend))]
          simp
        · rw [if_neg (by simp [hend]), if_neg (by rw [hlast]; simp [hend])]
          simp
    · rw [if_neg hx, ih, List.append_assoc]
      · rfl
      · intro hmem
        rcases List.mem_append.mp hmem with hmem | hmem
        · exact h hmem
        · exact hx (List.mem_singleton.mp hmem).symm

end Lines

section RoundTrip

def quote (line : Bytes) : Bytes := (if quotedFrom line then [gt] else []) ++ line

theorem unquote_quote (line : Bytes) : unquote (quote line) = line := by
  unfold quote unquote
  cases hquoted : quotedFrom line with
  | true =>
    have hline : FROM.isPrefixOf ((gt :: line).dropWhile (· == gt)) = true := hquoted
    exact if_pos ⟨rfl, hline⟩
  | false =>
    refine if_neg ?_
    rintro ⟨-, hline⟩
    exact Bool.false_ne_true (hquoted.symm.trans hline)

theorem isSeparator_quote (line : Bytes) : isSeparator (quote line) = false := by
  unfold quote
  cases hquoted : quotedFrom line with
  | true => rfl
  | false =>
    by_contra hsep
    obtain ⟨rest, rfl⟩ := List.isPrefixOf_iff_prefix.mp (Bool.eq_true_of_not_eq_false hsep)
    have hfrom : quotedFrom (FROM ++ rest) = true := List.isPrefixOf_iff_prefix.mpr ⟨rest, rfl⟩
    rw [hquoted] at hfrom
    cases hfrom

theorem notMem_quote {line : Bytes} (h : lf ∉ line) : lf ∉ quote line := by
  unfold quote
  split
  · intro hmem
    rcases List.mem_cons.mp hmem with hgt | hmem
    · exact absurd hgt (by decide)
    · exact h hmem
  · exact h

theorem fileLinesFrom_line {line rest file : Bytes} (h : lf ∉ rest) :
    fileLinesFrom line (rest ++ lf :: file) = (line ++ rest) :: fileLinesFrom [] file := by
  induction rest generalizing line with
  | nil => rw [List.nil_append, fileLinesFrom, if_pos rfl, List.append_nil]
  | cons x rest ih =>
    obtain ⟨hx, hrest⟩ := List.ne_and_not_mem_of_not_mem_cons h
    rw [List.cons_append, fileLinesFrom, if_neg (Ne.symm hx), ih hrest, List.append_assoc]
    rfl

theorem fileLinesFrom_lines {lines : List Bytes} (h : ∀ l ∈ lines, lf ∉ l) (file : Bytes) :
    fileLinesFrom [] (lines.flatMap (· ++ [lf]) ++ file) = lines ++ fileLinesFrom [] file := by
  induction lines with
  | nil => rfl
  | cons line lines ih =>
    have hline : fileLinesFrom [] (line ++ lf :: (lines.flatMap (· ++ [lf]) ++ file)) =
        ([] ++ line) :: fileLinesFrom [] (lines.flatMap (· ++ [lf]) ++ file) :=
      fileLinesFrom_line (h line List.mem_cons_self)
    rw [List.flatMap_cons, List.append_assoc, List.append_assoc, List.singleton_append, hline,
      List.nil_append, ih fun l hl => h l (List.mem_cons_of_mem _ hl)]
    rfl

theorem split_body {body lines : List Bytes} (h : ∀ l ∈ body, isSeparator l = false) :
    split (body ++ lines) = (body ++ (split lines).1, (split lines).2) := by
  induction body with
  | nil => rfl
  | cons line body ih =>
    have hline := h line List.mem_cons_self
    rw [List.cons_append, split, ih fun l hl => h l (List.mem_cons_of_mem _ hl)]
    dsimp only
    rw [hline]
    rfl

theorem split_message {sep : Bytes} {body lines : List Bytes} (hsep : isSeparator sep = true)
    (h : ∀ l ∈ body, isSeparator l = false) :
    split (sep :: (body ++ lines)) = ([], (body ++ (split lines).1) :: (split lines).2) := by
  rw [split, split_body h]
  dsimp only
  rw [if_pos hsep]

structure Exported where
  sender : Js.Text
  sec : ℤ
  message : List Bytes

def mbox (es : List Exported) : Bytes :=
  (es.flatMap fun e => mboxEntry e.sender e.sec e.message).flatten

def entryLines (e : Exported) : List Bytes :=
  encode (fromLine e.sender e.sec) :: ((linesFrom [] e.message.flatten).map quote ++ [[]])

theorem mboxEntry_eq (e : Exported) :
    (mboxEntry e.sender e.sec e.message).flatten = (entryLines e).flatMap (· ++ [lf]) := by
  have hnewline : encode ['\n'] = [lf] := rfl
  have hmessage := mboxLines_lineAlignedFrom none e.message fun b hb => by cases hb
  rw [Option.getD_none, List.nil_append, mboxLines_eq] at hmessage
  have hlines : ((linesFrom [] e.message.flatten).map quote).flatMap (· ++ [lf]) =
      (linesFrom [] e.message.flatten).flatMap writeLine := by
    rw [List.flatMap_map]
    apply List.flatMap_congr
    intro l _
    unfold quote writeLine
    rw [List.append_assoc]
  unfold mboxEntry entryLines lineAligned
  rw [List.flatten_cons, List.flatten_append, hmessage, Go.Utf8.encode_append, hnewline,
    List.flatMap_cons, List.flatMap_append, hlines]
  rfl

theorem separator_of_fromLine (sender : Js.Text) (sec : ℤ) : isSeparator
    (encode (fromLine sender sec)) = true := by
  have hfrom : encode "From ".toList = FROM := rfl
  apply List.isPrefixOf_iff_prefix.mpr
  unfold fromLine
  rw [Go.Utf8.encode_append, hfrom]
  exact List.prefix_append _ _

theorem notMem_entryLines (e : Exported) : ∀ l ∈ entryLines e, lf ∉ l := by
  intro l hl
  rcases List.mem_cons.mp hl with rfl | hl
  · intro hmem
    obtain ⟨c, hc, hvalue⟩ := Go.Utf8.exists_of_mem_encode hmem (by decide)
    have hnewline : c = '\n' := Char.toNat_inj.mp hvalue
    exact fromLine_newline e.sender e.sec (hnewline ▸ hc)
  · rcases List.mem_append.mp hl with hl | hl
    · obtain ⟨line, hline, rfl⟩ := List.mem_map.mp hl
      exact notMem_quote (notMem_linesFrom List.not_mem_nil line hline)
    · rw [List.mem_singleton.mp hl]
      exact List.not_mem_nil

theorem split_entries (es : List Exported) :
    split (es.flatMap entryLines) =
      ([], es.map fun e => (linesFrom [] e.message.flatten).map quote ++ [[]]) := by
  induction es with
  | nil => rfl
  | cons e es ih =>
    have hbody : ∀ l ∈ (linesFrom [] e.message.flatten).map quote ++ [[]], isSeparator l =
        false := by
      intro l hl
      rcases List.mem_append.mp hl with hl | hl
      · obtain ⟨line, -, rfl⟩ := List.mem_map.mp hl
        exact isSeparator_quote line
      · rw [List.mem_singleton.mp hl]
        rfl
    rw [List.flatMap_cons, entryLines, List.cons_append,
      split_message (separator_of_fromLine e.sender e.sec) hbody, ih,
      List.append_nil]
    rfl

theorem readMessage_quote (message : Bytes) :
    readMessage ((linesFrom [] message).map quote ++ [[]]) = normal message := by
  have hbody : withoutBlank ((linesFrom [] message).map quote ++ [[]]) =
      (linesFrom [] message).map quote := by
    unfold withoutBlank
    rw [List.getLast?_concat, if_pos rfl, List.dropLast_concat]
  have hlines := flatMap_linesFrom List.not_mem_nil message
  rw [List.nil_append] at hlines
  unfold readMessage
  rw [hbody, List.flatMap_map, ← hlines]
  apply List.flatMap_congr
  intro l _
  rw [unquote_quote]

theorem mbox_eq (es : List Exported) : mbox es = (es.flatMap entryLines).flatMap (· ++ [lf]) := by
  unfold mbox
  rw [List.flatMap_assoc, List.flatMap_def, List.flatten_flatten, List.map_map, List.flatMap_def]
  apply congrArg List.flatten
  apply List.map_congr_left
  intro e _
  exact mboxEntry_eq e

def Exported.whole (e : Exported) : List Char × Bytes :=
  (fromLine e.sender e.sec, e.message.flatten)

theorem mbox_congr {es es' : List Exported} (h : es'.map Exported.whole = es.map Exported.whole) :
    mbox es' =
    mbox es := by
  have hlines : ∀ es : List Exported, es.flatMap entryLines =
      (es.map Exported.whole).flatMap fun w =>
        encode w.1 :: ((linesFrom [] w.2).map quote ++ [[]]) := by
    intro es
    rw [List.flatMap_map]
    rfl
  rw [mbox_eq, mbox_eq, hlines, hlines, h]

end RoundTrip

/-- A reader gets back the messages of an mbox file, and the file does not tell how they were cut
into chunks. -/
theorem mbox_reads_back (es : List Exported) :
    readMbox (mbox es) = es.map (fun e => normal e.message.flatten) ∧
      ∀ es' : List Exported, es'.map Exported.whole = es.map Exported.whole →
      mbox es' = mbox es := by
  have hclean : ∀ l ∈ es.flatMap entryLines, lf ∉ l := by
    intro l hl
    obtain ⟨e, -, hl⟩ := List.mem_flatMap.mp hl
    exact notMem_entryLines e l hl
  have hread := fileLinesFrom_lines hclean []
  rw [List.append_nil] at hread
  refine ⟨?_, fun es' h => mbox_congr h⟩
  unfold readMbox
  rw [mbox_eq, hread, fileLinesFrom, if_pos rfl, List.append_nil, split_entries, List.map_map]
  apply List.map_congr_left
  intro e _
  exact readMessage_quote e.message.flatten

end Dmcn.Web.Mbox
