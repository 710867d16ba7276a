import OpenDmcn.Lib.Utf8
import OpenDmcn.Lib.MailText

/-! The header of a mail message as a program reads it (RFC 5322). Lines end at a line feed, an
empty one ends the header, and one that begins with white space goes on the field above it. -/

namespace MailHeader

open Go (Bytes)
open Go.Utf8 (encode)

def lf : UInt8 := 0x0a
def cr : UInt8 := 0x0d
def colon : UInt8 := 0x3a

def wsp (b : UInt8) : Bool := b == 0x20 || b == 0x09

def ftext (b : UInt8) : Bool := decide (33 ≤ b ∧ b ≤ 126 ∧ b ≠ colon)

def lines : Bytes → List Bytes
  | [] => []
  | b :: msg =>
    if b = lf then [b] :: lines msg
    else match lines msg with
      | [] => [[b]]
      | line :: rest => (b :: line) :: rest

def content (line : Bytes) : Bytes :=
  let text := if line.getLast? = some lf then line.dropLast else line
  if text.getLast? = some cr then text.dropLast else text

def blank (line : Bytes) : Bool := content line == []

def continues (line : Bytes) : Bool := line.head?.any wsp

def headerLines (msg : Bytes) : List Bytes := (lines msg).takeWhile (!blank ·)

def body (msg : Bytes) : Bytes := ((lines msg).dropWhile (!blank ·)).flatten

def groups : List Bytes → List (List Bytes)
  | [] => []
  | line :: rest =>
    match groups rest with
    | (next :: more) :: gs => if continues next then (line :: next :: more) :: gs else [line] ::
      (next :: more) :: gs
    | gs => [line] :: gs

def fields (msg : Bytes) : List (List Bytes) := groups (headerLines msg)

def name (field : List Bytes) : Option Bytes :=
  let line := content (field.headD [])
  let n := line.takeWhile ftext
  if n ≠ [] ∧ ((line.dropWhile ftext).dropWhile wsp).head? = some colon then some n else none

def afterColon (line : Bytes) : Bytes :=
  let rest := (line.dropWhile (· ≠ colon)).drop 1
  if rest.head? = some 0x20 then rest.drop 1 else rest

def value : List Bytes → Bytes
  | [] => []
  | line :: more => afterColon (content line) ++ more.flatMap content

section Lines

structure Line (line : Bytes) : Prop where
  ne_nil : line ≠ []
  one : lf ∉ line.dropLast

def Whole (line : Bytes) : Prop := line.getLast? = some lf

theorem flatten_lines (msg : Bytes) : (lines msg).flatten = msg := by
  induction msg with
  | nil => rfl
  | cons b msg ih =>
    unfold lines
    split
    · rw [List.flatten_cons, ih, List.singleton_append]
    · split
      · next hnone =>
        rw [hnone] at ih
        rw [← ih]
        rfl
      · next line rest hsome =>
        rw [hsome] at ih
        rw [← ih]
        rfl

theorem lines_spec (msg : Bytes) : (∀ line ∈ lines msg, Line line) ∧
    (lines msg).Pairwise fun line _ => Whole line := by
  induction msg with
  | nil => exact ⟨fun line h => absurd h List.not_mem_nil, List.Pairwise.nil⟩
  | cons b msg ih =>
    obtain ⟨hlines, hwhole⟩ := ih
    unfold lines
    split
    · next hend =>
      refine ⟨List.forall_mem_cons.mpr ⟨⟨List.cons_ne_nil _ _, List.not_mem_nil⟩, hlines⟩, ?_⟩
      exact List.pairwise_cons.mpr ⟨fun _ _ => congrArg some hend, hwhole⟩
    · next hplain =>
      split
      · exact ⟨List.forall_mem_singleton.mpr ⟨List.cons_ne_nil _ _, List.not_mem_nil⟩,
          List.pairwise_singleton ..⟩
      · next line rest hsome =>
        rw [hsome] at hlines hwhole
        obtain ⟨hline, hrest⟩ := List.forall_mem_cons.mp hlines
        obtain ⟨hfirst, hlater⟩ := List.pairwise_cons.mp hwhole
        refine ⟨List.forall_mem_cons.mpr ⟨⟨List.cons_ne_nil _ _, ?_⟩, hrest⟩, ?_⟩
        · rw [List.dropLast_cons_of_ne_nil hline.ne_nil]
          intro hmem
          rcases List.mem_cons.mp hmem with h | h
          · exact hplain h.symm
          · exact hline.one h
        · refine List.pairwise_cons.mpr ⟨fun later hmem => ?_, hlater⟩
          have hlast := hfirst later hmem
          unfold Whole at hlast ⊢
          rw [List.getLast?_cons, hlast]
          rfl

theorem lines_append_of_whole {line : Bytes} (h : Line line) (hwhole : Whole line) (msg : Bytes) :
    lines (line ++ msg) = line :: lines msg := by
  obtain ⟨start, hline⟩ := List.getLast?_eq_some_iff.mp hwhole
  have hone := h.one
  rw [hline, List.dropLast_concat] at hone
  rw [hline]
  clear hline hwhole h
  induction start with
  | nil =>
    change lines (lf :: msg) = [lf] :: lines msg
    rw [lines, if_pos rfl]
  | cons b start ih =>
    have hb := List.ne_of_not_mem_cons hone
    have hstart := List.not_mem_of_not_mem_cons hone
    have htail := ih hstart
    rw [List.cons_append, List.cons_append, lines, if_neg hb.symm, htail]

theorem lines_of_line {line : Bytes} (h : Line line) : lines line = [line] := by
  by_cases hwhole : Whole line
  · have hlines := lines_append_of_whole h hwhole []
    rwa [List.append_nil, show lines [] = [] from rfl] at hlines
  · have hfree : lf ∉ line := by
      intro hmem
      rw [← List.dropLast_append_getLast h.ne_nil] at hmem
      rcases List.mem_append.mp hmem with hstart | hlast
      · exact h.one hstart
      · apply hwhole
        rw [Whole, List.getLast?_eq_some_getLast h.ne_nil, List.mem_singleton.mp hlast]
    have hne := h.ne_nil
    clear hwhole h
    induction line with
    | nil => exact absurd rfl hne
    | cons b line ih =>
      have hb := List.ne_of_not_mem_cons hfree
      have hline := List.not_mem_of_not_mem_cons hfree
      rw [lines, if_neg hb.symm]
      cases line with
      | nil => rfl
      | cons c line => rw [ih hline (List.cons_ne_nil _ _)]

theorem lines_flatten {ls : List Bytes} (hlines : ∀ line ∈ ls, Line line)
    (hwhole : ls.Pairwise fun line _ => Whole line) : lines ls.flatten = ls := by
  induction ls with
  | nil => rfl
  | cons line rest ih =>
    obtain ⟨hline, hrest⟩ := List.forall_mem_cons.mp hlines
    obtain ⟨hfirst, hlater⟩ := List.pairwise_cons.mp hwhole
    cases rest with
    | nil => rw [List.flatten_cons, List.flatten_nil, List.append_nil, lines_of_line hline]
    | cons next rest =>
      rw [List.flatten_cons, lines_append_of_whole hline (hfirst next List.mem_cons_self),
        ih hrest hlater]

end Lines

section Groups

structure Field (g : List Bytes) : Prop where
  starts : ∃ line more, g = line :: more ∧ continues line = false ∧ ∀ next ∈ more, continues next =
    true
  full : ∀ line ∈ g, blank line = false

theorem groups_cons (line : Bytes) (rest : List Bytes) :
    groups (line :: rest) = (line :: rest.takeWhile continues) ::
      groups (rest.dropWhile continues) := by
  induction rest generalizing line with
  | nil => rfl
  | cons next rest ih =>
    rw [groups, ih next]
    dsimp only
    by_cases hnext : continues next = true
    · rw [if_pos hnext, List.takeWhile_cons_of_pos hnext, List.dropWhile_cons_of_pos hnext]
    · rw [if_neg hnext, List.takeWhile_cons_of_neg hnext, List.dropWhile_cons_of_neg hnext, ih next]

theorem flatten_groups (ls : List Bytes) : (groups ls).flatten = ls := by
  induction h : ls.length using Nat.strong_induction_on generalizing ls with
  | _ n ih =>
    cases ls with
    | nil => rfl
    | cons line rest =>
      have hlength := (List.dropWhile_sublist continues (l := rest)).length_le
      have hrest := ih _ (by rw [← h, List.length_cons]; omega) (rest.dropWhile continues) rfl
      rw [groups_cons, List.flatten_cons, hrest, List.cons_append, List.takeWhile_append_dropWhile]

theorem field_groups {ls : List Bytes} (hfull : ∀ line ∈ ls, blank line = false)
    (hhead : ∀ line ∈ ls.head?, continues line = false) : ∀ g ∈ groups ls, Field g := by
  induction h : ls.length using Nat.strong_induction_on generalizing ls with
  | _ n ih =>
    cases ls with
    | nil => exact fun g hg => absurd hg List.not_mem_nil
    | cons line rest =>
      have hlength := (List.dropWhile_sublist continues (l := rest)).length_le
      rw [groups_cons]
      refine List.forall_mem_cons.mpr ⟨⟨⟨line, _, rfl, hhead line rfl, ?_⟩, ?_⟩, ?_⟩
      · exact fun next hnext => List.mem_takeWhile_imp hnext
      · intro l hl
        rcases List.mem_cons.mp hl with rfl | hl
        · exact hfull l List.mem_cons_self
        · exact hfull l (List.mem_cons_of_mem line ((List.takeWhile_sublist _).subset hl))
      · refine ih _ (by rw [← h, List.length_cons]; omega) (fun l hl => ?_) (fun l hl => ?_) rfl
        · exact hfull l (List.mem_cons_of_mem line ((List.dropWhile_sublist _).subset hl))
        · have hnot := List.head?_dropWhile_not continues rest
          rw [Option.mem_def.mp hl] at hnot
          simpa using hnot

theorem head_flatten {gs : List (List Bytes)} (h : ∀ g ∈ gs, Field g) :
    ∀ line ∈ gs.flatten.head?, continues line = false := by
  cases gs with
  | nil => exact fun line hline => by cases hline
  | cons g gs =>
    obtain ⟨line, more, rfl, hline, -⟩ := (h g List.mem_cons_self).starts
    intro l hl
    rw [← Option.some.inj hl]
    exact hline

theorem groups_flatten {gs : List (List Bytes)} (h : ∀ g ∈ gs, Field g) :
    groups gs.flatten = gs := by
  induction gs with
  | nil => rfl
  | cons g gs ih =>
    obtain ⟨hg, hgs⟩ := List.forall_mem_cons.mp h
    have hhead := head_flatten hgs
    obtain ⟨line, more, rfl, hline, hmore⟩ := hg.starts
    have hend : gs.flatten.takeWhile continues = [] ∧ gs.flatten.dropWhile continues =
        gs.flatten := by
      cases hflat : gs.flatten with
      | nil => exact ⟨rfl, rfl⟩
      | cons next rest =>
        have hnext : ¬ continues next = true := by
          rw [hhead next (by rw [hflat]; rfl)]
          exact Bool.false_ne_true
        exact ⟨List.takeWhile_cons_of_neg hnext, List.dropWhile_cons_of_neg hnext⟩
    rw [List.flatten_cons, List.cons_append, groups_cons, List.takeWhile_append_of_pos hmore,
      hend.1, List.append_nil, List.dropWhile_append_of_pos hmore, hend.2, ih hgs]

end Groups

section Reading

theorem read_fields {fs : List (List Bytes)} {tail : List Bytes} (hfields : ∀ f ∈ fs, Field f)
    (hlines : ∀ line ∈ fs.flatten ++ tail, Line line)
    (hwhole : (fs.flatten ++ tail).Pairwise fun line _ => Whole line)
    (htail : ∀ line ∈ tail.head?, blank line = true) :
    fields (fs.flatten ++ tail).flatten = fs ∧ body (fs.flatten ++ tail).flatten =
      tail.flatten := by
  have hfull : ∀ line ∈ fs.flatten, (!blank line) = true := by
    intro line hline
    obtain ⟨f, hf, hmem⟩ := List.mem_flatten.mp hline
    rw [(hfields f hf).full line hmem]
    rfl
  have hend : tail.takeWhile (!blank ·) = [] ∧ tail.dropWhile (!blank ·) = tail := by
    cases tail with
    | nil => exact ⟨rfl, rfl⟩
    | cons line rest =>
      have hline : ¬ (!blank line) = true := by
        rw [htail line rfl]
        exact Bool.false_ne_true
      exact ⟨List.takeWhile_cons_of_neg hline, List.dropWhile_cons_of_neg hline⟩
  unfold fields headerLines body
  rw [lines_flatten hlines hwhole, List.takeWhile_append_of_pos hfull,
    List.dropWhile_append_of_pos hfull, hend.1, hend.2, List.append_nil, groups_flatten hfields]
  exact ⟨rfl, rfl⟩

end Reading

section Text

def plain (s : List Char) : Bool := s.all fun c => c != '\r' && c != '\n'

inductive Folded : List Char → Prop
  | plain {s : List Char} (h : plain s = true) : Folded s
  | fold {s t : List Char} (h : plain s = true) (ht : Folded t) :
    Folded (s ++ (MailText.crlf ++ ' ' :: t))

def eol : Bytes := [cr, lf]

theorem notMem_of_plain {s : List Char} (h : plain s = true) : '\r' ∉ s ∧ '\n' ∉ s := by
  have hall := List.all_eq_true.mp h
  exact ⟨fun hmem => absurd (hall _ hmem) (by decide), fun hmem => absurd (hall _ hmem) (by decide)⟩

theorem plain_append (s t : List Char) : plain (s ++ t) = (plain s && plain t) := List.all_append

theorem lf_notMem_encode {s : List Char} (h : plain s = true) : lf ∉ encode s := by
  intro hmem
  obtain ⟨c, hc, heq⟩ := Go.Utf8.exists_of_mem_encode hmem (by decide)
  have hnewline : c = '\n' := Char.toNat_inj.mp heq
  exact (notMem_of_plain h).2 (hnewline ▸ hc)

theorem cr_notMem_encode {s : List Char} (h : plain s = true) : cr ∉ encode s := by
  intro hmem
  obtain ⟨c, hc, heq⟩ := Go.Utf8.exists_of_mem_encode hmem (by decide)
  have hreturn : c = '\r' := Char.toNat_inj.mp heq
  exact (notMem_of_plain h).1 (hreturn ▸ hc)

structure Stands (l : Bytes) : Prop where
  line : Line l
  whole : Whole l
  full : blank l = false
  bare : (content l).getLast? ≠ some cr

theorem content_eol (text : Bytes) : content (text ++ eol) = text := by
  have hend : (text ++ eol).getLast? = some lf := by
    rw [show eol = [cr] ++ [lf] from rfl, ← List.append_assoc, List.getLast?_concat]
  have hstart : (text ++ eol).dropLast = text ++ [cr] := by
    rw [show eol = [cr] ++ [lf] from rfl, ← List.append_assoc, List.dropLast_concat]
  unfold content
  rw [if_pos hend, hstart]
  dsimp only
  rw [List.getLast?_concat, if_pos rfl, List.dropLast_concat]

theorem stands_of_plain {s : List Char} (h : plain s = true) (hne : s ≠ []) :
    Stands (encode s ++ eol) where
  line := by
    refine ⟨List.append_ne_nil_of_right_ne_nil _ (List.cons_ne_nil _ _), ?_⟩
    rw [show eol = [cr] ++ [lf] from rfl, ← List.append_assoc, List.dropLast_concat]
    intro hmem
    rcases List.mem_append.mp hmem with hmem | hmem
    · exact lf_notMem_encode h hmem
    · exact absurd (List.mem_singleton.mp hmem) (by decide)
  whole := by
    rw [Whole, show eol = [cr] ++ [lf] from rfl, ← List.append_assoc, List.getLast?_concat]
  full := by
    have hsome : encode s ≠ [] := fun hnil => hne (Go.Utf8.encode_eq_nil.mp hnil)
    rw [blank, content_eol]
    exact beq_false_of_ne hsome
  bare := by
    rw [content_eol]
    exact fun hlast => cr_notMem_encode h (List.mem_of_getLast? hlast)

theorem unfold_fold {s : List Char} (h : plain s = true) (t : List Char) :
    MailText.unfold (s ++ (MailText.crlf ++ ' ' :: t)) = s ++ ' ' :: MailText.unfold t := by
  rw [MailText.unfold_append (notMem_of_plain h).1]
  rfl

theorem lines_of_folded {v : List Char} (hv : Folded v) {p : List Char} (hp : plain p = true)
    (hne : p ≠ []) :
    ∃ (s : List Char) (more : List Bytes), Stands (encode (p ++ s) ++ eol) ∧
      (∀ line ∈ more, Stands line ∧ continues line = true) ∧
      ((encode (p ++ s) ++ eol) :: more).flatten = encode (p ++ (v ++ MailText.crlf)) ∧
      encode s ++ more.flatMap content = encode (MailText.unfold v) := by
  induction hv generalizing p with
  | @plain s h =>
    have hboth : plain (p ++ s) = true := by rw [plain_append, hp, h]; rfl
    refine ⟨s, [], stands_of_plain hboth (List.append_ne_nil_of_left_ne_nil hne s),
      fun line hline => absurd hline List.not_mem_nil, ?_, ?_⟩
    · rw [List.flatten_cons, List.flatten_nil, List.append_nil, ← List.append_assoc,
        Go.Utf8.encode_append (p ++ s)]
      rfl
    · rw [MailText.unfold_of_notMem (notMem_of_plain h).1, List.flatMap_nil, List.append_nil]
  | @fold s t h ht ih =>
    have hboth : plain (p ++ s) = true := by rw [plain_append, hp, h]; rfl
    obtain ⟨s', more, hline, hmore, hflat, hvalue⟩ := ih (p := [' ']) rfl (List.cons_ne_nil _ _)
    refine ⟨s, (encode ([' '] ++ s') ++ eol) :: more,
      stands_of_plain hboth (List.append_ne_nil_of_left_ne_nil hne s),
      List.forall_mem_cons.mpr ⟨⟨hline, rfl⟩, hmore⟩, ?_, ?_⟩
    · rw [List.flatten_cons, hflat, show eol = encode MailText.crlf from rfl,
        ← Go.Utf8.encode_append, ← Go.Utf8.encode_append]
      simp only [List.append_assoc, List.cons_append, List.nil_append]
    · rw [List.flatMap_cons, content_eol, unfold_fold h, Go.Utf8.encode_append,
        Go.Utf8.encode_append, List.append_assoc, hvalue]
      rfl

end Text

section Written

structure Written (n v : List Char) : Prop where
  ne_nil : encode n ≠ []
  ftext : (encode n).all ftext = true
  plain : plain n = true
  folded : Folded v

theorem field_of_written {n v : List Char} (h : Written n v) :
    ∃ f : List Bytes, Field f ∧ (∀ line ∈ f, Stands line) ∧
      f.flatten = encode (n ++ (": ".toList ++ v) ++ MailText.crlf) ∧ name f = some (encode n) ∧
      value f = encode (MailText.unfold v) := by
  have hpre : MailHeader.plain (n ++ ": ".toList) = true := by rw [plain_append, h.plain]; rfl
  have hne : n ++ ": ".toList ≠ [] := List.append_ne_nil_of_right_ne_nil n (by decide)
  obtain ⟨s, more, hline, hmore, hflat, hvalue⟩ := lines_of_folded h.folded hpre hne
  have htext : encode (n ++ ": ".toList ++ s) = encode n ++ colon :: 0x20 :: encode s := by
    rw [Go.Utf8.encode_append, Go.Utf8.encode_append, List.append_assoc]
    rfl
  have hall : ∀ b ∈ encode n, MailHeader.ftext b = true := List.all_eq_true.mp h.ftext
  have hcolon : MailHeader.ftext colon = false := rfl
  refine ⟨(encode (n ++ ": ".toList ++ s) ++ eol) :: more,
    ⟨⟨_, more, rfl, ?_, fun l hl => (hmore l hl).2⟩, ?_⟩, ?_, ?_, ?_, ?_⟩
  · rw [htext]
    cases hbytes : encode n with
    | nil => exact absurd hbytes h.ne_nil
    | cons b bytes =>
      have hb := hall b (by rw [hbytes]; exact List.mem_cons_self)
      change wsp b = false
      simp only [MailHeader.ftext, decide_eq_true_eq] at hb
      simp only [wsp, Bool.or_eq_false_iff, beq_eq_false_iff_ne]
      constructor
      · rintro rfl
        exact absurd hb.1 (by decide)
      · rintro rfl
        exact absurd hb.1 (by decide)
  · exact List.forall_mem_cons.mpr ⟨hline.full, fun l hl => (hmore l hl).1.full⟩
  · exact List.forall_mem_cons.mpr ⟨hline, fun l hl => (hmore l hl).1⟩
  · rw [hflat]
    simp only [List.append_assoc]
  · have htake : (encode n ++ colon :: 0x20 :: encode s).takeWhile MailHeader.ftext = encode n := by
      rw [List.takeWhile_append_of_pos hall,
        List.takeWhile_cons_of_neg (by rw [hcolon]; exact Bool.false_ne_true),
        List.append_nil]
    have hdrop : (encode n ++ colon :: 0x20 :: encode s).dropWhile MailHeader.ftext = colon ::
        0x20 :: encode s := by
      rw [List.dropWhile_append_of_pos hall,
        List.dropWhile_cons_of_neg (by rw [hcolon]; exact Bool.false_ne_true)]
    unfold name
    dsimp only
    rw [List.headD_cons, content_eol, htext, htake, hdrop]
    exact if_pos ⟨h.ne_nil, rfl⟩
  · have hnot : ∀ b ∈ encode n, (decide (b ≠ colon)) = true := by
      intro b hb
      have hftext := hall b hb
      simp only [MailHeader.ftext, decide_eq_true_eq] at hftext
      exact decide_eq_true hftext.2.2
    have hdrop : (encode n ++ colon :: 0x20 :: encode s).dropWhile (fun b => decide (b ≠ colon)) =
        colon :: 0x20 :: encode s := by
      rw [List.dropWhile_append_of_pos hnot, List.dropWhile_cons_of_neg (by decide)]
    rw [← hvalue]
    unfold value afterColon
    dsimp only
    rw [content_eol, htext, hdrop]
    rfl

end Written

end MailHeader
