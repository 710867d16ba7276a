import OpenDmcn.Web.ExportMessage

/-! Reading the header of an exported message back: the fields the export writes itself
(`export/mime.ts`), above those of the email that was received or as all there are. -/

namespace Dmcn.Web.Export

open Go (Bytes Fixed)
open Go.Utf8 (encode)
open MailText (crlf)
open Mime (whiteSpace trim base64Lines quotedPrintable)
open MailHeader (lf cr colon wsp ftext lines content blank continues headerLines groups fields name
  value)

section Original

open MailHeader (Field Line Whole groups_cons)

def spansOf (pos : ℕ) : List (List Bytes) → List FieldSpan
  | [] => []
  | f :: fs => ⟨nameOf (f.headD []), pos, pos + f.flatten.length⟩ ::
    spansOf (pos + f.flatten.length) fs

theorem headerBlockFrom_above (spans : List FieldSpan) (last : FieldSpan) {ls tail : List Bytes}
    (hfull : ∀ line ∈ ls, blank line = false) (htail : ∀ line ∈ tail.head?, blank line = true) :
    (headerBlockFrom (spans ++ [last]) last.stop (ls ++ tail)).fields =
      spans ++ { last with stop := last.stop + (ls.takeWhile continues).flatten.length } ::
        spansOf (last.stop + (ls.takeWhile continues).flatten.length)
          (groups (ls.dropWhile continues)) := by
  induction ls generalizing spans last with
  | nil =>
    cases tail with
    | nil => rfl
    | cons line rest =>
      have hblank : content line = [] := beq_iff_eq.mp (htail line rfl)
      rw [List.nil_append, headerBlockFrom, if_pos hblank]
      rfl
  | cons line ls ih =>
    obtain ⟨hline, hls⟩ := List.forall_mem_cons.mp hfull
    have hcontent : content line ≠ [] := ne_of_beq_false hline
    rw [List.cons_append, headerBlockFrom, if_neg hcontent, List.getLast?_concat]
    by_cases hgoes : continues line = true
    · have hnext := ih spans { last with stop := last.stop + line.length } hls
      rw [hgoes, List.dropLast_concat, List.takeWhile_cons_of_pos hgoes,
        List.dropWhile_cons_of_pos hgoes, List.flatten_cons, List.length_append, ← Nat.add_assoc]
      exact hnext
    · have hnext := ih (spans ++ [last]) ⟨nameOf line, last.stop, last.stop + line.length⟩ hls
      rw [Bool.eq_false_iff.mpr hgoes, List.takeWhile_cons_of_neg hgoes,
        List.dropWhile_cons_of_neg hgoes, groups_cons]
      dsimp only
      rw [hnext, List.append_assoc]
      simp only [spansOf, List.headD_cons, List.flatten_nil, List.length_nil, Nat.add_zero,
        List.flatten_cons, List.length_append, List.cons_append, List.nil_append, Nat.add_assoc]

theorem fields_headerBlock (msg : Bytes) : (headerBlock msg).fields = spansOf 0 (fields msg) := by
  have hlines : lines msg = headerLines msg ++ (lines msg).dropWhile (!blank ·) :=
    List.takeWhile_append_dropWhile.symm
  have hfull : ∀ line ∈ headerLines msg, blank line = false := fun line hline => by
    have hpos := List.mem_takeWhile_imp hline
    simpa using hpos
  have htail : ∀ line ∈ ((lines msg).dropWhile (!blank ·)).head?, blank line = true := by
    intro line hline
    have hnot := List.head?_dropWhile_not (!blank ·) (lines msg)
    rw [Option.mem_def.mp hline] at hnot
    simpa using hnot
  unfold headerBlock fields
  rw [hlines]
  generalize headerLines msg = ls at hfull
  generalize (lines msg).dropWhile (!blank ·) = tail at htail
  cases ls with
  | nil =>
    cases tail with
    | nil => rfl
    | cons line rest =>
      have hblank : content line = [] := beq_iff_eq.mp (htail line rfl)
      rw [List.nil_append, headerBlockFrom, if_pos hblank]
      rfl
  | cons line ls =>
    obtain ⟨hline, hls⟩ := List.forall_mem_cons.mp hfull
    have hcontent : content line ≠ [] := ne_of_beq_false hline
    have hnext := headerBlockFrom_above [] ⟨nameOf line, 0, 0 + line.length⟩ hls htail
    rw [List.cons_append, headerBlockFrom, if_neg hcontent, groups_cons]
    simp only [List.getLast?_nil, List.nil_append] at hnext ⊢
    cases continues line with
    | true =>
      dsimp only
      rw [hnext]
      simp only [spansOf, List.headD_cons, List.flatten_cons, List.length_append, Nat.add_assoc]
    | false =>
      dsimp only
      rw [hnext]
      simp only [spansOf, List.headD_cons, List.flatten_cons, List.length_append, Nat.add_assoc]

def codeOwn (f : List Bytes) : Bool := ownField (nameOf (f.headD []))

theorem flatten_withoutFrom {original before tail : Bytes} {fs : List (List Bytes)} {start : ℕ}
    (horiginal : original = before ++ (fs.flatten.flatten ++ tail))
    (hstart : start ≤ before.length) :
    (withoutFrom original start (spansOf before.length fs)).flatten =
      before.drop start ++ ((fs.filter fun f => !codeOwn f).flatten.flatten ++ tail) := by
  induction fs generalizing before start with
  | nil =>
    unfold spansOf withoutFrom
    have hdrop : original.drop start = before.drop start ++ tail := by
      rw [horiginal, List.drop_append_of_le_length hstart]
      rfl
    split
    · rw [List.flatten_singleton, hdrop]
      rfl
    · next hshort =>
      rw [List.drop_eq_nil_of_le (Nat.le_of_not_lt hshort)] at hdrop
      rw [List.flatten_nil, List.filter_nil, List.flatten_nil, List.flatten_nil, List.nil_append,
        ← hdrop]
  | cons f fs ih =>
    have hnext : original = before ++ f.flatten ++ (fs.flatten.flatten ++ tail) := by
      rw [horiginal, List.flatten_cons, List.flatten_append]
      simp only [List.append_assoc]
    have hlength : before.length + f.flatten.length = (before ++ f.flatten).length :=
      List.length_append.symm
    unfold spansOf withoutFrom
    dsimp only
    rw [hlength]
    by_cases hown : ownField (nameOf (f.headD [])) = false
    · have hkept := ih hnext (hstart.trans (by rw [List.length_append]; omega))
      rw [if_pos hown, hkept, List.filter_cons_of_pos (by rw [codeOwn, hown]; rfl),
        List.drop_append_of_le_length hstart, List.flatten_cons, List.flatten_append]
      simp only [List.append_assoc]
    · have hgone := ih hnext (Nat.le_refl _)
      have hpiece :
          (if before.length > start then [subarray original start before.length] else []).flatten =
          before.drop start := by
        split
        · rw [List.flatten_singleton, subarray, horiginal, List.take_left]
        · next hend => rw [List.drop_eq_nil_of_le (Nat.le_of_not_lt hend), List.flatten_nil]
      have hcode : ¬ (!codeOwn f) = true := by
        rw [codeOwn, Bool.of_not_eq_false hown]
        exact Bool.false_ne_true
      rw [if_neg hown, List.flatten_append, hpiece, hgone, List.drop_length, List.nil_append,
        List.filter_cons_of_neg (p := (!codeOwn ·)) hcode]

theorem flatten_withoutOwnHeaders (original : Bytes) : (withoutOwnHeaders original).flatten =
    ((fields original).filter fun f => !codeOwn f).flatten.flatten ++ MailHeader.body original := by
  have horiginal :
      original = [] ++ ((fields original).flatten.flatten ++ MailHeader.body original) := by
    rw [List.nil_append, fields, MailHeader.flatten_groups, MailHeader.body, ← List.flatten_append,
      headerLines, List.takeWhile_append_dropWhile, MailHeader.flatten_lines]
  have hany : ∀ (fs : List (List Bytes)) (pos : ℕ),
      (spansOf pos fs).any (fun f => ownField f.name) = fs.any codeOwn := by
    intro fs
    induction fs with
    | nil => exact fun pos => rfl
    | cons f fs ih => exact fun pos => congrArg (codeOwn f || ·) (ih _)
  unfold withoutOwnHeaders
  dsimp only
  rw [fields_headerBlock, hany]
  split
  · next hnone =>
    have hall : (fields original).filter (fun f => !codeOwn f) = fields original := by
      refine List.filter_eq_self.mpr fun f hf => ?_
      rw [Bool.not_eq_true']
      exact Bool.eq_false_iff.mpr fun hown =>
        Bool.eq_false_iff.mp hnone (List.any_eq_true.mpr ⟨f, hf, hown⟩)
    rw [hall, List.flatten_singleton]
    exact horiginal
  · have hflat := flatten_withoutFrom horiginal (Nat.zero_le _)
    rwa [List.drop_nil, List.nil_append] at hflat

end Original

section Reader

open MailHeader (Stands Field Line Whole)

def ownName (n : Bytes) : Bool :=
  let l := n.map fun b => (Char.ofNat b.toNat).toLower
  "x-dmcn-".toList.isPrefixOf l || stateField l

def isOwn (f : List Bytes) : Bool := (name f).any ownName

variable {L : LowerCase}

/-- What is read of an email that was received and written with fields above it: these fields, the
others it came with, and its body. -/
structure Kept (item : ExportItem L) (original out : Bytes) : Prop where
  own : ((fields out).filter isOwn).map read = (above item).map Header.asRead
  others : (fields out).filter (fun f => !isOwn f) = (fields original).filter (fun f => !isOwn f)
  body : MailHeader.body out = MailHeader.body original

/-- The email does not begin with a line that goes on a field, and what the export takes for a field
of its own is one. -/
structure Spliceable (original : Bytes) : Prop where
  starts : ∀ b ∈ original.head?, wsp b = false
  named : ∀ f ∈ fields original, codeOwn f = true → isOwn f = true

theorem own_above (item : ExportItem L) : ∀ h ∈ above item, ownName (encode h.name) = true := by
  have hcons : ∀ {n : String} {v : List Char} {hs : List Header}, ownName (encode n.toList) = true →
      (∀ h ∈ hs, ownName (encode h.name) = true) → ∀ h ∈ header n v :: hs, ownName (encode h.name) =
        true :=
    fun hn hrest => List.forall_mem_cons.mpr ⟨hn, hrest⟩
  have hnil : ∀ h ∈ ([] : List Header), ownName (encode h.name) = true :=
    fun h hh => absurd hh List.not_mem_nil
  have hif : ∀ {c : Prop} [Decidable c] {hs hs' : List Header},
      (c → ∀ h ∈ hs, ownName (encode h.name) = true) →
      (¬ c → ∀ h ∈ hs', ownName (encode h.name) = true) →
      ∀ h ∈ (if c then hs else hs'), ownName (encode h.name) = true := by
    intro c _ hs hs' h h'
    split
    · next hc => exact h hc
    · next hc => exact h' hc
  have hbridge : ∀ h ∈ bridgeHeaders L item.bridge, ownName (encode h.name) = true := by
    unfold bridgeHeaders
    split
    · exact hcons (by decide) hnil
    · exact hcons (by decide) (hcons (by decide) hnil)
  have hdmcn : ∀ h ∈ dmcnHeaders item, ownName (encode h.name) = true := by
    unfold dmcnHeaders
    refine List.forall_mem_append.mpr ⟨hif (fun _ => hcons (by decide) hnil) fun _ => hnil, ?_⟩
    split
    · exact hif (fun _ => hnil) fun _ => hcons (by decide) hnil
    · exact hnil
  have hstate : ∀ h ∈ stateHeaders item, ownName (encode h.name) = true := by
    unfold stateHeaders
    refine List.forall_mem_append.mpr
      ⟨List.forall_mem_append.mpr ⟨List.forall_mem_append.mpr ⟨?_, ?_⟩, ?_⟩, ?_⟩
    · exact hcons (by decide) hnil
    · exact hif (fun _ => hcons (by decide) hnil) fun _ => hnil
    · exact hif (fun _ => hnil) fun _ => hcons (by decide) hnil
    · split
      · exact hif (fun _ => hnil) fun _ => hcons (by decide) hnil
      · exact hnil
  exact List.forall_mem_append.mpr ⟨List.forall_mem_append.mpr ⟨hbridge, hdmcn⟩, hstate⟩

theorem above_ne_nil (item : ExportItem L) : above item ≠ [] := by
  intro h
  have hstate := (List.append_eq_nil_iff.mp h).2
  unfold stateHeaders at hstate
  simp at hstate

theorem trim_of_plain {s t : List Char} (hs : ∀ c ∈ s, whiteSpace c = false)
    (ht : ∀ c ∈ t, whiteSpace c = true) (hne : s ≠ []) : trim (s ++ t) = s := by
  have hhead : (s ++ t).dropWhile whiteSpace = s ++ t := by
    cases s with
    | nil => exact absurd rfl hne
    | cons c s =>
      rw [List.cons_append, List.dropWhile_cons_of_neg]
      rw [hs c List.mem_cons_self]
      exact Bool.false_ne_true
  unfold trim
  rw [hhead, List.rdropWhile, List.reverse_append,
    List.dropWhile_append_of_pos fun c hc => ht c (List.mem_reverse.mp hc)]
  cases hlast : s.reverse with
  | nil => exact absurd (List.reverse_eq_nil_iff.mp hlast) hne
  | cons c rest =>
    have hc := hs c (List.mem_reverse.mp (hlast ▸ List.mem_cons_self))
    rw [List.dropWhile_cons_of_neg (by rw [hc]; exact Bool.false_ne_true), ← hlast,
      List.reverse_reverse]

theorem content_prefix (line : Bytes) : content line <+: line := by
  have hend : ∀ text : Bytes, (if text.getLast? = some cr then text.dropLast else text) <+:
      text := by
    intro text
    split
    · exact List.dropLast_prefix text
    · exact List.prefix_rfl
  unfold content
  dsimp only
  apply (hend _).trans
  split
  · exact List.dropLast_prefix line
  · exact List.prefix_rfl

theorem ftext_char {b : UInt8} (h : ftext b = true) : whiteSpace (Char.ofNat b.toNat) = false ∧
    (('!' ≤ Char.ofNat b.toNat ∧ Char.ofNat b.toNat ≤ '9') ∨
      (';' ≤ Char.ofNat b.toNat ∧ Char.ofNat b.toNat ≤ '~')) := by
  have hnat := Mime.toNat_ofNat_byte b
  generalize Char.ofNat b.toNat = c at hnat
  simp only [ftext, decide_eq_true_eq, UInt8.le_iff_toNat_le, ne_eq, ← UInt8.toNat_inj] at h
  obtain ⟨hlow, hhigh, hcolon⟩ := h
  change 33 ≤ b.toNat at hlow
  change b.toNat ≤ 126 at hhigh
  change ¬ b.toNat = 58 at hcolon
  constructor
  · simp only [whiteSpace, List.mem_cons, List.not_mem_nil, or_false, decide_eq_false_iff_not]
    omega
  · by_cases hfirst : c.toNat ≤ 57
    · refine .inl ⟨?_, hfirst⟩
      change 33 ≤ c.toNat
      omega
    · refine .inr ⟨?_, ?_⟩
      · change 59 ≤ c.toNat
        omega
      · change c.toNat ≤ 126
        omega

theorem whiteSpace_of_wsp {b : UInt8} (h : wsp b = true) : whiteSpace
    (Char.ofNat b.toNat) = true := by
  simp only [wsp, Bool.or_eq_true, beq_iff_eq] at h
  rcases h with rfl | rfl
  · rfl
  · rfl

theorem name_spec {f : List Bytes} {n : Bytes} (h : name f = some n) : n ≠ [] ∧
    (∀ b ∈ n, ftext b = true) ∧
    ∃ w rest : Bytes, (∀ b ∈ w, wsp b = true) ∧ content (f.headD []) = n ++
      (w ++ colon :: rest) := by
  unfold name at h
  dsimp only at h
  split at h
  · next hname =>
    obtain ⟨hne, hcolon⟩ := hname
    rw [Option.some.inj h] at hne
    obtain ⟨rest, hrest⟩ := List.head?_eq_some_iff.mp hcolon
    refine ⟨hne, fun b hb => ?_, ((content (f.headD [])).dropWhile ftext).takeWhile wsp, rest,
      fun b hb => List.mem_takeWhile_imp hb, ?_⟩
    · rw [← Option.some.inj h] at hb
      exact List.mem_takeWhile_imp hb
    · rw [← hrest, List.takeWhile_append_dropWhile, ← Option.some.inj h,
        List.takeWhile_append_dropWhile]
  · cases h

theorem nameOf_eq {f : List Bytes} {n w rest : Bytes} (hn : ∀ b ∈ n, ftext b = true) (hne : n ≠ [])
    (hw : ∀ b ∈ w, wsp b = true) (hline : content (f.headD []) = n ++ (w ++ colon :: rest)) :
    nameOf (f.headD []) = trim (latin1 (n ++ w)) := by
  obtain ⟨tail, htail⟩ := content_prefix (f.headD [])
  have hfree : colon ∉ n ++ w := by
    intro hmem
    rcases List.mem_append.mp hmem with hmem | hmem
    · exact absurd (hn colon hmem) (by decide)
    · exact absurd (hw colon hmem) (by decide)
  have hwhole : f.headD [] = (n ++ w) ++ colon :: (rest ++ tail) := by
    rw [← htail, hline]
    simp only [List.append_assoc, List.cons_append]
  have hstop : (f.headD []).idxOf colon = (n ++ w).length := by
    rw [hwhole, List.idxOf_append_of_notMem hfree, List.idxOf_cons_self, Nat.add_zero]
  have hpos : 0 < (n ++ w).length :=
    List.length_pos_of_ne_nil (List.append_ne_nil_of_left_ne_nil hne w)
  have hlt : (n ++ w).length < (content (f.headD [])).length := by
    rw [hline]
    simp only [List.length_append, List.length_cons]
    omega
  have htake : (f.headD []).take (n ++ w).length = n ++ w := by rw [hwhole, List.take_left]
  unfold nameOf
  dsimp only
  rw [hstop, if_pos ⟨hpos, hlt⟩, htake]

/-- The export takes each field of these names for its own, however long the name is and whatever
white space is behind it. -/
theorem codeOwn_of_isOwn {f : List Bytes} (h : isOwn f = true) : codeOwn f = true := by
  obtain ⟨n, hname, hown⟩ := (Option.any_eq_true _ _).mp h
  obtain ⟨hne, hn, w, rest, hw, hline⟩ := name_spec hname
  have hspace : ∀ c ∈ (w.take (4096 - n.length)).map (fun x => Char.ofNat x.toNat), whiteSpace c =
      true := by
    intro c hc
    obtain ⟨b, hb, rfl⟩ := List.mem_map.mp hc
    exact whiteSpace_of_wsp (hw b (List.mem_of_mem_take hb))
  have hplain : ∀ c ∈ (n.take 4096).map (fun x => Char.ofNat x.toNat), whiteSpace c = false := by
    intro c hc
    obtain ⟨b, hb, rfl⟩ := List.mem_map.mp hc
    exact (ftext_char (hn b (List.mem_of_mem_take hb))).1
  have hsome : (n.take 4096).map (fun x => Char.ofNat x.toNat) ≠ [] := by
    intro hnil
    rcases List.take_eq_nil_iff.mp (List.map_eq_nil_iff.mp hnil) with h | h
    · exact absurd h (by decide)
    · exact hne h
  have hread : nameOf (f.headD []) = (n.take 4096).map fun x => Char.ofNat x.toNat := by
    rw [nameOf_eq hn hne hw hline, latin1, List.take_append, List.map_append]
    exact trim_of_plain hplain hspace hsome
  unfold codeOwn ownField
  dsimp only
  rw [hread]
  simp only [ownName, Bool.or_eq_true] at hown
  rcases hown with hown | hown
  · -- the first seven characters are the name's own
    have hstart := List.isPrefixOf_iff_prefix.mp hown
    have hlower : "x-dmcn-".toList <+: ((n.take 4096).map fun x => Char.ofNat x.toNat).map
        Char.toLower := by
      have hmap : ((n.take 4096).map fun x => Char.ofNat x.toNat).map Char.toLower =
          (n.map fun b => (Char.ofNat b.toNat).toLower).take 4096 := by
        rw [List.map_map, ← List.map_take]
        rfl
      rw [hmap]
      exact List.prefix_take_iff.mpr ⟨hstart, by decide⟩
    have hrange : (((n.take 4096).map fun x => Char.ofNat x.toNat).drop 7).all (fun c =>
        decide (('!' ≤ c ∧ c ≤ '9') ∨ (';' ≤ c ∧ c ≤ '~'))) = true := by
      refine List.all_eq_true.mpr fun c hc => decide_eq_true ?_
      obtain ⟨b, hb, rfl⟩ := List.mem_map.mp (List.mem_of_mem_drop hc)
      exact (ftext_char (hn b (List.mem_of_mem_take hb))).2
    rw [List.isPrefixOf_iff_prefix.mpr hlower, hrange]
    rfl
  · have hshort : n.length ≤ 10 := by
      have hlength : ∀ s ∈ ["status".toList, "x-status".toList, "x-keywords".toList],
          s.length ≤ 10 := by decide
      have hbound := hlength _ (of_decide_eq_true hown)
      rwa [List.length_map] at hbound
    rw [List.take_of_length_le (hshort.trans (by decide)), List.map_map]
    exact Bool.or_eq_true_iff.mpr (.inr hown)

end Reader

section Splice

open MailHeader (Stands Field Line Whole)

variable {L : LowerCase} {original : Bytes}

def tailOf (original : Bytes) : List Bytes := (lines original).dropWhile (!blank ·)

def kept (original : Bytes) : List (List Bytes) := (fields original).filter fun f => !codeOwn f

theorem head_tailOf (original : Bytes) : ∀ line ∈ (tailOf original).head?, blank line = true := by
  intro line hline
  have hnot := List.head?_dropWhile_not (!blank ·) (lines original)
  rw [← tailOf, Option.mem_def.mp hline] at hnot
  simpa using hnot

theorem full_headerLines (original : Bytes) : ∀ line ∈ headerLines original,
    blank line = false := by
  intro line hline
  have hpos := List.mem_takeWhile_imp hline
  simpa using hpos

theorem flatten_fields (original : Bytes) : (fields original).flatten = headerLines original :=
  MailHeader.flatten_groups _

theorem lines_spliced {top gs : List (List Bytes)} (htop : ∀ line ∈ top.flatten, Stands line)
    (hgs : gs.flatten.Sublist (headerLines original)) :
    (∀ line ∈ (top ++ gs).flatten ++ tailOf original, Line line) ∧
      ((top ++ gs).flatten ++ tailOf original).Pairwise fun line _ => Whole line := by
  obtain ⟨hlines, hwhole⟩ := MailHeader.lines_spec original
  have hsub : (gs.flatten ++ tailOf original).Sublist (lines original) := by
    have hall := hgs.append_right (tailOf original)
    rwa [headerLines, tailOf, List.takeWhile_append_dropWhile] at hall
  rw [List.flatten_append, List.append_assoc]
  refine ⟨List.forall_mem_append.mpr ⟨fun l hl => (htop l hl).line, fun l hl =>
    hlines l (hsub.subset hl)⟩, ?_⟩
  refine List.pairwise_append.mpr ⟨?_, hwhole.sublist hsub, fun l hl _ _ => (htop l hl).whole⟩
  exact List.pairwise_of_forall_mem_list fun l hl _ _ => (htop l hl).whole

variable {top : List (List Bytes)}

theorem own_of_read {item : ExportItem L} (hread : top.map read = (above item).map Header.asRead)
    : ∀ f ∈ top, isOwn f = true := by
  intro f hf
  have hmem : read f ∈ (above item).map Header.asRead := hread ▸ List.mem_map_of_mem hf
  obtain ⟨h, hh, heq⟩ := List.mem_map.mp hmem
  have hname : name f = some (encode h.name) := (congrArg Prod.fst heq).symm
  unfold isOwn
  rw [hname]
  exact own_above item h hh

theorem notOwn_of_kept {f : List Bytes} (h : f ∈ kept original) : isOwn f = false := by
  have hcode := (List.mem_filter.mp h).2
  rw [Bool.not_eq_true'] at hcode
  refine Bool.eq_false_iff.mpr fun hown => ?_
  exact Bool.false_ne_true (hcode.symm.trans (codeOwn_of_isOwn hown))

theorem content_ne_nil {b : UInt8} {line : Bytes} (hline : line.head? = some b)
    (hb : wsp b = true) :
    (content line).head? = some b := by
  obtain ⟨rest, rfl⟩ := List.head?_eq_some_iff.mp hline
  have hplain : b ≠ lf ∧ b ≠ cr := by
    constructor
    · rintro rfl
      exact absurd hb (by decide)
    · rintro rfl
      exact absurd hb (by decide)
  have hdrop : ∀ {d : UInt8} {text : Bytes}, b ≠ d → text.head? = some b →
      (if text.getLast? = some d then text.dropLast else text).head? = some b := by
    intro d text hd htext
    obtain ⟨more, rfl⟩ := List.head?_eq_some_iff.mp htext
    split
    · next hlast =>
      cases more with
      | nil => exact absurd (Option.some.inj hlast) hd
      | cons c more => rfl
    · rfl
  exact hdrop hplain.2 (hdrop hplain.1 rfl)

theorem fields_of_folded {b : UInt8} (hstart : original.head? = some b) (hb : wsp b = true) :
    ∃ (line : Bytes) (more : List Bytes) (gs : List (List Bytes)), fields original =
      (line :: more) :: gs ∧
      line.head? = some b ∧ (∀ l ∈ line :: more, continues l = true ∧ blank l = false) ∧ ∀ g ∈ gs,
      Field g := by
  have hlines := MailHeader.flatten_lines original
  have hspec := (MailHeader.lines_spec original).1
  cases hall : lines original with
  | nil =>
    rw [hall] at hlines
    rw [← hlines] at hstart
    cases hstart
  | cons line rest =>
    rw [hall] at hspec hlines
    have hhead : line.head? = some b := by
      obtain ⟨c, t, ht⟩ := List.exists_cons_of_ne_nil (hspec line List.mem_cons_self).ne_nil
      rw [← hlines, List.flatten_cons, ht] at hstart
      rw [ht]
      exact hstart
    have hfull : blank line = false := by
      have hcontent := content_ne_nil hhead hb
      refine beq_false_of_ne fun hnil => ?_
      rw [hnil] at hcontent
      cases hcontent
    have hheader : headerLines original = line :: rest.takeWhile (!blank ·) := by
      rw [headerLines, hall, List.takeWhile_cons_of_pos (by rw [hfull]; rfl)]
    have hlater := full_headerLines original
    rw [hheader] at hlater
    have hgoes : continues line = true := by rw [continues, hhead]; exact hb
    refine ⟨line, _, _, by rw [fields, hheader, MailHeader.groups_cons], hhead, ?_, ?_⟩
    · refine List.forall_mem_cons.mpr ⟨⟨hgoes, hfull⟩, fun l hl => ⟨List.mem_takeWhile_imp hl, ?_⟩⟩
      exact hlater l (List.mem_cons_of_mem line ((List.takeWhile_sublist _).subset hl))
    · refine MailHeader.field_groups (fun l hl => ?_) (fun l hl => ?_)
      · exact hlater l (List.mem_cons_of_mem line ((List.dropWhile_sublist _).subset hl))
      · have hnot := List.head?_dropWhile_not continues (rest.takeWhile (!blank ·))
        rw [Option.mem_def.mp hl] at hnot
        simpa using hnot

theorem fields_of_starts (hstart : ∀ b ∈ original.head?, wsp b = false) : ∀ g ∈ fields original,
    Field g := by
  refine MailHeader.field_groups (full_headerLines original) fun line hline => ?_
  have hlines := MailHeader.flatten_lines original
  have hspec := (MailHeader.lines_spec original).1
  cases hall : lines original with
  | nil =>
    rw [headerLines, hall] at hline
    cases hline
  | cons first rest =>
    rw [hall] at hspec hlines
    obtain ⟨c, t, ht⟩ := List.exists_cons_of_ne_nil (hspec first List.mem_cons_self).ne_nil
    have hbyte := hstart c (by rw [← hlines, List.flatten_cons, ht]; rfl)
    have hfirst : line = first := by
      rw [headerLines, hall] at hline
      by_cases hfull : (!blank first) = true
      · rw [List.takeWhile_cons_of_pos (p := (!blank ·)) hfull] at hline
        exact (Option.some.inj hline).symm
      · rw [List.takeWhile_cons_of_neg (p := (!blank ·)) hfull] at hline
        cases hline
    rw [hfirst, ht]
    exact hbyte

theorem spliced_eq {item : ExportItem L}
    (htop : top.flatten.flatten = encode ((above item).flatMap fun h => h.text ++ crlf)) :
    encode (joined (above item)) ++ (withoutOwnHeaders original).flatten =
      ((top ++ kept original).flatten ++ tailOf original).flatten := by
  rw [joined_eq (above_ne_nil item), ← htop, flatten_withoutOwnHeaders, List.flatten_append,
    List.flatten_append, List.flatten_append, List.append_assoc]
  rfl

theorem kept_sublist (original : Bytes) : (kept original).flatten.Sublist
    (headerLines original) := by
  rw [← flatten_fields]
  exact List.filter_sublist.flatten

theorem read_spliced (hfields : ∀ f ∈ top, Field f) (hlines : ∀ line ∈ top.flatten, Stands line)
    (hkept : ∀ f ∈ kept original, Field f) :
    fields ((top ++ kept original).flatten ++ tailOf original).flatten = top ++ kept original ∧
      MailHeader.body ((top ++ kept original).flatten ++ tailOf original).flatten =
      MailHeader.body original := by
  obtain ⟨hline, hwhole⟩ := lines_spliced hlines (kept_sublist original)
  exact MailHeader.read_fields (List.forall_mem_append.mpr ⟨hfields, hkept⟩) hline hwhole
    (head_tailOf original)

theorem filter_own (hown : ∀ f ∈ top, isOwn f = true) :
    (top ++ kept original).filter isOwn = top ∧ (top ++ kept original).filter (fun f => !isOwn f) =
      kept original := by
  have hnot : ∀ f ∈ kept original, ¬ isOwn f = true :=
    fun f hf => by rw [notOwn_of_kept hf]; exact Bool.false_ne_true
  constructor
  · rw [List.filter_append, List.filter_eq_self.mpr hown, List.filter_eq_nil_iff.mpr hnot,
      List.append_nil]
  · have htop : top.filter (fun f => !isOwn f) = [] :=
      List.filter_eq_nil_iff.mpr fun f hf => by rw [hown f hf]; exact Bool.false_ne_true
    have hkept : (kept original).filter (fun f => !isOwn f) = kept original :=
      List.filter_eq_self.mpr fun f hf => by rw [notOwn_of_kept hf]; rfl
    rw [List.filter_append, htop, hkept, List.nil_append]

theorem kept_eq_iff : kept original = (fields original).filter (fun f => !isOwn f) ↔
    ∀ f ∈ fields original, codeOwn f = true → isOwn f = true := by
  constructor
  · intro h f hf hcode
    by_contra hown
    have hmem : f ∈ kept original := by
      rw [h]
      exact List.mem_filter.mpr ⟨hf, by rw [Bool.eq_false_iff.mpr hown]; rfl⟩
    have hnot := (List.mem_filter.mp hmem).2
    rw [hcode] at hnot
    cases hnot
  · intro h
    refine List.filter_congr fun f hf => congrArg (!·) ?_
    cases hcode : codeOwn f with
    | true => exact (h f hf hcode).symm
    | false =>
      have hnot : isOwn f = false :=
        Bool.eq_false_iff.mpr fun hown =>
          Bool.false_ne_true (hcode.symm.trans (codeOwn_of_isOwn hown))
      exact hnot.symm

theorem not_kept_of_joined (item : ExportItem L) {b : UInt8} {line : Bytes} {more : List Bytes}
    {gs : List (List Bytes)} (hfields : fields original = (line :: more) :: gs)
    (hline : line.head? = some b) (hb : wsp b = true)
    (hgoes : ∀ l ∈ line :: more, continues l = true ∧ blank l = false) (hgs : ∀ g ∈ gs, Field g)
    (hcode : codeOwn (line :: more) = false) :
    ¬ Kept item original
      (encode (joined (above item)) ++ (withoutOwnHeaders original).flatten) := by
  obtain ⟨top, htop, hstands, hflat, hread⟩ := fields_of_written (written_above item)
  have hne : top ≠ [] := by
    rintro rfl
    exact above_ne_nil item (List.map_eq_nil_iff.mp hread.symm)
  obtain ⟨front, last, rfl⟩ : ∃ front last, top = front ++ [last] :=
    ⟨_, _, (List.dropLast_append_getLast hne).symm⟩
  have hkept : kept original = (line :: more) :: gs.filter (fun f => !codeOwn f) := by
    rw [kept, hfields, List.filter_cons_of_pos (by rw [hcode]; rfl)]
  have hlast := htop last (List.mem_append_right _ List.mem_cons_self)
  obtain ⟨first, others, rfl, hfirst, hothers⟩ := hlast.starts
  have hjoined : Field ((first :: others) ++ (line :: more)) := by
    refine ⟨⟨first, others ++ (line :: more), rfl, hfirst, ?_⟩, ?_⟩
    · exact List.forall_mem_append.mpr ⟨hothers, fun l hl => (hgoes l hl).1⟩
    · exact List.forall_mem_append.mpr ⟨hlast.full, fun l hl => (hgoes l hl).2⟩
  have hrest : ∀ g ∈ gs.filter (fun f => !codeOwn f), Field g :=
    fun g hg => hgs g (List.mem_filter.mp hg).1
  have hnew : ∀ g ∈ front ++ ((first :: others) ++ (line :: more)) :: gs.filter (fun f =>
    !codeOwn f), Field g :=
    List.forall_mem_append.mpr ⟨fun f hf => htop f (List.mem_append_left _ hf),
      List.forall_mem_cons.mpr ⟨hjoined, hrest⟩⟩
  have hsame :
      (front ++ ((first :: others) ++ (line :: more)) :: gs.filter (fun f => !codeOwn f)).flatten =
      (front ++ [first :: others] ++ kept original).flatten := by
    rw [hkept]
    simp only [List.flatten_append, List.flatten_cons, List.flatten_nil, List.append_assoc,
      List.append_nil]
  obtain ⟨hlines, hwhole⟩ := lines_spliced hstands (kept_sublist original)
  rw [← hsame] at hlines hwhole
  have hfieldsOut := (MailHeader.read_fields hnew hlines hwhole (head_tailOf original)).1
  rw [hsame, ← spliced_eq hflat] at hfieldsOut
  intro h
  have hown := own_of_read hread
  have hlastOwn := hown (first :: others) (List.mem_append_right _ List.mem_cons_self)
  have hjoinedOwn : isOwn ((first :: others) ++ (line :: more)) = true := hlastOwn
  have hnone : ∀ g ∈ gs.filter (fun f => !codeOwn f), ¬ isOwn g = true := by
    intro g hg
    have hmem : g ∈ kept original := by
      rw [hkept]
      exact List.mem_cons_of_mem _ hg
    rw [notOwn_of_kept hmem]
    exact Bool.false_ne_true
  have hvalues := h.own
  rw [hfieldsOut, List.filter_append, List.filter_eq_self.mpr fun f hf =>
    hown f (List.mem_append_left _ hf), List.filter_cons_of_pos hjoinedOwn,
      List.filter_eq_nil_iff.mpr hnone, ← hread, List.map_append,
    List.map_append] at hvalues
  have hlastValue := congrArg Prod.snd (List.singleton_inj.mp (List.append_cancel_left hvalues))
  have hlonger : value ((first :: others) ++ (line :: more)) =
      value (first :: others) ++ (line :: more).flatMap content := by
    rw [List.cons_append, value, value, List.flatMap_append, List.append_assoc]
  have hnil : (line :: more).flatMap content = [] :=
    List.append_right_eq_self.mp (hlonger.symm.trans hlastValue)
  have hempty := (List.flatMap_eq_nil_iff.mp hnil) line List.mem_cons_self
  have hcontent := content_ne_nil hline hb
  rw [hempty] at hcontent
  cases hcontent

theorem kept_iff (item : ExportItem L) (original : Bytes) :
    Kept item original (encode (joined (above item)) ++ (withoutOwnHeaders original).flatten) ↔
      Spliceable original := by
  obtain ⟨top, htop, hstands, hflat, hread⟩ := fields_of_written (written_above item)
  have hown := own_of_read hread
  have hkept : (∀ f ∈ kept original, Field f) →
      (Kept item original (encode (joined (above item)) ++ (withoutOwnHeaders original).flatten) ↔
        ∀ f ∈ fields original, codeOwn f = true → isOwn f = true) := by
    intro hgs
    obtain ⟨hfields, hbody⟩ := read_spliced htop hstands hgs
    rw [← spliced_eq hflat] at hfields hbody
    obtain ⟨hmine, hothers⟩ : (top ++ kept original).filter isOwn = top ∧
        (top ++ kept original).filter (fun f => !isOwn f) = kept original := filter_own hown
    rw [← kept_eq_iff]
    constructor
    · intro h
      have hsame := h.others
      rwa [hfields, hothers] at hsame
    · intro h
      exact ⟨by rw [hfields, hmine, hread], by rw [hfields, hothers, h], hbody⟩
  by_cases hstart : ∀ b ∈ original.head?, wsp b = false
  · have hall := fields_of_starts hstart
    rw [hkept fun f hf => hall f (List.mem_filter.mp hf).1]
    exact ⟨fun h => ⟨hstart, h⟩, fun h => h.named⟩
  · refine iff_of_false (fun h => ?_) fun h => hstart h.starts
    simp only [not_forall] at hstart
    obtain ⟨b, hhead, hb⟩ := hstart
    have hb : wsp b = true := Bool.of_not_eq_false hb
    obtain ⟨line, more, gs, hfields, hline, hgoes, hgs⟩ := fields_of_folded hhead hb
    cases hcode : codeOwn (line :: more) with
    | false => exact not_kept_of_joined item hfields hline hb hgoes hgs hcode h
    | true =>
      have hrest : ∀ f ∈ kept original, Field f := by
        intro f hf
        rw [kept, hfields, List.filter_cons_of_neg (by rw [hcode]; exact Bool.false_ne_true)] at hf
        exact hgs f (List.mem_filter.mp hf).1
      have hnamed :=
        (hkept hrest).mp h (line :: more) (by rw [hfields]; exact List.mem_cons_self) hcode
      obtain ⟨n, hname, -⟩ := (Option.any_eq_true _ _).mp hnamed
      obtain ⟨hne, hn, w, rest, -, hcontent⟩ := name_spec hname
      have hfirst := content_ne_nil hline hb
      rw [List.headD_cons] at hcontent
      obtain ⟨c, n, rfl⟩ := List.exists_cons_of_ne_nil hne
      rw [hcontent] at hfirst
      rw [Option.some.inj hfirst] at hn
      have hftext := hn b List.mem_cons_self
      simp only [wsp, Bool.or_eq_true, beq_iff_eq] at hb
      rcases hb with rfl | rfl
      · exact absurd hftext (by decide)
      · exact absurd hftext (by decide)

end Splice

section Native

open MailHeader (Stands Field Line Whole plain)

variable {L : LowerCase}

namespace Chunks

def flat (out : Chunks) : Bytes := out.parts.flatten ++ encode out.pending

theorem flat_text (out : Chunks) (s : List Char) : (out.text s).flat = out.flat ++ encode s := by
  unfold flat text
  dsimp only
  rw [Go.Utf8.encode_append, List.append_assoc]

theorem flat_flush (out : Chunks) : out.flush.flat = out.flat ∧ out.flush.pending = [] := by
  unfold flush
  split
  · next hnone => exact ⟨rfl, hnone⟩
  · refine ⟨?_, rfl⟩
    unfold flat
    rw [List.flatten_append, List.flatten_singleton]
    exact List.append_nil _

theorem flatten_done (out : Chunks) : out.done.flatten = out.flat := by
  obtain ⟨hflat, hnone⟩ := out.flat_flush
  rw [← hflat, flat, hnone]
  exact (List.append_nil _).symm

theorem flat_bytes (out : Chunks) (b : Bytes) : (out.bytes b).flat = out.flat ++ b := by
  obtain ⟨hflat, hnone⟩ := out.flat_flush
  rw [← hflat]
  unfold flat bytes
  dsimp only
  rw [hnone, List.flatten_append, List.flatten_singleton]
  simp only [encode, List.flatMap_nil, List.append_nil]

end Chunks

theorem joined_append {hs hs' : List Header} (h : hs ≠ []) (h' : hs' ≠ []) :
    joined hs ++ joined hs' = joined (hs ++ hs') := by
  rw [joined_eq h, joined_eq h', joined_eq (List.append_ne_nil_of_left_ne_nil h _),
    List.flatMap_append]

theorem flat_body (item : ExportItem L) (boundary : ℕ → List Char) (out : Chunks) :
    ∃ rest : Bytes, (body item boundary out).flat =
      out.flat ++ (encode (joined (bodyHeaders item boundary)) ++ (encode crlf ++ rest)) := by
  have hstarts : ∀ (out : Chunks) (hs : List Header) (s : List Char), ∃ rest : Bytes,
      (out.text (joined hs ++ (crlf ++ s))).flat = out.flat ++
        (encode (joined hs) ++ (encode crlf ++ rest)) := by
    intro out hs s
    exact ⟨encode s, by rw [Chunks.flat_text, Go.Utf8.encode_append, Go.Utf8.encode_append]⟩
  unfold body bodyHeaders
  split
  · split
    · exact hstarts out _ _
    · exact hstarts out _ _
  · dsimp only
    have hgrows : ∀ (out : Chunks) (s : List Char) (start more : Bytes), out.flat = start ++ more →
        ∃ more', (out.text s).flat = start ++ more' := by
      intro out s start more h
      exact ⟨more ++ encode s, by rw [Chunks.flat_text, h, List.append_assoc]⟩
    have hparts :
        ∀ (f : DecryptedAttachment → List Char) (as : List DecryptedAttachment) (out : Chunks)
        (start more : Bytes), out.flat = start ++ more → ∃ more',
          (as.foldl (fun out a => (out.text (f a)).bytes (base64Lines a.content)) out).flat =
            start ++ more' := by
      intro f as
      induction as with
      | nil => exact fun out start more h => ⟨more, h⟩
      | cons a as ih =>
        intro out start more h
        refine ih _ start (more ++ encode (f a) ++ base64Lines a.content) ?_
        rw [Chunks.flat_bytes, Chunks.flat_text, h]
        simp only [List.append_assoc]
    have hends :
        ∀ (f : DecryptedAttachment → List Char) (first s last : List Char) (start more : Bytes),
        (out.text first).flat = start ++ more → ∃ more',
          ((item.attachments.foldl (fun out a => (out.text (f a)).bytes (base64Lines a.content))
            ((out.text first).text s)).text last).flat = start ++ more' := by
      intro f first s last start more h
      obtain ⟨more₁, h₁⟩ := hgrows _ s _ _ h
      obtain ⟨more₂, h₂⟩ := hparts f item.attachments _ _ _ h₁
      exact hgrows _ last _ _ h₂
    obtain ⟨rest, hrest⟩ :=
      hstarts out [multipart "multipart/mixed" (boundary 0)] (delimiter (boundary 0) [])
    rw [← List.append_assoc (encode _), ← List.append_assoc out.flat] at hrest
    split
    · obtain ⟨more, hmore⟩ := hends _ _ _ _ _ _ hrest
      exact ⟨more, by rw [hmore, List.append_assoc, List.append_assoc]⟩
    · obtain ⟨more, hmore⟩ := hends _ _ _ _ _ _ hrest
      exact ⟨more, by rw [hmore, List.append_assoc, List.append_assoc]⟩

structure Begins (top : List (List Bytes)) (rest : List Bytes) : Prop where
  fields : ∀ f ∈ top, Field f
  stands : ∀ line ∈ top.flatten, Stands line
  lines : ∀ line ∈ rest, Line line
  whole : rest.Pairwise fun line _ => Whole line
  head : ∀ line ∈ rest.head?, continues line = false

theorem Begins.line {top : List (List Bytes)} {rest : List Bytes} (h : Begins top rest) :
    ∀ line ∈ top.flatten ++ rest, Line line :=
  List.forall_mem_append.mpr ⟨fun line hline => (h.stands line hline).line, h.lines⟩

theorem Begins.pairwise {top : List (List Bytes)} {rest : List Bytes} (h : Begins top rest) :
    (top.flatten ++ rest).Pairwise fun line _ => Whole line := by
  refine List.pairwise_append.mpr ⟨?_, h.whole, fun line hline _ _ => (h.stands line hline).whole⟩
  exact List.pairwise_of_forall_mem_list fun line hline _ _ => (h.stands line hline).whole

theorem begins_native (item : ExportItem L) (draws : ℕ → Fixed 12)
    (hnative : item.original = none) :
    ∃ top rest, Begins top rest ∧ (∀ line ∈ rest.head?, blank line = true) ∧
      top.map read = (emitted item fun n => randomBoundary (draws n)).map Header.asRead ∧
      (renderMessage item fun n => randomBoundary (draws n)).flatten =
      (top.flatten ++ rest).flatten := by
  have hboundary : ∀ n, plain (randomBoundary (draws n)) = true :=
    fun n => plain_randomBoundary (draws n)
  obtain ⟨fs, hfields, hstands, hflat, hread⟩ := fields_of_written (written_emitted item hboundary)
  obtain ⟨rest, hrest⟩ := flat_body item (fun n => randomBoundary (draws n)) (Chunks.text ⟨[], []⟩
    (joined (envelopeHeaders item ++ dmcnHeaders item ++ stateHeaders item ++
      [header "MIME-Version" "1.0".toList])))
  have hempty : Line (encode crlf) := ⟨by decide, by decide⟩
  have hlines : lines (encode crlf ++ rest) = encode crlf :: lines rest :=
    MailHeader.lines_append_of_whole hempty rfl rest
  have hbody : bodyHeaders item (fun n => randomBoundary (draws n)) ≠ [] := by
    unfold bodyHeaders
    split
    · split
      · exact List.cons_ne_nil _ _
      · exact List.cons_ne_nil _ _
    · exact List.cons_ne_nil _ _
  have hnothing : (⟨[], []⟩ : Chunks).flat = [] := rfl
  have hbytes : (renderMessage item fun n => randomBoundary (draws n)).flatten =
      (fs.flatten ++ lines (encode crlf ++ rest)).flatten := by
    unfold renderMessage
    rw [hnative]
    dsimp only
    rw [Chunks.flatten_done, hrest, Chunks.flat_text, List.flatten_append, MailHeader.flatten_lines,
      hflat, emitted, ← joined_eq (List.append_ne_nil_of_right_ne_nil _ hbody),
      ← joined_append (List.append_ne_nil_of_right_ne_nil _ (List.cons_ne_nil _ _)) hbody,
        Go.Utf8.encode_append,
      hnothing, List.nil_append, List.append_assoc (encode _)]
  have hhead : ∀ line ∈ (lines (encode crlf ++ rest)).head?, line = encode crlf := by
    rw [hlines]
    exact fun line hline => (Option.some.inj hline).symm
  obtain ⟨hrestLines, hrestWhole⟩ := MailHeader.lines_spec (encode crlf ++ rest)
  refine ⟨fs, lines (encode crlf ++ rest),
    ⟨hfields, hstands, hrestLines, hrestWhole, fun line hline => ?_⟩,
    fun line hline => ?_, hread, hbytes⟩
  · rw [hhead line hline]
    decide
  · rw [hhead line hline]
    decide

end Native

variable {L : LowerCase}

/-- The fields above an email that was received are read as they were written, and its own other
fields and its body as they were, exactly if the email does not begin with white space and no field
of it is taken for one of these that is not. -/
theorem bridged_headers_unforged (item : ExportItem L) (boundary : ℕ → List Char) (original : Bytes)
    (horiginal : item.original = some original) :
    Kept item original (renderMessage item boundary).flatten ↔ Spliceable original := by
  rw [← kept_iff item original]
  unfold renderMessage
  rw [horiginal]
  rfl

def asciiLower : LowerCase := ⟨List.map Char.toLower, fun _ _ => rfl⟩

def someone : Preview :=
  ⟨"01".toList, "00".toList, "ann@a.example".toList, "0a".toList, "bob@b.example".toList, [], [],
    [], "Hi".toList, [], 0, none, by decide⟩

def placed : Bytes := encode "X-DMCN-Folder: Archive\r\nFrom: ann@a.example\r\n\r\nhi".toList

def placedItem : ExportItem asciiLower :=
  ⟨someone, "00".toList, [], none, [], some placed, none, false, true, false, [],
    some "Inbox".toList, fun _ => none, fun _ _ h => (Option.some_ne_none _ h.symm).elim⟩

theorem bridged_headers_unforged_placed : Kept placedItem placed
    (renderMessage placedItem fun _ => []).flatten := by
  refine (bridged_headers_unforged placedItem _ placed rfl).mpr ⟨fun b hb => ?_, by decide⟩
  rw [← Option.some.inj hb]
  rfl

/-- A message that was not received as an email is read with the fields it is written with, whatever
it says. -/
theorem native_headers_exact (item : ExportItem L) (draws : ℕ → Fixed 12)
    (hnative : item.original = none) :
    (fields (renderMessage item fun n => randomBoundary (draws n)).flatten).map read =
      (emitted item fun n => randomBoundary (draws n)).map Header.asRead := by
  obtain ⟨top, rest, hbegins, hblank, hread, hbytes⟩ := begins_native item draws hnative
  have hall := (MailHeader.read_fields hbegins.fields hbegins.line hbegins.pairwise hblank).1
  rw [hbytes, hall, hread]

def ownItem : ExportItem asciiLower :=
  ⟨someone, "00".toList, "hi".toList, none, [], none, none, true, true, true, ["home".toList],
    some "Sent".toList, fun _ => none, fun _ _ h => (Option.some_ne_none _ h.symm).elim⟩

def zeros : Fixed 12 := ⟨List.replicate 12 0, rfl⟩

theorem native_headers_exact_own :
    (fields (renderMessage ownItem fun _ => randomBoundary zeros).flatten).map read =
      (emitted ownItem fun _ => randomBoundary zeros).map Header.asRead :=
  native_headers_exact ownItem (fun _ => zeros) rfl

end Dmcn.Web.Export
