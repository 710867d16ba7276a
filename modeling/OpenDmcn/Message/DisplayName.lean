import OpenDmcn.Lib.Utf8
import Mathlib.Data.List.Chain
import Mathlib.Data.List.DropRight

/-! The display name that goes into a signed header (`message.go`), on the bytes of the name as they
came. -/

namespace Dmcn

open Go

def maxDisplayNameLen : ℕ := 96

def isBidiControl (c : Char) : Bool :=
  c.toNat ∈ [0x061C, 0x200E, 0x200F, 0x202A, 0x202B, 0x202C, 0x202D, 0x202E, 0x2066, 0x2067, 0x2068,
    0x2069]

def isControl (c : Char) : Bool := c.toNat < 0x20 ∨ (0x7F ≤ c.toNat ∧ c.toNat < 0xA0)

namespace DisplayName

open Utf8

def isSpace (c : Char) : Bool :=
  c.toNat ∈ [0x09, 0x0A, 0x0B, 0x0C, 0x0D, 0x20, 0x85, 0xA0, 0x1680, 0x2028, 0x2029, 0x202F, 0x205F,
    0x3000] ||
    decide (0x2000 ≤ c.toNat ∧ c.toNat ≤ 0x200A)

def writeRune (st : Bytes × Bool) (r : Char) : Bytes × Bool :=
  if isSpace r then (st.1, decide (0 < st.1.length))
  else if r = runeError then st
  else if isControl r || isBidiControl r then st
  else ((if st.2 then st.1 ++ [32] else st.1) ++ String.utf8EncodeChar r, false)

def dropPartial : ℕ → Bytes → Bytes
  | 0, out => out
  | n + 1, out => if 0 < out.length ∧ valid out = false then dropPartial n out.dropLast else out

def trimRight (out : Bytes) : Bytes := out.rdropWhile (· == 32)

def sanitizeDisplayName (s : Bytes) : Bytes :=
  let out := ((runes s).foldl writeRune ([], false)).1
  if maxDisplayNameLen < out.length then
    let out := out.take maxDisplayNameLen
    trimRight (dropPartial out.length out)
  else out

def BidiFormatting (c : Char) : Prop :=
  c.toNat = 0x061C ∨ 0x200E ≤ c.toNat ∧ c.toNat ≤ 0x200F ∨ 0x202A ≤ c.toNat ∧ c.toNat ≤ 0x202E ∨
    0x2066 ≤ c.toNat ∧ c.toNat ≤ 0x2069

/-- What can be shown next to an address: one line, without anything that is not seen, and with
single blanks in it. -/
structure Safe (cs : List Char) : Prop where
  control : ∀ c ∈ cs, isControl c = false
  bidi : ∀ c ∈ cs, ¬ BidiFormatting c
  space : ∀ c ∈ cs, isSpace c = true → c = ' '
  single : cs.IsChain fun c d => c = ' ' → d ≠ ' '
  first : cs.head? ≠ some ' '
  last : cs.getLast? ≠ some ' '

section Loop

structure Printed (c : Char) : Prop where
  space : isSpace c = false
  rune : c ≠ runeError
  control : isControl c = false
  bidi : isBidiControl c = false

structure Tidy (cs : List Char) : Prop where
  chars : ∀ c ∈ cs, Printed c ∨ c = ' '
  single : cs.IsChain fun c d => c = ' ' → d ≠ ' '
  first : cs.head? ≠ some ' '

theorem isBidiControl_iff {c : Char} : isBidiControl c = true ↔ BidiFormatting c := by
  unfold isBidiControl BidiFormatting
  simp only [List.mem_cons, List.not_mem_nil, or_false, decide_eq_true_iff]
  omega

theorem Printed.ne_blank {c : Char} (h : Printed c) : c ≠ ' ' := by
  rintro rfl
  exact absurd h.space (by decide)

theorem Tidy.nil : Tidy [] where
  chars c hc := by cases hc
  single := List.IsChain.nil
  first := by simp

theorem Tidy.of_prefix {cs ds : List Char} (h : Tidy cs) (hds : ds <+: cs) : Tidy ds := by
  obtain ⟨rest, rfl⟩ := hds
  refine ⟨fun c hc => h.chars c (List.mem_append_left _ hc), h.single.left_of_append, ?_⟩
  cases ds with
  | nil => simp
  | cons d ds => exact h.first

theorem Tidy.char {cs : List Char} (h : Tidy cs) {c : Char} (hc : Printed c) :
    Tidy (cs ++ [c]) := by
  refine ⟨fun d hd => ?_, ?_, ?_⟩
  · rcases List.mem_append.mp hd with hd | hd
    · exact h.chars d hd
    · rw [List.mem_singleton.mp hd]
      exact .inl hc
  · refine List.isChain_append.mpr ⟨h.single, List.isChain_singleton c, fun d _ e he _ => ?_⟩
    rw [List.head?_cons, Option.mem_some_iff] at he
    rw [← he]
    exact hc.ne_blank
  · cases cs with
    | nil => simpa using hc.ne_blank
    | cons d cs => exact h.first

theorem Tidy.blank {cs : List Char} (h : Tidy cs) (hne : cs ≠ []) (hlast : cs.getLast? ≠ some ' ') :
    Tidy (cs ++ [' ']) := by
  refine ⟨fun d hd => ?_, ?_, ?_⟩
  · rcases List.mem_append.mp hd with hd | hd
    · exact h.chars d hd
    · exact .inr (List.mem_singleton.mp hd)
  · refine List.isChain_append.mpr ⟨h.single, List.isChain_singleton ' ', fun d hd e _ hblank => ?_⟩
    rw [hblank] at hd
    exact absurd hd hlast
  · cases cs with
    | nil => exact absurd rfl hne
    | cons d cs => exact h.first

theorem Tidy.safe {cs : List Char} (h : Tidy cs) (hlast : cs.getLast? ≠ some ' ') : Safe cs := by
  have hblank : isControl ' ' = false ∧ ¬ BidiFormatting ' ' :=
    ⟨by decide, by unfold BidiFormatting; decide⟩
  refine ⟨fun c hc => ?_, fun c hc => ?_, fun c hc hspace => ?_, h.single, h.first, hlast⟩
  · rcases h.chars c hc with hprinted | rfl
    · exact hprinted.control
    · exact hblank.1
  · rcases h.chars c hc with hprinted | rfl
    · rw [← isBidiControl_iff, hprinted.bidi]
      exact Bool.false_ne_true
    · exact hblank.2
  · rcases h.chars c hc with hprinted | rfl
    · rw [hprinted.space] at hspace
      cases hspace
    · rfl

def Written (st : Bytes × Bool) : Prop :=
  ∃ cs, st.1 = encode cs ∧ Tidy cs ∧ cs.getLast? ≠ some ' ' ∧ (st.2 = true → cs ≠ [])

theorem encode_concat (cs : List Char) (c : Char) :
    encode (cs ++ [c]) = encode cs ++ String.utf8EncodeChar c := by
  rw [encode_append, encode_cons]
  simp [encode]

theorem written_writeRune {st : Bytes × Bool} (h : Written st) (r : Char) :
    Written (writeRune st r) := by
  obtain ⟨cs, hbytes, htidy, hlast, howed⟩ := h
  unfold writeRune
  split
  · refine ⟨cs, hbytes, htidy, hlast, fun hsome => ?_⟩
    rw [decide_eq_true_iff, hbytes] at hsome
    rintro rfl
    exact Nat.lt_irrefl 0 hsome
  · next hspace =>
    split
    · exact ⟨cs, hbytes, htidy, hlast, howed⟩
    · next hrune =>
      split
      · exact ⟨cs, hbytes, htidy, hlast, howed⟩
      · next hdropped =>
        rw [Bool.or_eq_true, not_or] at hdropped
        have hprinted : Printed r :=
          ⟨Bool.eq_false_of_not_eq_true hspace, hrune, Bool.eq_false_of_not_eq_true hdropped.1,
            Bool.eq_false_of_not_eq_true hdropped.2⟩
        by_cases hst : st.2 = true
        · refine ⟨cs ++ [' '] ++ [r], ?_, (htidy.blank (howed hst) hlast).char hprinted, ?_,
            fun hfalse =>
            by cases hfalse⟩
          · rw [encode_concat, encode_concat, ← hbytes, if_pos hst]
            rfl
          · rw [List.getLast?_concat]
            simpa using hprinted.ne_blank
        · refine ⟨cs ++ [r], ?_, htidy.char hprinted, ?_, fun hfalse => by cases hfalse⟩
          · rw [encode_concat, ← hbytes, if_neg hst]
          · rw [List.getLast?_concat]
            simpa using hprinted.ne_blank

theorem written_loop {st : Bytes × Bool} (h : Written st) (rs : List Char) :
    Written (rs.foldl writeRune st) := by
  induction rs generalizing st with
  | nil => exact h
  | cons r rs ih => exact ih (written_writeRune h r)

theorem written_start : Written ([], false) :=
  ⟨[], rfl, .nil, by simp, fun hfalse => by cases hfalse⟩

end Loop

section Cut

theorem dropPartial_initial (n : ℕ) (out : Bytes) : dropPartial n out <+: out := by
  induction n generalizing out with
  | zero => exact List.prefix_rfl
  | succ n ih =>
    unfold dropPartial
    split
    · exact (ih out.dropLast).trans (List.dropLast_prefix out)
    · exact List.prefix_rfl

theorem valid_dropPartial {n : ℕ} {out : Bytes} (h : out.length ≤ n) :
    valid (dropPartial n out) = true := by
  have hnil : valid [] = true := valid_iff.mpr ⟨[], rfl⟩
  induction n generalizing out with
  | zero =>
    rw [List.eq_nil_of_length_eq_zero (Nat.le_zero.mp h)]
    exact hnil
  | succ n ih =>
    unfold dropPartial
    split
    · apply ih
      rw [List.length_dropLast]
      omega
    · next hstop =>
      rcases Nat.eq_zero_or_pos out.length with hzero | hpos
      · rw [List.eq_nil_of_length_eq_zero hzero]
        exact hnil
      · exact Bool.eq_true_of_not_eq_false fun hfalse => hstop ⟨hpos, hfalse⟩

theorem exists_dropPartial {cs : List Char} {out : Bytes} (h : out <+: encode cs) :
    ∃ ds, dropPartial out.length out = encode ds ∧ ds <+: cs := by
  obtain ⟨ds, hds⟩ := valid_iff.mp (valid_dropPartial (le_refl out.length))
  refine ⟨ds, hds, prefix_of_encode ?_⟩
  rw [← hds]
  exact (dropPartial_initial out.length out).trans h

theorem trimRight_encode (cs : List Char) : trimRight (encode cs) = encode
    (cs.rdropWhile (· == ' ')) := by
  unfold trimRight
  induction cs using List.reverseRecOn with
  | nil => rfl
  | append_singleton cs c ih =>
    rw [encode_concat]
    by_cases hc : c = ' '
    · subst hc
      rw [List.rdropWhile_concat_pos _ _ _ (by rfl), ← ih]
      exact List.rdropWhile_concat_pos _ _ _ (by rfl)
    · rw [List.rdropWhile_concat_neg _ _ _ (by simpa using hc), encode_concat]
      obtain ⟨init, last, hbytes⟩ := List.eq_nil_or_concat (String.utf8EncodeChar c) |>.resolve_left
        (encodeChar_ne_nil c)
      have hlast : last ≠ 32 := by
        rintro rfl
        have hmem : (32 : UInt8) ∈ String.utf8EncodeChar c := by
          rw [hbytes, List.concat_eq_append]
          exact List.mem_append_right _ (List.mem_singleton_self _)
        apply hc
        apply Char.toNat_inj.mp
        exact (encodeChar_of_low hmem (by decide)).2
      rw [hbytes, List.concat_eq_append, ← List.append_assoc]
      exact List.rdropWhile_concat_neg _ _ _ (by simpa using hlast)

theorem Tidy.trimmed {cs : List Char} (h : Tidy cs) :
    Tidy (cs.rdropWhile (· == ' ')) ∧ (cs.rdropWhile (· == ' ')).getLast? ≠ some ' ' := by
  refine ⟨h.of_prefix (List.rdropWhile_prefix _ _), fun hlast => ?_⟩
  have hne : cs.rdropWhile (· == ' ') ≠ [] := by
    intro hnil
    rw [hnil] at hlast
    cases hlast
  have hnot := List.rdropWhile_last_not (· == ' ') cs hne
  rw [List.getLast?_eq_some_getLast hne, Option.some.injEq] at hlast
  rw [hlast] at hnot
  exact hnot rfl

theorem rdropWhile_eq_self {cs : List Char} (h : cs.getLast? ≠ some ' ') : cs.rdropWhile
    (· == ' ') = cs := by
  apply List.rdropWhile_eq_self_iff.mpr
  intro hne hblank
  rw [List.getLast?_eq_some_getLast hne] at h
  exact h (congrArg some (by simpa using hblank))

theorem exists_sanitized (s : Bytes) :
    ∃ cs, sanitizeDisplayName s = encode cs ∧ Tidy cs ∧ cs.getLast? ≠ some ' ' ∧
      (encode cs).length ≤ maxDisplayNameLen := by
  obtain ⟨cs, hbytes, htidy, hlast, -⟩ := written_loop written_start (runes s)
  unfold sanitizeDisplayName
  dsimp only
  rw [hbytes]
  split
  · obtain ⟨ds, hds, hprefix⟩ := exists_dropPartial (List.take_prefix maxDisplayNameLen (encode cs))
    have htrimmed := (htidy.of_prefix hprefix).trimmed
    refine ⟨_, by rw [hds, trimRight_encode], htrimmed.1, htrimmed.2, ?_⟩
    rw [← trimRight_encode, ← hds]
    have htrim := (List.rdropWhile_prefix (· == (32 : UInt8))
      (dropPartial ((encode cs).take maxDisplayNameLen).length
        ((encode cs).take maxDisplayNameLen))).length_le
    have hdrop := (dropPartial_initial ((encode cs).take maxDisplayNameLen).length
      ((encode cs).take maxDisplayNameLen)).length_le
    exact htrim.trans (hdrop.trans (List.length_take_le _ _))
  · next hshort => exact ⟨cs, rfl, htidy, hlast, Nat.le_of_not_lt hshort⟩

end Cut

section Again

theorem loop_tidy {cs : List Char} (h : Tidy cs) :
    cs.foldl writeRune ([], false) =
      (encode (cs.rdropWhile (· == ' ')), decide (cs.getLast? = some ' ')) := by
  induction cs using List.reverseRecOn with
  | nil => rfl
  | append_singleton cs c ih =>
    have hbefore := h.of_prefix (List.prefix_append cs [c])
    rw [List.foldl_append, ih hbefore, List.getLast?_concat]
    change writeRune _ c = _
    rcases h.chars c (List.mem_append_right _ (List.mem_singleton_self c)) with hprinted | rfl
    · have hkept : ∀ owed : Bool, writeRune (encode (cs.rdropWhile (· == ' ')), owed) c =
          ((if owed = true then encode (cs.rdropWhile (· == ' ')) ++ [32]
            else encode (cs.rdropWhile (· == ' '))) ++ String.utf8EncodeChar c, false) := by
        intro owed
        unfold writeRune
        rw [if_neg (by rw [hprinted.space]; exact Bool.false_ne_true), if_neg hprinted.rune,
          if_neg (by rw [hprinted.control, hprinted.bidi]; exact Bool.false_ne_true)]
      have hnot : decide (some c = some ' ') = false := by simpa using hprinted.ne_blank
      rw [hkept, hnot, List.rdropWhile_concat_neg _ _ _ (by simpa using hprinted.ne_blank),
        encode_concat]
      by_cases hlast : cs.getLast? = some ' '
      · obtain ⟨ds, rfl⟩ := List.getLast?_eq_some_iff.mp hlast
        have hds : ds.getLast? ≠ some ' ' := by
          intro hblank
          exact (List.isChain_append.mp hbefore.single).2.2 ' ' hblank ' ' (by simp) rfl rfl
        rw [if_pos (decide_eq_true hlast), List.rdropWhile_concat_pos _ _ _ (by rfl),
          rdropWhile_eq_self hds, encode_concat]
        rfl
      · rw [if_neg (by simpa using hlast), rdropWhile_eq_self hlast]
    · -- a blank behind text that has none at its end
      have hlast : cs.getLast? ≠ some ' ' := by
        intro hlast
        have hsingle := (List.isChain_append.mp h.single).2.2 ' ' hlast ' ' (by simp)
        exact hsingle rfl rfl
      have hne : cs ≠ [] := by
        rintro rfl
        exact h.first rfl
      have hlength : 0 < (encode cs).length := List.length_pos_of_ne_nil fun hnil =>
        hne (encode_eq_nil.mp hnil)
      rw [List.rdropWhile_concat_pos _ _ _ (by rfl), rdropWhile_eq_self hlast]
      unfold writeRune
      rw [if_pos (by decide)]
      simp [hlength]

theorem sanitize_tidy {cs : List Char} (h : Tidy cs) (hlast : cs.getLast? ≠ some ' ')
    (hlength : (encode cs).length ≤ maxDisplayNameLen) : sanitizeDisplayName (encode cs) =
    encode cs := by
  unfold sanitizeDisplayName
  dsimp only
  rw [runes_encode, loop_tidy h, rdropWhile_eq_self hlast]
  exact if_neg (Nat.not_lt_of_le hlength)

end Again

/-- What becomes of a name is safe to show and stays as it is. -/
theorem display_name_safe_and_stable (s : Bytes) :
    (∃ t : String, sanitizeDisplayName s = utf8 t ∧ Safe t.toList) ∧
      (sanitizeDisplayName s).length ≤ 96 ∧
      sanitizeDisplayName (sanitizeDisplayName s) = sanitizeDisplayName s := by
  obtain ⟨cs, hbytes, htidy, hlast, hlength⟩ := exists_sanitized s
  refine ⟨⟨String.ofList cs, ?_, ?_⟩, ?_, ?_⟩
  · rw [utf8_ofList, hbytes]
  · rw [String.toList_ofList]
    exact htidy.safe hlast
  · rw [hbytes]
    exact hlength
  · rw [hbytes]
    exact sanitize_tidy htidy hlast hlength

end DisplayName

end Dmcn
