import Mathlib.Data.List.Basic
import Mathlib.Data.List.Infix
import Mathlib.Data.List.Forall2
import Mathlib.Data.List.TakeWhile

/-! The functions of Go's `strings` package that compare and cut text. Case folding, lower
casing and white space come from the Unicode tables of the runtime. -/

namespace Go

structure Unicode where
  /-- One representative for each simple case folding orbit. -/
  fold : Char → Char
  lower : Char → Char
  space : Char → Bool

namespace Strings

variable (u : Unicode)

def equalFold (s t : String) : Bool := s.toList.map u.fold == t.toList.map u.fold

def toLower (s : String) : String := String.ofList (s.toList.map u.lower)

def trimSpace (s : String) : String :=
  String.ofList ((s.toList.dropWhile u.space).reverse.dropWhile u.space).reverse

def hasSuffix (s t : String) : Bool := t.toList.isSuffixOf s.toList

def hasPrefix (s t : String) : Bool := t.toList.isPrefixOf s.toList

def trimPrefix (s t : String) : String :=
  if hasPrefix s t then String.ofList (s.toList.drop t.toList.length) else s

def trimSuffix (s t : String) : String :=
  if hasSuffix s t then String.ofList (s.toList.take (s.toList.length - t.toList.length)) else s

def splitAtSign (s : String) : Option (String × String) :=
  match s.toList.span (· != '@') with
  | (_, []) => none
  | (l, _ :: r) => some (String.ofList l, String.ofList r)

def contains (s : List String) (v : String) : Bool := s.any (· == v)

def padded (n : Int64) : String :=
  let digits := Nat.toDigits 10 n.toInt.natAbs
  String.ofList (if n < 0 then '-' :: (List.replicate (19 - digits.length) '0' ++ digits)
    else List.replicate (20 - digits.length) '0' ++ digits)

theorem length_padded (n : Int64) : 20 ≤ (padded n).toList.length := by
  unfold padded
  rw [String.toList_ofList]
  split
  · simp only [List.length_cons, List.length_append, List.length_replicate]
    omega
  · simp only [List.length_append, List.length_replicate]
    omega

theorem length_padded_le (n : Int64) : (padded n).toList.length ≤ 20 := by
  have hbound : n.toInt.natAbs < 10 ^ 19 := by
    have hlow := n.le_toInt
    have hhigh := n.toInt_lt
    omega
  have hdigits :=
    (Nat.length_toDigits_le_iff (show 1 < 10 by decide) (show 0 < 19 by decide)).mpr hbound
  unfold padded
  rw [String.toList_ofList]
  split
  · simp only [List.length_cons, List.length_append, List.length_replicate]
    omega
  · simp only [List.length_append, List.length_replicate]
    omega

theorem slash_not_mem_padded (n : Int64) : '/' ∉ (padded n).toList := by
  have hdigits : '/' ∉ Nat.toDigits 10 n.toInt.natAbs := by
    intro hmem
    have hdigit := Nat.isDigit_of_mem_toDigits (by decide) (by decide) hmem
    exact absurd hdigit (by decide)
  unfold padded
  rw [String.toList_ofList]
  split
  · simp [hdigits]
  · simp [hdigits]

variable {u}

@[simp] theorem equalFold_refl (s : String) : equalFold u s s = true := by simp [equalFold]

theorem equalFold_symm {s t : String} (h : equalFold u s t = true) : equalFold u t s = true := by
  simp only [equalFold, beq_iff_eq] at h ⊢
  exact h.symm

theorem equalFold_trans {s t v : String} (hst : equalFold u s t = true)
    (htv : equalFold u t v = true) : equalFold u s v = true := by
  simp only [equalFold, beq_iff_eq] at hst htv ⊢
  exact hst.trans htv

theorem eq_empty_of_equalFold {s : String} (h : equalFold u s "" = true) : s = "" := by
  simpa [equalFold] using h

theorem contains_iff {s : List String} {v : String} : contains s v = true ↔ v ∈ s := by
  simp [contains]

theorem eq_at_of_dropWhile {s cs : List Char} {c : Char} (h : s.dropWhile (· != '@') = c :: cs) :
    c = '@' := by
  have hne : s.dropWhile (· != '@') ≠ [] := by simp [h]
  have hhead := List.head_dropWhile_not (· != '@') hne
  simp only [h, List.head_cons, bne_eq_false_iff_eq] at hhead
  exact hhead

theorem notMem_of_splitAtSign {s : String} (h : splitAtSign s = none) : '@' ∉ s.toList := by
  unfold splitAtSign at h
  simp only [List.span_eq_takeWhile_dropWhile] at h
  cases hdrop : s.toList.dropWhile (· != '@') with
  | nil =>
    rw [List.dropWhile_eq_nil_iff] at hdrop
    intro hmem
    simpa using hdrop '@' hmem
  | cons c cs =>
    rw [hdrop] at h
    cases h

theorem toList_of_splitAtSign {s l d : String} (h : splitAtSign s = some (l, d)) :
    s.toList = l.toList ++ '@' :: d.toList := by
  unfold splitAtSign at h
  simp only [List.span_eq_takeWhile_dropWhile] at h
  have hjoin : s.toList.takeWhile (· != '@') ++ s.toList.dropWhile (· != '@') = s.toList :=
    List.takeWhile_append_dropWhile
  cases hdrop : s.toList.dropWhile (· != '@') with
  | nil =>
    rw [hdrop] at h
    cases h
  | cons c cs =>
    have hc := eq_at_of_dropWhile hdrop
    rw [hdrop] at h hjoin
    cases h
    rw [hc] at hjoin
    rw [String.toList_ofList, String.toList_ofList, hjoin]

def SameLetter (u : Unicode) (c d : Char) : Prop :=
  c = d ∨ u.lower c = u.lower d ∧ (u.space c = false ∧ c ≠ '@') ∧ u.space d = false ∧ d ≠ '@'

instance (u : Unicode) (c d : Char) : Decidable (SameLetter u c d) :=
  inferInstanceAs (Decidable (_ ∨ _))

def CaseVariant (u : Unicode) (s t : String) : Prop :=
  List.Forall₂ (SameLetter u) s.toList t.toList

namespace SameLetter

variable {c d : Char}

theorem lower_eq (h : SameLetter u c d) : u.lower c = u.lower d := by
  rcases h with rfl | ⟨h, -⟩
  · rfl
  · exact h

theorem space_eq (h : SameLetter u c d) : u.space c = u.space d := by
  rcases h with rfl | ⟨-, ⟨hc, -⟩, hd, -⟩
  · rfl
  · rw [hc, hd]

theorem at_iff (h : SameLetter u c d) : c = '@' ↔ d = '@' := by
  rcases h with rfl | ⟨-, ⟨-, hc⟩, -, hd⟩
  · exact Iff.rfl
  · exact ⟨fun h => absurd h hc, fun h => absurd h hd⟩

end SameLetter

theorem CaseVariant.refl (s : String) : CaseVariant u s s :=
  List.forall₂_same.mpr fun _ _ => .inl rfl

theorem forall₂_dropWhile_space {s t : List Char} (h : List.Forall₂ (SameLetter u) s t) :
    List.Forall₂ (SameLetter u) (s.dropWhile u.space) (t.dropWhile u.space) := by
  induction h with
  | nil => exact .nil
  | @cons c d s t hcd hst ih =>
    simp only [List.dropWhile_cons, ← hcd.space_eq]
    split
    · exact ih
    · exact .cons hcd hst

theorem CaseVariant.toLower_trimSpace {s t : String} (h : CaseVariant u s t) :
    toLower u (trimSpace u s) = toLower u (trimSpace u t) := by
  have htrim : List.Forall₂ (SameLetter u)
      ((s.toList.dropWhile u.space).reverse.dropWhile u.space).reverse
      ((t.toList.dropWhile u.space).reverse.dropWhile u.space).reverse := by
    apply List.rel_reverse
    apply forall₂_dropWhile_space
    apply List.rel_reverse
    exact forall₂_dropWhile_space h
  have hmap : ∀ {x y : List Char}, List.Forall₂ (SameLetter u) x y →
      x.map u.lower = y.map u.lower := by
    intro x y hxy
    induction hxy with
    | nil => rfl
    | cons hcd _ ih => rw [List.map_cons, List.map_cons, hcd.lower_eq, ih]
  unfold toLower trimSpace
  rw [String.toList_ofList, String.toList_ofList, hmap htrim]

theorem forall₂_span_at {s t : List Char} (h : List.Forall₂ (SameLetter u) s t) :
    List.Forall₂ (SameLetter u) (s.takeWhile (· != '@')) (t.takeWhile (· != '@')) ∧
    List.Forall₂ (SameLetter u) (s.dropWhile (· != '@')) (t.dropWhile (· != '@')) := by
  induction h with
  | nil => exact ⟨.nil, .nil⟩
  | @cons c d s t hcd hst ih =>
    have hat : (c != '@') = (d != '@') := by
      rw [Bool.eq_iff_iff, bne_iff_ne, bne_iff_ne, ne_eq, ne_eq, hcd.at_iff]
    simp only [List.takeWhile_cons, List.dropWhile_cons, ← hat]
    split
    · exact ⟨.cons hcd ih.1, ih.2⟩
    · exact ⟨.nil, .cons hcd hst⟩

theorem CaseVariant.splitAtSign {s t : String} (h : CaseVariant u s t) :
    (Strings.splitAtSign s = none ∧ Strings.splitAtSign t = none) ∨
    ∃ l d l' d', Strings.splitAtSign s = some (l, d) ∧ Strings.splitAtSign t = some (l', d') ∧
      CaseVariant u l l' ∧ CaseVariant u d d' := by
  obtain ⟨htake, hdrop⟩ := forall₂_span_at h
  unfold Strings.splitAtSign
  simp only [List.span_eq_takeWhile_dropWhile]
  cases hs : s.toList.dropWhile (· != '@') with
  | nil =>
    rw [hs] at hdrop
    cases ht : t.toList.dropWhile (· != '@') with
    | nil => exact .inl ⟨rfl, rfl⟩
    | cons c cs =>
      rw [ht] at hdrop
      cases hdrop
  | cons c cs =>
    rw [hs] at hdrop
    cases ht : t.toList.dropWhile (· != '@') with
    | nil =>
      rw [ht] at hdrop
      cases hdrop
    | cons d ds =>
      rw [ht] at hdrop
      refine .inr ⟨_, _, _, _, rfl, rfl, ?_, ?_⟩
      · unfold CaseVariant
        rw [String.toList_ofList, String.toList_ofList]
        exact htake
      · unfold CaseVariant
        rw [String.toList_ofList, String.toList_ofList]
        exact (List.forall₂_cons.mp hdrop).2

end Strings

def Under {α : Type} (sep : α) (s t : List α) : Prop := t = s ∨ sep :: s <:+ t

namespace Under

variable {α : Type} {sep : α} {s t v : List α}

instance [DecidableEq α] : Decidable (Under sep s t) :=
  inferInstanceAs (Decidable (t = s ∨ sep :: s <:+ t))

theorem trans (hst : Under sep s t) (htv : Under sep t v) : Under sep s v := by
  rcases hst with rfl | hst
  · exact htv
  · rcases htv with rfl | htv
    · exact .inr hst
    · exact .inr ((hst.trans (List.suffix_cons sep t)).trans htv)

theorem comparable (hsv : Under sep s v) (htv : Under sep t v) : Under sep s t ∨ Under sep t s := by
  rcases hsv with rfl | hsv
  · exact .inr htv
  · rcases htv with rfl | htv
    · exact .inl (.inr hsv)
    · rcases List.suffix_or_suffix_of_suffix hsv htv with h | h
      · rcases List.suffix_cons_iff.mp h with heq | hsuf
        · exact .inl (.inl (List.cons.inj heq).2.symm)
        · exact .inl (.inr hsuf)
      · rcases List.suffix_cons_iff.mp h with heq | hsuf
        · exact .inl (.inl (List.cons.inj heq).2)
        · exact .inr (.inr hsuf)

end Under
end Go
