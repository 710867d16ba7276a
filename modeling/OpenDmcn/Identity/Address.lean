import OpenDmcn.Runtime

/-! Addresses of the form `local@domain`: `domainverify.DomainOf`, the shape checks of
`identity.go`, `dar.go` and `forward.go`, and the pairing addresses. -/

namespace Dmcn

open Go

def domainOf (address : String) : String :=
  match Strings.splitAtSign address with
  | some (_, d) => d
  | none => ""

def localPartOf (address : String) : String :=
  match Strings.splitAtSign address with
  | some (l, _) => l
  | none => ""

def validateAddress (address : String) : Bool :=
  match Strings.splitAtSign address with
  | some (l, d) => l != "" && d != ""
  | none => false

def validateDomain (domain : String) : Bool := domain != "" && !domain.toList.contains '@'

def ephemeralDomain : String := "pairing.local"

def isEphemeralAddress (addr : String) : Bool := Strings.hasSuffix addr ("@" ++ ephemeralDomain)

def maxForwardToLen : ℕ := 254

def validateForwardTo (rt : Runtime) (address target : String) : Bool :=
  if target == "" then true
  else if target.utf8ByteSize > maxForwardToLen then false
  else
    match rt.parseAddress target with
    | none => false
    | some (name, addr) => name == "" && addr == target && !Strings.equalFold rt.unicode target
      address

def unixOrZero (t : Time) : Int64 := if t.isZero then 0 else t.unix

def timeOrZero (u : Int64) : Time := if u == 0 then default else Time.ofUnix u

theorem unixOrZero_timeOrZero (u : Int64) :
    timeOrZero (unixOrZero (timeOrZero u)) = timeOrZero u := by
  by_cases hz : (timeOrZero u).isZero = true
  · rw [Time.isZero_iff.mp hz]
    rfl
  · have hu : ¬ (u == 0) = true := by
      intro hu
      simp only [timeOrZero, hu, if_true] at hz
      exact hz (Time.isZero_iff.mpr rfl)
    simp only [timeOrZero, hu, if_false, Bool.false_eq_true] at hz ⊢
    simp only [unixOrZero, hz, Bool.false_eq_true, if_false, Time.unix_ofUnix, hu]

theorem timeOrZero_unixOrZero {t : Time} (h : (timeOrZero (unixOrZero t)).isZero = false) :
    t.isZero = false ∧ timeOrZero (unixOrZero t) = t.wholeSecond := by
  cases ht : t.isZero with
  | true =>
    rw [unixOrZero, if_pos ht, timeOrZero, if_pos (beq_self_eq_true _), Time.isZero_default] at h
    cases h
  | false =>
    have hunix : unixOrZero t = t.unix := by rw [unixOrZero, ht]; rfl
    rw [hunix] at h ⊢
    unfold timeOrZero at h ⊢
    split at h
    · rw [Time.isZero_default] at h
      cases h
    · next hne =>
      rw [if_neg hne]
      exact ⟨rfl, Time.ofUnix_unix t⟩

theorem domainOf_caseVariant {u : Unicode} {a b : String} (h : Strings.CaseVariant u a b) :
    Strings.CaseVariant u (domainOf a) (domainOf b) := by
  unfold domainOf
  rcases h.splitAtSign with ⟨ha, hb⟩ | ⟨l, d, l', d', ha, hb, -, hd⟩
  · rw [ha, hb]
    exact .refl ""
  · rw [ha, hb]
    exact hd

theorem localPartOf_caseVariant {u : Unicode} {a b : String} (h : Strings.CaseVariant u a b) :
    Strings.CaseVariant u (localPartOf a) (localPartOf b) := by
  unfold localPartOf
  rcases h.splitAtSign with ⟨ha, hb⟩ | ⟨l, d, l', d', ha, hb, hl, -⟩
  · rw [ha, hb]
    exact .refl ""
  · rw [ha, hb]
    exact hl

theorem isEphemeralAddress_iff {a l d : String} (h : Strings.splitAtSign a = some (l, d)) :
    isEphemeralAddress a = true ↔ "@pairing.local".toList <:+ '@' :: d.toList := by
  have hsplit := Strings.toList_of_splitAtSign h
  have hshort : '@' ∉ "pairing.local".toList := by decide
  have htext : ("@" ++ ephemeralDomain).toList = "@pairing.local".toList := by decide
  unfold isEphemeralAddress Strings.hasSuffix
  rw [List.isSuffixOf_iff_suffix, htext, hsplit]
  constructor
  · intro hsuffix
    rcases List.suffix_or_suffix_of_suffix hsuffix (List.suffix_append l.toList ('@' :: d.toList))
      with
      hin | hover
    · exact hin
    · -- a longer suffix would have a second at sign
      rcases List.suffix_cons_iff.mp
        (show '@' :: d.toList <:+ '@' :: "pairing.local".toList from hover)
        with heq | hrest
      · rw [heq]
        exact List.suffix_rfl
      · exact absurd (hrest.subset (List.mem_cons_self ..)) hshort
  · intro hin
    exact hin.trans (List.suffix_append _ _)

theorem isEphemeralAddress_of_split_none {a : String} (h : Strings.splitAtSign a = none) :
    isEphemeralAddress a = false := by
  rw [← Bool.not_eq_true]
  intro heph
  unfold isEphemeralAddress Strings.hasSuffix at heph
  exact Strings.notMem_of_splitAtSign h ((List.isSuffixOf_iff_suffix.mp heph).subset (by decide))

theorem isEphemeralAddress_congr {u : Unicode} {a b : String} (h : Strings.CaseVariant u a b)
    (hdomain : domainOf a = domainOf b) : isEphemeralAddress a = isEphemeralAddress b := by
  rcases h.splitAtSign with ⟨ha, hb⟩ | ⟨l, d, l', d', ha, hb, -, -⟩
  · rw [isEphemeralAddress_of_split_none ha, isEphemeralAddress_of_split_none hb]
  · have hd : d = d' := by simpa [domainOf, ha, hb] using hdomain
    rw [Bool.eq_iff_iff, isEphemeralAddress_iff ha, isEphemeralAddress_iff hb, hd]

end Dmcn
