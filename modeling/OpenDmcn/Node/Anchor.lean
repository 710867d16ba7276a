import OpenDmcn.IdealRuntime
import OpenDmcn.Node.Resolver

/-! The DNS anchor of a domain (`core/domainverify/domainverify.go`). Its TXT strings are read in
two ways: `Verify` looks for a fingerprint among all of them, `Resolve` makes one record of them,
with the first fingerprint that is there. A node checks an authority record against either,
depending on the path. -/

namespace Dmcn.DomainVerify

open Go Guard

/-- Upper casing, and what the Unicode tables say of the digits of a fingerprint: they are no space,
they stay as they are, and no other letter becomes one of them by case alone. -/
structure Casing (u : Unicode) where
  upper : Char → Char
  space_digit : ∀ n < 16, u.space (upperHexDigit n) = false
  upper_digit : ∀ n < 16, upper (upperHexDigit n) = upperHexDigit n
  fold_digit : ∀ c n, n < 16 → u.fold (upper c) = u.fold (upperHexDigit n) →
    upper c = upperHexDigit n

structure TxtFields where
  fp : String
  fleet : String
  seeds : List String
  bridges : List String
  deriving DecidableEq, Inhabited

structure TxtRecord extends DnsRecord where
  bridges : List String
  deriving DecidableEq

inductive VerifyError where
  | noRecord | fingerprintMismatch
  deriving DecidableEq

inductive AnchorError where
  | verify (e : VerifyError) | noFingerprint | mismatch (fingerprint anchor : String)
  deriving DecidableEq

def scheme : String := "dmcn-verification=v1"

section Parse

variable {u : Unicode} (cs : Casing u)

def toUpper (s : String) : String := String.ofList (s.toList.map cs.upper)

def valueOf (u : Unicode) (part key : String) : String :=
  Strings.trimSpace u (Strings.trimPrefix part key)

def parsePart (acc : TxtFields) (part : String) : TxtFields :=
  let part := Strings.trimSpace u part
  if Strings.hasPrefix part "fp=" then { acc with fp := toUpper cs (valueOf u part "fp=") }
  else if Strings.hasPrefix part "fleet="
    then { acc with fleet := Strings.toLower u (valueOf u part "fleet=") }
  else if Strings.hasPrefix part "seed=" then
    let v := valueOf u part "seed="
    if v ≠ "" then { acc with seeds := acc.seeds ++ [v] } else acc
  else if Strings.hasPrefix part "bridge=" then
    let v := valueOf u part "bridge="
    if v ≠ "" then { acc with bridges := acc.bridges ++ [v] } else acc
  else acc

def parseRecord (rec : String) : Option TxtFields :=
  let text := Strings.trimSpace u rec
  if !Strings.hasPrefix text scheme then none
  else some (((text.toList.splitOn ';').map String.ofList).foldl (parsePart cs) default)

def parseFingerprint (rec : String) : Option String :=
  match parseRecord cs rec with
  | some fields => if fields.fp = "" then none else some fields.fp
  | none => none

def verify (records : List String) (fingerprint : String) : Except VerifyError Unit :=
  if records = [] then .error .noRecord
  else
    let want := toUpper cs (Strings.trimSpace u fingerprint)
    if records.any fun rec => parseFingerprint cs rec = some want then .ok ()
      else .error .fingerprintMismatch

def addRecord (out : Option TxtRecord) (rec : String) : Option TxtRecord :=
  match parseRecord cs rec with
  | none => out
  | some fields =>
    let out := out.getD ⟨⟨"", "", []⟩, []⟩
    some {
      fingerprint := if fields.fp ≠ "" ∧ out.fingerprint = "" then fields.fp else out.fingerprint
      fleet := if fields.fleet ≠ "" ∧ out.fleet = "" then fields.fleet else out.fleet
      seeds := out.seeds ++ fields.seeds
      bridges := out.bridges ++ fields.bridges }

def resolve (records : List String) : Except VerifyError TxtRecord :=
  need (records.foldl (addRecord cs) none) .noRecord

/-- The hook that `node.New` installs. Until the node is there it is `Verify`; a node asks its
static records first, and then DNS. -/
def darAnchor (self : Option (String → Option TxtRecord)) (records : List String)
    (domain fingerprint : String) :
    Except AnchorError Unit :=
  match self with
  | none => wrap AnchorError.verify (verify cs records fingerprint)
  | some staticDNS => do
    let found ← match staticDNS (Strings.toLower u domain) with
      | some static => .ok static
      | none => wrap AnchorError.verify (resolve cs records)
    refuse (found.fingerprint = "") .noFingerprint
    require (Strings.equalFold u found.fingerprint fingerprint)
      (.mismatch fingerprint found.fingerprint)

end Parse

section Verdicts

variable (rt : Runtime) (cs : Casing rt.unicode) (dar : DomainAuthorityRecord) (txt : List String)

def verifyResolved : Bool :=
  match resolve cs txt with
  | .ok rec => Node.verifyDAR rt dar rec.toDnsRecord
  | .error _ => false

def Variant (txt txt' : List String) : Prop :=
  ∃ junk, (∀ s ∈ junk, parseRecord cs s = none) ∧ txt'.Perm (txt ++ junk)

def SameVerdict : Prop :=
  ∃ verdict : Bool, ∀ txt', Variant rt cs txt txt' →
    (verify cs txt' (dar.fingerprint rt)).isOk = verdict ∧ verifyResolved rt cs dar txt' = verdict ∧
      ∀ self : Option (String → Option TxtRecord),
        (∀ staticDNS, self = some staticDNS → staticDNS (Strings.toLower rt.unicode dar.domain) =
          none) →
          (darAnchor cs self txt' dar.domain (dar.fingerprint rt)).isOk = verdict

end Verdicts

section Fingerprint

variable {rt : Runtime} {cs : Casing rt.unicode}

def IsHex (s : String) : Prop := ∀ c ∈ s.toList, ∃ n < 16, c = upperHexDigit n

theorem isHex_upperHex (b : Bytes) : IsHex (upperHex b) := by
  intro c hc
  unfold upperHex at hc
  rw [String.toList_ofList, List.mem_flatMap] at hc
  obtain ⟨x, _, hx⟩ := hc
  have hlt := x.toNat_lt
  rcases List.mem_cons.mp hx with rfl | hx
  · exact ⟨x.toNat / 16, by omega, rfl⟩
  · exact ⟨x.toNat % 16, by omega, List.mem_singleton.mp hx⟩

theorem isHex_fingerprint (dar : DomainAuthorityRecord) : IsHex (dar.fingerprint rt) :=
  isHex_upperHex _

theorem fingerprint_ne_empty (hsha : ∀ b, (rt.sha256 b).length = 32) (dar : DomainAuthorityRecord) :
    dar.fingerprint rt ≠ "" := by
  intro hempty
  have hlist := congrArg String.toList hempty
  unfold DomainAuthorityRecord.fingerprint fingerprintOf upperHex at hlist
  rw [String.toList_ofList] at hlist
  have hlength := congrArg List.length hlist
  have hsum : ∀ l : Bytes,
      (l.flatMap fun x => [upperHexDigit (x.toNat / 16), upperHexDigit (x.toNat % 16)]).length =
      2 * l.length := by
    intro l
    induction l with
    | nil => rfl
    | cons x l ih =>
      rw [List.flatMap_cons, List.length_append, ih, List.length_cons]
      simp only [List.length_cons, List.length_nil]
      omega
  rw [hsum, List.length_take, hsha] at hlength
  simp at hlength

theorem trimSpace_eq_self {u : Unicode} {s : String}
    (h : ∀ c ∈ s.toList.head?.toList ++ s.toList.getLast?.toList, u.space c = false) :
    Strings.trimSpace u s = s := by
  have hkept : ∀ {l : List Char}, (∀ c ∈ l.head?, u.space c = false) → l.dropWhile u.space = l := by
    intro l hl
    cases l with
    | nil => rfl
    | cons c cs => rw [List.dropWhile_cons, hl c rfl, if_neg Bool.false_ne_true]
  have hfront : s.toList.dropWhile u.space = s.toList :=
    hkept fun c hc => h c (List.mem_append_left _ (Option.mem_toList.mpr hc))
  have hback : s.toList.reverse.dropWhile u.space = s.toList.reverse := by
    apply hkept
    intro c hc
    rw [List.head?_reverse] at hc
    exact h c (List.mem_append_right _ (Option.mem_toList.mpr hc))
  unfold Strings.trimSpace
  rw [hfront, hback, List.reverse_reverse, String.ofList_toList]

theorem IsHex.space (cs : Casing rt.unicode) {s : String} (h : IsHex s) :
    ∀ c ∈ s.toList, rt.unicode.space c = false := by
  intro c hc
  obtain ⟨n, hn, rfl⟩ := h c hc
  exact cs.space_digit n hn

theorem IsHex.trimSpace (cs : Casing rt.unicode) {s : String} (h : IsHex s) :
    Strings.trimSpace rt.unicode s = s := by
  apply trimSpace_eq_self
  intro c hc
  rcases List.mem_append.mp hc with hfirst | hlast
  · exact h.space cs c (List.mem_of_mem_head? (Option.mem_toList.mp hfirst))
  · exact h.space cs c (List.mem_of_getLast? (Option.mem_toList.mp hlast))

theorem IsHex.toUpper {s : String} (h : IsHex s) : toUpper cs s = s := by
  have hmap : s.toList.map cs.upper = s.toList := by
    refine (List.map_congr_left fun c hc => ?_).trans (List.map_id s.toList)
    obtain ⟨n, hn, rfl⟩ := h c hc
    exact cs.upper_digit n hn
  unfold DomainVerify.toUpper
  rw [hmap, String.ofList_toList]

theorem IsHex.eq_of_equalFold {s t : String} (ht : IsHex t)
    (h : Strings.equalFold rt.unicode (DomainVerify.toUpper cs s) t = true) :
    DomainVerify.toUpper cs s = t := by
  have hlists : ∀ l m : List Char, (∀ c ∈ m, ∃ n < 16, c = upperHexDigit n) →
      (l.map cs.upper).map rt.unicode.fold = m.map rt.unicode.fold → l.map cs.upper = m := by
    intro l
    induction l with
    | nil =>
      intro m _ hmap
      exact (List.map_eq_nil_iff.mp hmap.symm).symm
    | cons c l ih =>
      intro m hm hmap
      cases m with
      | nil => exact absurd hmap (List.cons_ne_nil _ _)
      | cons d m =>
        simp only [List.map_cons, List.cons.injEq] at hmap
        obtain ⟨n, hn, rfl⟩ := hm d List.mem_cons_self
        rw [List.map_cons, cs.fold_digit c n hn hmap.1,
          ih m (fun e he => hm e (List.mem_cons_of_mem _ he)) hmap.2]
  unfold DomainVerify.toUpper at h ⊢
  unfold Strings.equalFold at h
  rw [String.toList_ofList, beq_iff_eq] at h
  rw [hlists s.toList t.toList ht h, String.ofList_toList]

end Fingerprint

section Published

variable {rt : Runtime} {cs : Casing rt.unicode}

def published (cs : Casing rt.unicode) (txt : List String) : List String :=
  txt.filterMap (parseFingerprint cs)

theorem parseFingerprint_eq_some {rec f : String} :
    parseFingerprint cs rec = some f ↔
      ∃ fields, parseRecord cs rec = some fields ∧ fields.fp ≠ "" ∧ fields.fp = f := by
  unfold parseFingerprint
  cases parseRecord cs rec with
  | none => simp
  | some fields => simp

theorem parseFingerprint_eq_none {rec : String} (h : parseRecord cs rec = none) :
    parseFingerprint cs rec = none := by
  unfold parseFingerprint
  rw [h]

theorem parseFingerprint_of_some {rec : String} {fields : TxtFields}
    (h : parseRecord cs rec = some fields) :
    parseFingerprint cs rec = if fields.fp = "" then none else some fields.fp := by
  unfold parseFingerprint
  rw [h]

theorem parsePart_fp (cs : Casing rt.unicode) (acc : TxtFields) (part : String) :
    (parsePart cs acc part).fp = acc.fp ∨ ∃ s, (parsePart cs acc part).fp = toUpper cs s := by
  unfold parsePart
  dsimp only
  split
  · exact .inr ⟨_, rfl⟩
  · left
    split
    · rfl
    · split
      · split <;> rfl
      · split
        · split <;> rfl
        · rfl

variable {txt : List String}

theorem upper_of_mem_published {f : String} (h : f ∈ published cs txt) :
    ∃ s, f = toUpper cs s := by
  obtain ⟨rec, _, hrec⟩ := List.mem_filterMap.mp h
  obtain ⟨fields, hfields, hne, rfl⟩ := parseFingerprint_eq_some.mp hrec
  have hparts : ∀ (parts : List String) (acc : TxtFields),
      (acc.fp = "" ∨ ∃ s, acc.fp = toUpper cs s) →
      (parts.foldl (parsePart cs) acc).fp = "" ∨ ∃ s, (parts.foldl (parsePart cs) acc).fp =
        toUpper cs s := by
    intro parts
    induction parts with
    | nil => exact fun acc hacc => hacc
    | cons part parts ih =>
      intro acc hacc
      rw [List.foldl_cons]
      apply ih
      rcases parsePart_fp cs acc part with hsame | hupper
      · rwa [hsame]
      · exact .inr hupper
  unfold parseRecord at hfields
  dsimp only at hfields
  split at hfields
  · exact nomatch hfields
  · rcases hparts _ default (.inl rfl) with hempty | hupper
    · rw [Option.some.inj hfields] at hempty
      exact absurd hempty hne
    · rwa [Option.some.inj hfields] at hupper

theorem verify_isOk (cs : Casing rt.unicode) {fingerprint : String} (hhex : IsHex fingerprint)
    (txt : List String) :
    (verify cs txt fingerprint).isOk = decide (fingerprint ∈ published cs txt) := by
  have hwant : toUpper cs (Strings.trimSpace rt.unicode fingerprint) = fingerprint := by
    rw [hhex.trimSpace cs, hhex.toUpper]
  unfold verify
  dsimp only
  rw [hwant]
  split
  · next hnil =>
    rw [hnil]
    rfl
  · next hsome =>
    have hany : (txt.any fun rec => parseFingerprint cs rec = some fingerprint) = true ↔
        fingerprint ∈ published cs txt := by
      rw [published, List.mem_filterMap, List.any_eq_true]
      simp only [decide_eq_true_eq]
    split
    · next hfound => exact (decide_eq_true (hany.mp hfound)).symm
    · next hmissing => exact (decide_eq_false fun hmem => hmissing (hany.mpr hmem)).symm

theorem published_cons_of_some {rec f : String} (h : parseFingerprint cs rec = some f) :
    published cs (rec :: txt) = f :: published cs txt := List.filterMap_cons_some h

theorem published_cons_of_none {rec : String} (h : parseFingerprint cs rec = none) :
    published cs (rec :: txt) = published cs txt := List.filterMap_cons_none h

def fingerprintOf? (out : Option TxtRecord) : String := (out.map fun r => r.fingerprint).getD ""

theorem fingerprint_foldl (cs : Casing rt.unicode) (txt : List String) (out : Option TxtRecord) :
    fingerprintOf? (txt.foldl (addRecord cs) out) =
      if fingerprintOf? out ≠ "" then fingerprintOf? out else (published cs txt).headD "" := by
  induction txt generalizing out with
  | nil =>
    rw [List.foldl_nil]
    split
    · rfl
    · next hempty => exact not_not.mp hempty
  | cons rec txt ih =>
    rw [List.foldl_cons, ih]
    cases hrec : parseRecord cs rec with
    | none =>
      have hout : addRecord cs out rec = out := by
        unfold addRecord
        rw [hrec]
      rw [published_cons_of_none (parseFingerprint_eq_none hrec), hout]
    | some fields =>
      have hout : fingerprintOf? (addRecord cs out rec) =
          if fields.fp ≠ "" ∧ fingerprintOf? out = "" then fields.fp else fingerprintOf? out := by
        unfold addRecord
        rw [hrec]
        cases out with
        | none => rfl
        | some r => rfl
      by_cases hfp : fields.fp = ""
      · have hnone : parseFingerprint cs rec = none :=
          (parseFingerprint_of_some hrec).trans (if_pos hfp)
        have hkept : fingerprintOf? (addRecord cs out rec) = fingerprintOf? out :=
          hout.trans (if_neg fun h => h.1 hfp)
        rw [hkept, published_cons_of_none hnone]
      · have hsome : parseFingerprint cs rec = some fields.fp :=
          (parseFingerprint_of_some hrec).trans (if_neg hfp)
        rw [published_cons_of_some hsome]
        by_cases hempty : fingerprintOf? out = ""
        · have hnew : fingerprintOf? (addRecord cs out rec) = fields.fp :=
            hout.trans (if_pos ⟨hfp, hempty⟩)
          rw [hnew, if_pos hfp, if_neg (not_not.mpr hempty), List.headD_cons]
        · have hkept : fingerprintOf? (addRecord cs out rec) = fingerprintOf? out :=
            hout.trans (if_neg fun h => hempty h.2)
          rw [hkept, if_pos hempty, if_pos hempty]

theorem fingerprint_resolve {rec : TxtRecord} (h : resolve cs txt = .ok rec) :
    rec.fingerprint = (published cs txt).headD "" := by
  have hfold := need_eq_ok.mp h
  have hfirst := fingerprint_foldl cs txt none
  rw [hfold] at hfirst
  exact hfirst

theorem published_of_resolve_error {e : VerifyError} (h : resolve cs txt = .error e) :
    published cs txt = [] := by
  have hnone : txt.foldl (addRecord cs) none = none := by
    unfold resolve need at h
    split at h
    · exact nomatch h
    · assumption
  have hskip : ∀ (txt : List String) (out : Option TxtRecord), txt.foldl (addRecord cs) out = none →
      out = none ∧ ∀ rec ∈ txt, parseRecord cs rec = none := by
    intro txt
    induction txt with
    | nil => exact fun out hout => ⟨hout, by simp⟩
    | cons rec txt ih =>
      intro out hout
      rw [List.foldl_cons] at hout
      obtain ⟨hadded, hrest⟩ := ih (addRecord cs out rec) hout
      unfold addRecord at hadded
      cases hrec : parseRecord cs rec with
      | none =>
        rw [hrec] at hadded
        exact ⟨hadded, List.forall_mem_cons.mpr ⟨hrec, hrest⟩⟩
      | some fields =>
        rw [hrec] at hadded
        exact nomatch hadded
  rw [published, List.filterMap_eq_nil_iff]
  exact fun rec hrec => parseFingerprint_eq_none ((hskip txt none hnone).2 rec hrec)

variable {dar : DomainAuthorityRecord}

theorem equalFold_head (cs : Casing rt.unicode) {fingerprint : String} (hhex : IsHex fingerprint)
    (hne : fingerprint ≠ "") (txt : List String) :
    Strings.equalFold rt.unicode ((published cs txt).headD "") fingerprint = true ↔
      (published cs txt).head? = some fingerprint := by
  cases hpublished : published cs txt with
  | nil =>
    simp only [List.headD_nil, List.head?_nil, reduceCtorEq, iff_false]
    intro hfold
    exact hne (Strings.eq_empty_of_equalFold (Strings.equalFold_symm hfold))
  | cons f fs =>
    rw [List.headD_cons, List.head?_cons, Option.some.injEq]
    constructor
    · intro hfold
      obtain ⟨s, rfl⟩ :=
        upper_of_mem_published (hpublished ▸ List.mem_cons_self : f ∈ published cs txt)
      exact hhex.eq_of_equalFold hfold
    · rintro rfl
      exact Strings.equalFold_refl f

theorem verifyResolved_iff (cs : Casing rt.unicode) (hsha : ∀ b, (rt.sha256 b).length = 32)
    (hverify : dar.verify rt = true) (hfleet : (dar.defersToFleet rt).2 = false)
    (txt : List String) :
    verifyResolved rt cs dar txt =
      decide ((published cs txt).head? = some (dar.fingerprint rt)) := by
  have hhead := equalFold_head cs (isHex_fingerprint dar) (fingerprint_ne_empty hsha dar) txt
  unfold verifyResolved
  cases hresolve : resolve cs txt with
  | error e =>
    rw [published_of_resolve_error hresolve]
    rfl
  | ok rec =>
    rw [← fingerprint_resolve hresolve] at hhead
    have hfold : Strings.equalFold rt.unicode (dar.fingerprint rt) rec.fingerprint = true ↔
        (published cs txt).head? = some (dar.fingerprint rt) := by
      rw [← hhead]
      exact ⟨Strings.equalFold_symm, Strings.equalFold_symm⟩
    rw [Bool.eq_iff_iff, decide_eq_true_eq, ← hfold]
    dsimp only
    unfold Node.verifyDAR
    rw [hverify, hfleet]
    simp

theorem darAnchor_iff (cs : Casing rt.unicode) (hsha : ∀ b, (rt.sha256 b).length = 32)
    {staticDNS : String → Option TxtRecord} {domain : String}
    (hstatic : staticDNS (Strings.toLower rt.unicode domain) = none) (txt : List String) :
    (darAnchor cs (some staticDNS) txt domain (dar.fingerprint rt)).isOk =
      decide ((published cs txt).head? = some (dar.fingerprint rt)) := by
  have hhead := equalFold_head cs (isHex_fingerprint dar) (fingerprint_ne_empty hsha dar) txt
  unfold darAnchor
  dsimp only
  rw [hstatic]
  dsimp only
  cases hresolve : resolve cs txt with
  | error e =>
    rw [published_of_resolve_error hresolve]
    rfl
  | ok rec =>
    rw [← fingerprint_resolve hresolve] at hhead
    rw [wrap, ok_bind]
    by_cases hempty : rec.fingerprint = ""
    · rw [refuse, if_pos hempty]
      have hno : ¬ (published cs txt).head? = some (dar.fingerprint rt) := by
        rw [← hhead, hempty]
        intro hfold
        exact fingerprint_ne_empty hsha dar
          (Strings.eq_empty_of_equalFold (Strings.equalFold_symm hfold))
      rw [decide_eq_false hno]
      rfl
    · rw [refuse, if_neg hempty, ok_bind, require]
      split
      · next hfold =>
        rw [decide_eq_true (hhead.mp hfold)]
        rfl
      · next hfold =>
        rw [decide_eq_false fun h => hfold (hhead.mpr h)]
        rfl

theorem Variant.refl (txt : List String) : Variant rt cs txt txt := ⟨[], by simp, by simp⟩

theorem Variant.published {txt txt' : List String} (h : Variant rt cs txt txt') :
    (published cs txt').Perm (published cs txt) := by
  obtain ⟨junk, hjunk, hperm⟩ := h
  have hnone : junk.filterMap (parseFingerprint cs) = [] :=
    List.filterMap_eq_nil_iff.mpr fun s hs => parseFingerprint_eq_none (hjunk s hs)
  have hfilter := hperm.filterMap (parseFingerprint cs)
  rwa [List.filterMap_append, hnone, List.append_nil] at hfilter

theorem SameVerdict.head_of_mem {txt txt' : List String} (h : SameVerdict rt cs dar txt)
    (hsha : ∀ b, (rt.sha256 b).length = 32) (hverify : dar.verify rt = true)
    (hfleet : (dar.defersToFleet rt).2 = false) (hvariant : Variant rt cs txt txt')
    (hmem : dar.fingerprint rt ∈ published cs txt) :
    (published cs txt').head? = some (dar.fingerprint rt) := by
  obtain ⟨verdict, hall⟩ := h
  have hlisted := (hall txt (Variant.refl txt)).1
  rw [verify_isOk cs (isHex_fingerprint dar), decide_eq_true hmem] at hlisted
  have hresolved := (hall txt' hvariant).2.1
  rw [verifyResolved_iff cs hsha hverify hfleet, ← hlisted] at hresolved
  exact of_decide_eq_true hresolved

/-- The checks of an authority record against the DNS agree, in every order and beside other
strings, exactly if the fingerprints that the strings publish are all its own or none is. -/
theorem sameVerdict_iff (rt : Runtime) (cs : Casing rt.unicode) (dar : DomainAuthorityRecord)
    (txt : List String) (hsha : ∀ b, (rt.sha256 b).length = 32) (hverify : dar.verify rt = true)
    (hfleet : (dar.defersToFleet rt).2 = false) :
    SameVerdict rt cs dar txt ↔
      (∀ f ∈ published cs txt, f = dar.fingerprint rt) ∨ dar.fingerprint rt ∉ published cs txt := by
  have hhex : IsHex (dar.fingerprint rt) := isHex_fingerprint dar
  have hverdict := verify_isOk cs hhex
  have hresolved := verifyResolved_iff cs hsha hverify hfleet
  constructor
  · intro hsame
    by_contra hmixed
    rw [not_or, not_not] at hmixed
    obtain ⟨hother, hown⟩ := hmixed
    rw [not_forall₂] at hother
    obtain ⟨f, hf, hne⟩ := hother
    obtain ⟨rec, hrec, hparse⟩ := List.mem_filterMap.mp hf
    -- the string with the other fingerprint is put first
    have hfirst : Variant rt cs txt (rec :: txt.erase rec) := by
      refine ⟨[], by simp, ?_⟩
      rw [List.append_nil]
      exact (List.perm_cons_erase hrec).symm
    have hhead : (published cs (rec :: txt.erase rec)).head? = some f := by
      rw [published, List.filterMap_cons, hparse]
      rfl
    have hown := hsame.head_of_mem hsha hverify hfleet hfirst hown
    rw [hhead] at hown
    exact hne (Option.some.inj hown)
  · intro hcond
    have hagree : ∀ txt', Variant rt cs txt txt' →
        (dar.fingerprint rt ∈ published cs txt' ↔ dar.fingerprint rt ∈ published cs txt) ∧
          ((published cs txt').head? = some (dar.fingerprint rt) ↔
            dar.fingerprint rt ∈ published cs txt) := by
      intro txt' hvariant
      have hperm := hvariant.published
      refine ⟨hperm.mem_iff, fun hhead => hperm.subset (List.mem_of_head? hhead), fun hmem => ?_⟩
      rcases hcond with hsame | hnone
      · cases hpublished : published cs txt' with
        | nil => exact absurd (hpublished ▸ hperm.symm.subset hmem) List.not_mem_nil
        | cons f fs =>
          have hf : f = dar.fingerprint rt :=
            hsame f (hperm.subset (hpublished ▸ List.mem_cons_self))
          rw [List.head?_cons, hf]
      · exact absurd hmem hnone
    refine ⟨decide (dar.fingerprint rt ∈ published cs txt), fun txt' hvariant => ?_⟩
    obtain ⟨hmem, hhead⟩ := hagree txt' hvariant
    refine ⟨?_, ?_, fun self hself => ?_⟩
    · rw [hverdict, decide_eq_decide]
      exact hmem
    · rw [hresolved, decide_eq_decide]
      exact hhead
    · cases self with
      | none =>
        have hok : (darAnchor cs none txt' dar.domain (dar.fingerprint rt)).isOk =
            (verify cs txt' (dar.fingerprint rt)).isOk := by
          unfold darAnchor
          dsimp only
          cases verify cs txt' (dar.fingerprint rt) with
          | error e => rfl
          | ok _ => rfl
        rw [hok, hverdict, decide_eq_decide]
        exact hmem
      | some staticDNS =>
        rw [darAnchor_iff cs hsha (hself staticDNS rfl), decide_eq_decide]
        exact hhead

end Published

section Overlap

theorem toNat_toUpper (c : Char) :
    c.toUpper.toNat = if 97 ≤ c.toNat ∧ c.toNat ≤ 122 then c.toNat - 32 else c.toNat := by
  unfold Char.toUpper
  by_cases h : 97 ≤ c.toNat ∧ c.toNat ≤ 122
  · have hval : (c.val + 4294967264).toNat = (c.toNat + 4294967264) % 2 ^ 32 := UInt32.toNat_add _ _
    rw [dif_pos (show 'a'.val ≤ c.val ∧ c.val ≤ 'z'.val from h), if_pos h]
    change (c.val + 4294967264).toNat = _
    rw [hval]
    omega
  · rw [dif_neg (show ¬ ('a'.val ≤ c.val ∧ c.val ≤ 'z'.val) from h), if_neg h]

theorem toNat_toLower (c : Char) :
    c.toLower.toNat = if 65 ≤ c.toNat ∧ c.toNat ≤ 90 then c.toNat + 32 else c.toNat := by
  unfold Char.toLower
  by_cases h : 65 ≤ c.toNat ∧ c.toNat ≤ 90
  · have hval : (c.val + 32).toNat = (c.toNat + 32) % 2 ^ 32 := UInt32.toNat_add _ _
    rw [dif_pos (show c.val ≥ 'A'.val ∧ c.val ≤ 'Z'.val from h), if_pos h]
    change (c.val + 32).toNat = _
    rw [hval]
    omega
  · rw [dif_neg (show ¬ (c.val ≥ 'A'.val ∧ c.val ≤ 'Z'.val) from h), if_neg h]

theorem toUpper_of_fold {c : Char} {n : ℕ} (hn : n < 16)
    (h : c.toUpper.toLower = (upperHexDigit n).toLower) :
    c.toUpper = upperHexDigit n := by
  have hdigit : ∀ n < 16, (48 ≤ (upperHexDigit n).toNat ∧ (upperHexDigit n).toNat ≤ 57) ∨
      65 ≤ (upperHexDigit n).toNat ∧ (upperHexDigit n).toNat ≤ 70 := by decide
  have hrange := hdigit n hn
  have hfold := congrArg Char.toNat h
  have hupper := toNat_toUpper c
  rw [toNat_toLower, toNat_toLower] at hfold
  apply Char.toNat_inj.mp
  split_ifs at hfold hupper
  all_goals omega

def asciiCasing : Casing asciiUnicode where
  upper := Char.toUpper
  space_digit := by decide
  upper_digit := by decide
  fold_digit := fun _ _ hn h => toUpper_of_fold hn h

noncomputable def overlapRuntime : Runtime := idealRuntime [keyOf 1] []

noncomputable def overlapCasing : Casing overlapRuntime.unicode := asciiCasing

def overlapDar : DomainAuthorityRecord := .fromProto (plainAuthority "example.org" 1)

def record (fingerprint : String) : String := "dmcn-verification=v1; fp=" ++ fingerprint

def oldKey : String := "0202020202020202020202020202020202020202"

def ownKey : String := "0101010101010101010101010101010101010101"

theorem fingerprint_overlapDar : overlapDar.fingerprint overlapRuntime = ownKey := by decide

theorem record_eq (f : String) : record f = scheme ++ ";" ++ (" fp=" ++ f) := by
  have hfront : "dmcn-verification=v1; fp=" = scheme ++ ";" ++ " fp=" := by decide
  exact (congrArg (fun s => s ++ f) hfront).trans String.append_assoc

theorem toList_record (f : String) :
    (record f).toList = scheme.toList ++ ';' :: (" fp=" ++ f).toList := by
  rw [record_eq, String.toList_append, String.toList_append, List.append_assoc]
  rfl

theorem trimSpace_append {key f : String}
    (hkey : key.toList.head?.any overlapRuntime.unicode.space = false) (hne : key ≠ "")
    (hhex : IsHex f) (hf : f ≠ "") :
    Strings.trimSpace overlapRuntime.unicode (key ++ f) = key ++ f := by
  apply trimSpace_eq_self
  intro c hc
  rw [String.toList_append] at hc
  rcases List.mem_append.mp hc with hfirst | hlast
  · rw [List.head?_append_of_ne_nil _ fun hnil => hne (String.toList_eq_nil_iff.mp hnil)] at hfirst
    rw [Option.mem_def.mp (Option.mem_toList.mp hfirst)] at hkey
    exact hkey
  · rw [List.getLast?_append_of_ne_nil _ fun hnil => hf (String.toList_eq_nil_iff.mp hnil)] at hlast
    exact hhex.space overlapCasing c (List.mem_of_getLast? (Option.mem_toList.mp hlast))

theorem trimSpace_space (s : String) :
    Strings.trimSpace overlapRuntime.unicode (" " ++ s) =
      Strings.trimSpace overlapRuntime.unicode s := by
  unfold Strings.trimSpace
  rw [String.toList_append]
  rfl

theorem parsePart_scheme : parsePart overlapCasing default scheme = default := by decide

theorem parsePart_fingerprint {f : String} (hhex : IsHex f) (hne : f ≠ "") :
    parsePart overlapCasing default (" fp=" ++ f) = { (default : TxtFields) with fp := f } := by
  have hfront : " fp=" = " " ++ "fp=" := by decide
  have htrimmed : Strings.trimSpace overlapRuntime.unicode (" fp=" ++ f) = "fp=" ++ f := by
    have hspaced : " fp=" ++ f = " " ++ ("fp=" ++ f) :=
      (congrArg (fun s => s ++ f) hfront).trans String.append_assoc
    rw [hspaced, trimSpace_space]
    exact trimSpace_append (by decide) (by decide) hhex hne
  have hprefix : Strings.hasPrefix ("fp=" ++ f) "fp=" = true := by
    unfold Strings.hasPrefix
    rw [String.toList_append]
    exact List.isPrefixOf_iff_prefix.mpr (List.prefix_append ..)
  have hvalue : valueOf overlapRuntime.unicode ("fp=" ++ f) "fp=" = f := by
    unfold valueOf Strings.trimPrefix
    rw [if_pos hprefix, String.toList_append, List.drop_left, String.ofList_toList,
      hhex.trimSpace overlapCasing]
  unfold parsePart
  dsimp only
  rw [htrimmed, if_pos hprefix, hvalue, hhex.toUpper]

theorem parse_record {f : String} (hhex : IsHex f) (hne : f ≠ "") :
    parseFingerprint overlapCasing (record f) = some f := by
  have htext : Strings.trimSpace overlapRuntime.unicode (record f) = record f :=
    trimSpace_append (by decide) (by decide) hhex hne
  have hscheme : Strings.hasPrefix (record f) scheme = true := by
    unfold Strings.hasPrefix
    rw [toList_record]
    exact List.isPrefixOf_iff_prefix.mpr (List.prefix_append ..)
  have hparts : (record f).toList.splitOn ';' = [scheme.toList, (" fp=" ++ f).toList] := by
    have hplain : ';' ∉ (" fp=" ++ f).toList := by
      rw [String.toList_append, List.mem_append, not_or]
      refine ⟨by decide, fun hmem => ?_⟩
      obtain ⟨n, hn, hdigit⟩ := hhex _ hmem
      have hnone : ∀ n < 16, ';' ≠ upperHexDigit n := by decide
      exact hnone n hn hdigit
    rw [toList_record, List.splitOn_append_cons_self_of_not_mem (by decide),
      List.splitOn_eq_singleton hplain]
  have hrecord : parseRecord overlapCasing (record f) =
      some { (default : TxtFields) with fp := f } := by
    unfold parseRecord
    dsimp only
    rw [htext, hscheme, hparts, if_neg (by decide)]
    simp only [List.map_cons, List.map_nil, String.ofList_toList, List.foldl_cons, List.foldl_nil,
      parsePart_scheme, parsePart_fingerprint hhex hne]
  exact parseFingerprint_eq_some.mpr ⟨_, hrecord, hne, rfl⟩

theorem parse_oldKey : parseFingerprint overlapCasing (record oldKey) = some oldKey := by
  have hupper : oldKey = upperHex (List.replicate 20 2) := by decide
  exact parse_record (hupper ▸ isHex_upperHex _) (by decide)

theorem parse_ownKey : parseFingerprint overlapCasing (record ownKey) = some ownKey :=
  parse_record (fingerprint_overlapDar ▸ isHex_fingerprint overlapDar) (by decide)

theorem length_sha256 (b : Bytes) : (overlapRuntime.sha256 b).length = 32 := (Fixed.copy 32 b).2

theorem verify_overlapDar : overlapDar.verify overlapRuntime = true :=
  DomainAuthorityRecord.verify_idealRuntime List.mem_cons_self (length_keyOf 1)

theorem sameVerdict_settled : SameVerdict overlapRuntime overlapCasing overlapDar
    ["v=spf1 -all", record ownKey] := by
  apply (sameVerdict_iff overlapRuntime overlapCasing overlapDar _ length_sha256 verify_overlapDar
    (by decide)).mpr
  left
  have hjunk : parseFingerprint overlapCasing "v=spf1 -all" = none := by decide
  rw [published_cons_of_none hjunk, published_cons_of_some parse_ownKey, fingerprint_overlapDar]
  exact fun f hf => List.mem_singleton.mp hf

/-- While the root key is being replaced, the old key is published first and the new one beside
it. -/
theorem overlap_verdicts_differ :
    ¬ SameVerdict overlapRuntime overlapCasing overlapDar [record oldKey, record ownKey] := by
  intro hsame
  have hpublished : published overlapCasing [record oldKey, record ownKey] = [oldKey, ownKey] := by
    rw [published_cons_of_some parse_oldKey, published_cons_of_some parse_ownKey]
    rfl
  have hfirst := hsame.head_of_mem length_sha256 verify_overlapDar (by decide) (Variant.refl _)
  rw [hpublished, fingerprint_overlapDar] at hfirst
  have hold := hfirst (List.mem_cons_of_mem _ List.mem_cons_self)
  exact absurd (Option.some.inj hold) (by decide)

end Overlap

end Dmcn.DomainVerify
