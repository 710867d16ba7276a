import OpenDmcn.IdealRuntime
import OpenDmcn.Node.Fanout
import Mathlib.Order.Bounds.Basic

/-! The union of removal records, over everything peers may answer (`node/fanout.go`). The
candidates may be absent, repeated and in any order, and the bindings are collected in a map whose
order is not fixed. What comes out depends on which candidates count, and on nothing else. -/

namespace Dmcn

open Go

structure MapOrder where
  entries : List RemovedBinding → List RemovedBinding
  perm : ∀ l, (entries l).Perm l

structure UnionSoFar where
  merged : List RemovedBinding
  maxRevision : UInt64
  found : Bool

section Merge

variable (rt : Runtime) (dar : DomainAuthorityRecord) (owner : Option IdentityRecord)
  (domain address : String)

def UnionSoFar.add (u : UnionSoFar) (candidate : Option AddressRemovalRecord) : UnionSoFar :=
  match candidate with
  | none => u
  | some rm =>
    if countsForUnion rt dar owner domain address rm then
      { merged := rm.removedBindings.foldl mergeBinding u.merged
        maxRevision := if rm.revision > u.maxRevision then rm.revision else u.maxRevision
        found := true }
    else u

/-- `mergeRemovalCandidates` as peers reach it: a candidate may be nil, and `range` is the order of
the map. -/
def mergeCandidates (range : MapOrder) (candidates : List (Option AddressRemovalRecord))
    (now : Time) :
    Option AddressRemovalRecord :=
  let u := candidates.foldl (UnionSoFar.add rt dar owner domain address) ⟨[], 0, false⟩
  if !u.found then none
  else (AddressRemovalRecord.new domain address now).map fun union =>
    { union with
      revision := u.maxRevision
      removedBindings := (range.entries u.merged).mergeSort fun b c =>
        decide (b.ed25519Public ≤ c.ed25519Public) }

/-- A candidate that counts: it names the address and the domain, and a root key or the key of the
address's own record has signed it. -/
structure Qualifies (rm : AddressRemovalRecord) : Prop where
  named : Strings.equalFold rt.unicode rm.address address = true
  inDomain : Strings.equalFold rt.unicode rm.domain domain = true
  signed : (∃ pub ∈ dar.rootKeys, rm.verify rt pub = true) ∨
    ∃ rec, owner = some rec ∧ Strings.equalFold rt.unicode rec.address address = true ∧
      rm.verify rt rec.ed25519Public
        = true

end Merge

/-- The record that is made of the candidates: of every key that one of those that count lists, the
earliest binding. -/
structure IsUnion (counts : AddressRemovalRecord → Prop) (domain address : String)
    (candidates : List (Option AddressRemovalRecord)) (now : Time) (union : AddressRemovalRecord) :
    Prop where
  keys : ∀ key, key ∈ union.keys ↔ ∃ rm, some rm ∈ candidates ∧ counts rm ∧ key ∈ rm.keys
  earliest : ∀ b, b ∈ union.removedBindings ↔
    (∃ rm, some rm ∈ candidates ∧ counts rm ∧ b ∈ rm.removedBindings) ∧
      ∀ rm, some rm ∈ candidates → counts rm → ∀ c ∈ rm.removedBindings, c.ed25519Public =
        b.ed25519Public →
        c.removedAt.before b.removedAt = false
  ascending : union.removedBindings.Pairwise fun b c => b.ed25519Public < c.ed25519Public
  revision : IsGreatest {r | ∃ rm, some rm ∈ candidates ∧ counts rm ∧ rm.revision = r}
    union.revision
  fresh : union = { AddressRemovalRecord.mk 1 domain address [] 1 now (Fixed.zero 64) with
    removedBindings := union.removedBindings, revision := union.revision }

section Earliest

variable {seen merged : List RemovedBinding} {b : RemovedBinding}

theorem eq_of_nanos_eq {t u : Time} (h : t.nanos = u.nanos) : t = u := by
  obtain ⟨tsec, tnsec⟩ := t
  obtain ⟨usec, unsec⟩ := u
  have ht := tnsec.isLt
  have hu := unsec.isLt
  unfold Time.nanos at h
  dsimp only at h
  have hsec : tsec.toInt = usec.toInt := by omega
  have hnsec : tnsec.val = unsec.val := by omega
  rw [Int64.toInt_inj.mp hsec, Fin.ext hnsec]

def Earliest (seen : List RemovedBinding) (b : RemovedBinding) : Prop :=
  b ∈ seen ∧ ∀ c ∈ seen, c.ed25519Public = b.ed25519Public → b.removedAt.nanos ≤ c.removedAt.nanos

structure HoldsEarliest (seen merged : List RemovedBinding) : Prop where
  once : (merged.map RemovedBinding.ed25519Public).Nodup
  mem : ∀ b, b ∈ merged ↔ Earliest seen b

theorem mem_mergeBinding {x : RemovedBinding}
    (h : (merged.map RemovedBinding.ed25519Public).Nodup) :
    x ∈ mergeBinding merged b ↔
      (x ∈ merged ∧ (x.ed25519Public = b.ed25519Public → b.removedAt.before x.removedAt = false)) ∨
        x = b ∧ ∀ y ∈ merged, y.ed25519Public = b.ed25519Public → b.removedAt.before y.removedAt =
        true := by
  induction merged with
  | nil => simp [mergeBinding]
  | cons prior rest ih =>
    rw [List.map_cons, List.nodup_cons] at h
    obtain ⟨hprior, hrest⟩ := h
    unfold mergeBinding
    by_cases hkey : prior.ed25519Public = b.ed25519Public
    · have hother : ∀ y ∈ rest, y.ed25519Public ≠ b.ed25519Public := by
        intro y hy heq
        exact hprior (List.mem_map.mpr ⟨y, hy, heq.trans hkey.symm⟩)
      rw [if_pos hkey]
      by_cases hbefore : b.removedAt.before prior.removedAt = true
      · rw [if_pos hbefore, List.mem_cons]
        constructor
        · rintro (rfl | hx)
          · refine .inr ⟨rfl, fun y hy heq => ?_⟩
            rcases List.mem_cons.mp hy with rfl | hy
            · exact hbefore
            · exact absurd heq (hother y hy)
          · exact .inl ⟨List.mem_cons_of_mem _ hx, fun heq => absurd heq (hother x hx)⟩
        · rintro (⟨hx, hlate⟩ | ⟨rfl, _⟩)
          · rcases List.mem_cons.mp hx with rfl | hx
            · exact absurd hbefore (by rw [hlate hkey]; exact Bool.false_ne_true)
            · exact .inr hx
          · exact .inl rfl
      · rw [if_neg hbefore]
        constructor
        · intro hx
          refine .inl ⟨hx, fun heq => ?_⟩
          rcases List.mem_cons.mp hx with rfl | hx
          · exact Bool.eq_false_iff.mpr hbefore
          · exact absurd heq (hother x hx)
        · rintro (⟨hx, _⟩ | ⟨_, hall⟩)
          · exact hx
          · exact absurd (hall prior List.mem_cons_self hkey) hbefore
    · rw [if_neg hkey, List.mem_cons, List.mem_cons, ih hrest, List.forall_mem_cons]
      constructor
      · rintro (rfl | ⟨hx, hlate⟩ | ⟨rfl, hall⟩)
        · exact .inl ⟨.inl rfl, fun heq => absurd heq hkey⟩
        · exact .inl ⟨.inr hx, hlate⟩
        · exact .inr ⟨rfl, fun heq => absurd heq hkey, hall⟩
      · rintro (⟨rfl | hx, hlate⟩ | ⟨rfl, _, hall⟩)
        · exact .inl rfl
        · exact .inr (.inl ⟨hx, hlate⟩)
        · exact .inr (.inr ⟨rfl, hall⟩)

theorem nodup_mergeBinding (h : (merged.map RemovedBinding.ed25519Public).Nodup) :
    ((mergeBinding merged b).map RemovedBinding.ed25519Public).Nodup := by
  induction merged with
  | nil => exact List.nodup_singleton _
  | cons prior rest ih =>
    rw [List.map_cons, List.nodup_cons] at h
    unfold mergeBinding
    split
    · next hkey =>
      have hhead : (if b.removedAt.before prior.removedAt then b else prior).ed25519Public =
          prior.ed25519Public := by
        split
        · exact hkey.symm
        · rfl
      rw [List.map_cons, List.nodup_cons, hhead]
      exact h
    · next hkey =>
      rw [List.map_cons, List.nodup_cons, mem_keys_mergeBinding]
      exact ⟨not_or.mpr ⟨h.1, hkey⟩, ih h.2⟩

theorem HoldsEarliest.merge (h : HoldsEarliest seen merged)
    (hkeys : ∀ c ∈ seen, c.ed25519Public ∈ merged.map RemovedBinding.ed25519Public) :
    HoldsEarliest (seen ++ [b]) (mergeBinding merged b) := by
  refine ⟨nodup_mergeBinding h.once, fun x => ?_⟩
  rw [mem_mergeBinding h.once]
  unfold Earliest
  simp only [List.mem_append, List.mem_singleton]
  constructor
  · rintro (⟨hx, hlate⟩ | ⟨rfl, hall⟩)
    · obtain ⟨hseen, hearliest⟩ := (h.mem x).mp hx
      refine ⟨.inl hseen, ?_⟩
      rintro c (hc | rfl) heq
      · exact hearliest c hc heq
      · exact Time.before_eq_false_iff.mp (hlate heq.symm)
    · refine ⟨.inr rfl, ?_⟩
      rintro c (hc | rfl) heq
      · obtain ⟨y, hy, hykey⟩ := List.mem_map.mp (hkeys c hc)
        have hxy := Time.before_iff.mp (hall y hy (hykey.trans heq))
        have hyc := ((h.mem y).mp hy).2 c hc hykey.symm
        exact le_trans (le_of_lt hxy) hyc
      · exact le_refl _
  · rintro ⟨hx, hearliest⟩
    rcases hx with hx | rfl
    · refine .inl ⟨(h.mem x).mpr ⟨hx, fun c hc => hearliest c (.inl hc)⟩, fun heq => ?_⟩
      exact Time.before_eq_false_iff.mpr (hearliest b (.inr rfl) heq.symm)
    · by_cases hsome : ∃ y ∈ merged, y.ed25519Public = x.ed25519Public ∧
        x.removedAt.before y.removedAt = false
      · obtain ⟨y, hy, hykey, hlate⟩ := hsome
        have hyx := hearliest y (.inl ((h.mem y).mp hy).1) hykey
        have htime : y.removedAt = x.removedAt :=
          eq_of_nanos_eq (le_antisymm (Time.before_eq_false_iff.mp hlate) hyx)
        have hsame : y = x := by
          obtain ⟨ykey, yat⟩ := y
          obtain ⟨xkey, xat⟩ := x
          rw [show ykey = xkey from hykey, show yat = xat from htime]
        exact .inl ⟨hsame ▸ hy, fun _ => Time.before_eq_false_iff.mpr (le_refl _)⟩
      · refine .inr ⟨rfl, fun y hy hykey => ?_⟩
        rw [← Bool.not_eq_false]
        exact fun hlate => hsome ⟨y, hy, hykey, hlate⟩

theorem holdsEarliest_foldl (bs : List RemovedBinding) : HoldsEarliest bs
    (bs.foldl mergeBinding []) := by
  induction bs using List.reverseRecOn with
  | nil => exact ⟨List.nodup_nil, fun b => by simp [Earliest]⟩
  | append_singleton bs b ih =>
    rw [List.foldl_append, List.foldl_cons, List.foldl_nil]
    apply ih.merge
    intro c hc
    exact mem_keys_foldl_mergeBinding.mpr (.inr (List.mem_map_of_mem hc))

end Earliest

section Union

variable {rt : Runtime} {dar : DomainAuthorityRecord} {owner : Option IdentityRecord}
  {domain address : String}

def counted (rt : Runtime) (dar : DomainAuthorityRecord) (owner : Option IdentityRecord)
    (domain address : String) (candidates : List (Option AddressRemovalRecord)) :
    List AddressRemovalRecord :=
  (candidates.filterMap id).filter (countsForUnion rt dar owner domain address)

theorem mem_counted {candidates : List (Option AddressRemovalRecord)} {rm : AddressRemovalRecord} :
    rm ∈ counted rt dar owner domain address candidates ↔
      some rm ∈ candidates ∧ countsForUnion rt dar owner domain address rm = true := by
  simp [counted]

theorem countsForUnion_iff {rm : AddressRemovalRecord} :
    countsForUnion rt dar owner domain address rm = true ↔
      Qualifies rt dar owner domain address rm := by
  have howner : Strings.equalFold rt.unicode rm.address address = true →
      ((owner.elim false fun rec => removalIsOwnerSigned rt rec rm) = true ↔
        ∃ rec, owner = some rec ∧ Strings.equalFold rt.unicode rec.address address = true ∧
          rm.verify rt rec.ed25519Public = true) := by
    intro haddress
    cases owner with
    | none => simp
    | some rec =>
      have hnonempty : rm.verify rt rec.ed25519Public = true → rec.ed25519Public.isEmpty =
          false := by
        intro hverify
        rw [Bool.eq_false_iff]
        intro hempty
        rw [List.isEmpty_iff.mp hempty] at hverify
        simp [AddressRemovalRecord.verify, verifyCtx, Crypto.verify, Crypto.ed25519PublicKeySize]
          at hverify
      simp only [Option.elim_some, Option.some.injEq, exists_eq_left', removalIsOwnerSigned,
        Bool.and_eq_true, Bool.not_eq_true']
      constructor
      · rintro ⟨⟨_, hname⟩, hverify⟩
        exact ⟨Strings.equalFold_trans (Strings.equalFold_symm hname) haddress, hverify⟩
      · rintro ⟨hname, hverify⟩
        exact ⟨⟨hnonempty hverify, Strings.equalFold_trans haddress (Strings.equalFold_symm hname)⟩,
          hverify⟩
  unfold countsForUnion
  rw [Bool.and_eq_true, Bool.and_eq_true, Bool.or_eq_true, removalIsRootSigned_iff]
  constructor
  · rintro ⟨⟨haddress, hdomain⟩, hsigned⟩
    exact ⟨haddress, hdomain, hsigned.imp_right (howner haddress).mp⟩
  · rintro ⟨haddress, hdomain, hsigned⟩
    exact ⟨⟨haddress, hdomain⟩, hsigned.imp_right (howner haddress).mpr⟩

theorem foldl_add (candidates : List (Option AddressRemovalRecord)) (u : UnionSoFar) :
    candidates.foldl (UnionSoFar.add rt dar owner domain address) u =
      { merged := ((counted rt dar owner domain address candidates).flatMap
          AddressRemovalRecord.removedBindings).foldl mergeBinding u.merged
        maxRevision := (counted rt dar owner domain address candidates).foldl
          (fun m rm => if rm.revision > m then rm.revision else m) u.maxRevision
        found := u.found || !(counted rt dar owner domain address candidates).isEmpty } := by
  induction candidates generalizing u with
  | nil => simp [counted]
  | cons candidate candidates ih =>
    rw [List.foldl_cons, ih]
    cases candidate with
    | none => rfl
    | some rm =>
      by_cases hcounts : countsForUnion rt dar owner domain address rm = true
      · have hcounted : counted rt dar owner domain address (some rm :: candidates) =
            rm :: counted rt dar owner domain address candidates := by
          simp [counted, hcounts]
        rw [hcounted, UnionSoFar.add, if_pos hcounts]
        simp
      · have hcounted : counted rt dar owner domain address (some rm :: candidates) =
            counted rt dar owner domain address candidates := by
          simp [counted, hcounts]
        rw [hcounted, UnionSoFar.add, if_neg hcounts]

theorem mergeCandidates_eq (range : MapOrder) (candidates : List (Option AddressRemovalRecord))
    (now : Time) :
    mergeCandidates rt dar owner domain address range candidates now =
      if counted rt dar owner domain address candidates = [] then none
      else (AddressRemovalRecord.new domain address now).map fun union =>
        { union with
          revision := maxRevision (counted rt dar owner domain address candidates)
          removedBindings :=
  (range.entries (((counted rt dar owner domain address candidates).flatMap
            AddressRemovalRecord.removedBindings).foldl mergeBinding [])).mergeSort
              fun b c => decide (b.ed25519Public ≤ c.ed25519Public) } := by
  unfold mergeCandidates
  rw [foldl_add]
  simp only [Bool.false_or, Bool.not_not, List.isEmpty_iff]
  rfl

theorem new_eq_some_iff {now : Time} {union : AddressRemovalRecord} :
    AddressRemovalRecord.new domain address now = some union ↔
      validateDomain domain = true ∧ validateAddress address = true ∧
        AddressRemovalRecord.mk 1 domain address [] 1 now (Fixed.zero 64) = union := by
  unfold AddressRemovalRecord.new
  cases validateDomain domain with
  | false => simp
  | true =>
    cases validateAddress address with
    | false => simp
    | true => simp

theorem isGreatest_maxRevision {rms : List AddressRemovalRecord} (h : rms ≠ []) :
    IsGreatest {r | ∃ rm ∈ rms, rm.revision = r} (maxRevision rms) := by
  have hfold : ∀ (rms : List AddressRemovalRecord) (m : UInt64),
      (rms.foldl (fun m rm => if rm.revision > m then rm.revision else m) m = m ∨
          ∃ rm ∈ rms, rm.revision =
            rms.foldl (fun m rm => if rm.revision > m then rm.revision else m) m) ∧
        m ≤ rms.foldl (fun m rm => if rm.revision > m then rm.revision else m) m ∧
          ∀ rm ∈ rms, rm.revision ≤
            rms.foldl (fun m rm => if rm.revision > m then rm.revision else m) m := by
    intro rms
    induction rms with
    | nil => exact fun m => ⟨.inl rfl, UInt64.le_refl m, by simp⟩
    | cons rm rms ih =>
      intro m
      rw [List.foldl_cons]
      obtain ⟨hfrom, hle, hall⟩ := ih (if rm.revision > m then rm.revision else m)
      have hm : m ≤ (if rm.revision > m then rm.revision else m) ∧
          rm.revision ≤ (if rm.revision > m then rm.revision else m) := by
        split
        · next hlarger => exact ⟨UInt64.le_of_lt hlarger, UInt64.le_refl _⟩
        · next hsmaller => exact ⟨UInt64.le_refl _, UInt64.not_lt.mp hsmaller⟩
      refine ⟨?_, UInt64.le_trans hm.1 hle, ?_⟩
      · rcases hfrom with hfrom | ⟨rm', hmem, hrev⟩
        · rw [hfrom]
          split
          · exact .inr ⟨rm, List.mem_cons_self, rfl⟩
          · exact .inl rfl
        · exact .inr ⟨rm', List.mem_cons_of_mem _ hmem, hrev⟩
      · intro rm' hmem
        rcases List.mem_cons.mp hmem with rfl | hmem
        · exact UInt64.le_trans hm.2 hle
        · exact hall rm' hmem
  obtain ⟨hfrom, _, hall⟩ := hfold rms 0
  refine ⟨?_, ?_⟩
  · rcases hfrom with hzero | hsome
    · obtain ⟨rm, hmem⟩ := List.exists_mem_of_ne_nil rms h
      refine ⟨rm, hmem, UInt64.le_antisymm (hall rm hmem) ?_⟩
      rw [maxRevision, hzero]
      exact UInt64.zero_le
    · exact hsome
  · rintro r ⟨rm, hmem, rfl⟩
    exact hall rm hmem

theorem IsUnion.unique {counts : AddressRemovalRecord → Prop} {candidates candidates' : List (Option
    AddressRemovalRecord)}
    {now : Time} {union union' : AddressRemovalRecord}
    (h : IsUnion counts domain address candidates now union)
    (h' : IsUnion counts domain address candidates' now union')
    (hsame : ∀ rm, some rm ∈ candidates ↔ some rm ∈ candidates') : union = union' := by
  have hrevision : union.revision = union'.revision := by
    have hgreatest := h'.revision
    simp only [← hsame] at hgreatest
    exact UInt64.le_antisymm (hgreatest.2 h.revision.1) (h.revision.2 hgreatest.1)
  have hmem : ∀ b, b ∈ union.removedBindings ↔ b ∈ union'.removedBindings := by
    intro b
    rw [h.earliest, h'.earliest]
    simp only [hsame]
  have hbindings : union.removedBindings = union'.removedBindings := by
    have hirrefl : Std.Irrefl fun b c : RemovedBinding => b.ed25519Public < c.ed25519Public :=
      ⟨fun b => List.lt_irrefl b.ed25519Public⟩
    have hantisymm : Std.Antisymm fun b c : RemovedBinding => b.ed25519Public < c.ed25519Public :=
      ⟨fun b c hbc hcb => absurd hbc (List.lt_asymm hcb)⟩
    exact List.Pairwise.eq_of_mem_iff h.ascending h'.ascending hmem
  rw [h.fresh, h'.fresh, hrevision, hbindings]

theorem isUnion_of_mergeCandidates {range : MapOrder}
    {candidates : List (Option AddressRemovalRecord)} {now : Time}
    {union : AddressRemovalRecord}
    (h : mergeCandidates rt dar owner domain address range candidates now = some union) :
    IsUnion (Qualifies rt dar owner domain address) domain address candidates now union := by
  rw [mergeCandidates_eq] at h
  split at h
  · exact nomatch h
  next hsome =>
  obtain ⟨new, hnew, rfl⟩ := Option.map_eq_some_iff.mp h
  obtain ⟨_, _, rfl⟩ := new_eq_some_iff.mp hnew
  have hcounts : ∀ rm, rm ∈ counted rt dar owner domain address candidates ↔
      some rm ∈ candidates ∧ Qualifies rt dar owner domain address rm := by
    intro rm
    rw [mem_counted, countsForUnion_iff]
  generalize counted rt dar owner domain address candidates = rms at hsome hcounts ⊢
  have hheld := holdsEarliest_foldl (rms.flatMap AddressRemovalRecord.removedBindings)
  have hperm :
      ((range.entries
      ((rms.flatMap AddressRemovalRecord.removedBindings).foldl mergeBinding [])).mergeSort
      fun b c => decide (b.ed25519Public ≤ c.ed25519Public)).Perm
        ((rms.flatMap AddressRemovalRecord.removedBindings).foldl mergeBinding []) :=
    (List.mergeSort_perm _ _).trans (range.perm _)
  have hflat : ∀ b, b ∈ rms.flatMap AddressRemovalRecord.removedBindings ↔
      ∃ rm, some rm ∈ candidates ∧ Qualifies rt dar owner domain address rm ∧
        b ∈ rm.removedBindings := by
    intro b
    rw [List.mem_flatMap]
    simp only [hcounts, and_assoc]
  refine ⟨fun key => ?_, fun b => ?_, ?_, ?_, rfl⟩
  · rw [AddressRemovalRecord.keys, (hperm.map RemovedBinding.ed25519Public).mem_iff,
      mem_keys_foldl_mergeBinding]
    simp only [List.map_nil, List.not_mem_nil, false_or, List.mem_map, hflat,
      AddressRemovalRecord.keys]
    constructor
    · rintro ⟨b, ⟨rm, hmem, hcount, hb⟩, hkey⟩
      exact ⟨rm, hmem, hcount, b, hb, hkey⟩
    · rintro ⟨rm, hmem, hcount, b, hb, hkey⟩
      exact ⟨b, ⟨rm, hmem, hcount, hb⟩, hkey⟩
  · dsimp only
    rw [hperm.mem_iff, hheld.mem, Earliest, hflat]
    apply and_congr_right
    intro _
    simp only [Time.before_eq_false_iff, hflat]
    constructor
    · exact fun hall rm hmem hcount c hc => hall c ⟨rm, hmem, hcount, hc⟩
    · rintro hall c ⟨rm, hmem, hcount, hc⟩
      exact hall rm hmem hcount c hc
  · dsimp only
    have hsorted :
        ((range.entries
        ((rms.flatMap AddressRemovalRecord.removedBindings).foldl mergeBinding [])).mergeSort
        fun b c => decide (b.ed25519Public ≤ c.ed25519Public)).Pairwise
          fun b c => b.ed25519Public ≤ c.ed25519Public := by
      have htrans : ∀ a b c : RemovedBinding, decide (a.ed25519Public ≤ b.ed25519Public) = true →
          decide (b.ed25519Public ≤ c.ed25519Public) = true →
            decide (a.ed25519Public ≤ c.ed25519Public) = true :=
        fun a b c hab hbc =>
          decide_eq_true (List.le_trans (of_decide_eq_true hab) (of_decide_eq_true hbc))
      have htotal : ∀ a b : RemovedBinding,
          (decide (a.ed25519Public ≤ b.ed25519Public) ||
            decide (b.ed25519Public ≤ a.ed25519Public)) = true := by
        intro a b
        rw [Bool.or_eq_true, decide_eq_true_eq, decide_eq_true_eq]
        exact List.le_total a.ed25519Public b.ed25519Public
      have hle := List.pairwise_mergeSort htrans htotal
        (range.entries ((rms.flatMap AddressRemovalRecord.removedBindings).foldl mergeBinding []))
      simpa only [decide_eq_true_eq] using hle
    have hnodup := (hperm.map RemovedBinding.ed25519Public).nodup_iff.mpr hheld.once
    have hne := List.pairwise_map.mp hnodup
    refine (hsorted.and hne).imp fun hlt => ?_
    rw [← List.not_le]
    exact fun hge => hlt.2 (List.le_antisymm hlt.1 hge)
  · have hgreatest := isGreatest_maxRevision hsome
    simpa only [hcounts, and_assoc] using hgreatest

theorem mergeCandidates_eq_none_iff {range : MapOrder}
    {candidates : List (Option AddressRemovalRecord)} {now : Time} :
    mergeCandidates rt dar owner domain address range candidates now = none ↔
      (¬ ∃ rm, some rm ∈ candidates ∧ Qualifies rt dar owner domain address rm) ∨
        ¬ (validateDomain domain = true ∧ validateAddress address = true) := by
  have hempty : counted rt dar owner domain address candidates = [] ↔
      ¬ ∃ rm, some rm ∈ candidates ∧ Qualifies rt dar owner domain address rm := by
    rw [List.eq_nil_iff_forall_not_mem, not_exists]
    simp only [mem_counted, countsForUnion_iff]
  have hnew : AddressRemovalRecord.new domain address now = none ↔
      ¬ (validateDomain domain = true ∧ validateAddress address = true) := by
    rw [Option.eq_none_iff_forall_ne_some]
    simp only [Ne, new_eq_some_iff]
    exact ⟨fun hall hvalid => hall _ ⟨hvalid.1, hvalid.2, rfl⟩, fun hinvalid _ hsome =>
      hinvalid ⟨hsome.1, hsome.2.1⟩⟩
  rw [mergeCandidates_eq, ← hempty, ← hnew]
  split
  · next hnone => simp [hnone]
  · next hsome => simp [hsome]

/-- The union that is made of the candidates, whatever their order and that of the map: nothing if
none of them counts, or if no removal record can be made for the address. -/
theorem mergeCandidates_spec (rt : Runtime) (dar : DomainAuthorityRecord)
    (owner : Option IdentityRecord) (domain address : String)
    (candidates : List (Option AddressRemovalRecord)) (now : Time) (range : MapOrder) :
    (∀ union, mergeCandidates rt dar owner domain address range candidates now = some union →
        IsUnion (Qualifies rt dar owner domain address) domain address candidates now union) ∧
      (mergeCandidates rt dar owner domain address range candidates now = none ↔
        (¬ ∃ rm, some rm ∈ candidates ∧ Qualifies rt dar owner domain address rm) ∨
          ¬ (validateDomain domain = true ∧ validateAddress address = true)) ∧
      ∀ (range' : MapOrder) (candidates' : List (Option AddressRemovalRecord)),
        (∀ rm, some rm ∈ candidates' ↔ some rm ∈ candidates) →
          mergeCandidates rt dar owner domain address range' candidates' now =
            mergeCandidates rt dar owner domain address range candidates now := by
  refine ⟨fun union => isUnion_of_mergeCandidates, mergeCandidates_eq_none_iff,
    fun range' candidates' hsame => ?_⟩
  cases h : mergeCandidates rt dar owner domain address range candidates now with
  | none =>
    rw [mergeCandidates_eq_none_iff] at h ⊢
    simpa only [hsame] using h
  | some union =>
    cases h' : mergeCandidates rt dar owner domain address range' candidates' now with
    | none =>
      rw [mergeCandidates_eq_none_iff] at h'
      simp only [hsame] at h'
      rw [← @mergeCandidates_eq_none_iff _ _ _ _ _ range candidates now, h] at h'
      exact nomatch h'
    | some union' =>
      exact congrArg some
        ((isUnion_of_mergeCandidates h').unique (isUnion_of_mergeCandidates h) hsame)

end Union

section Unnameable

def rootOf : DomainAuthorityRecord := .fromProto (plainAuthority "a@b" 1)

def removalFor : AddressRemovalRecord := .fromProto (plainRemoval "a@b" "alice@a@b" [2] 1)

/-- A removal signed by the root, for an address that no new removal record can name: nothing is
found. -/
theorem qualified_is_not_found : ∃ range : MapOrder,
    Qualifies (idealRuntime [keyOf 1] []) rootOf none "a@b" "alice@a@b" removalFor ∧
      mergeCandidates (idealRuntime [keyOf 1] []) rootOf none "a@b" "alice@a@b" range
      [some removalFor] default = none
          := by
  refine ⟨⟨id, fun l => List.Perm.refl l⟩, ?_, ?_⟩
  · refine ⟨Strings.equalFold_refl _, Strings.equalFold_refl _,
      .inl ⟨keyOf 1, List.mem_cons_self, ?_⟩⟩
    exact AddressRemovalRecord.verify_idealRuntime.mpr
      ⟨length_keyOf 1, .inl (List.mem_singleton.mpr rfl)⟩
  · rw [mergeCandidates_eq_none_iff]
    exact .inr (by decide)

end Unnameable

end Dmcn
