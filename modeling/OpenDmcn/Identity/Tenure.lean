import OpenDmcn.Lib.FirstMatch
import OpenDmcn.Identity.Splice

/-! Looking a key up in a chain of rotations (`RecordAcceptsSubject` and the two `RotatedFrom` of
`rotation.go`). An address may come back to a key that it has retired; the lookups stop at the first
entry that retires it. -/

namespace Dmcn

open Go Guard

section Definitions

def recordAcceptsSubject (rec : IdentityRecord) (subject : Bytes) (issuedAt : Time) : Bool :=
  if subject.isEmpty then false
  else if subject = rec.ed25519Public then true
  else
    match rec.rotationChain.find? fun e => e.retiredEd25519Public == subject with
    | some e => issuedAt.before e.rotatedAt
    | none => false

def AddressHistoryRecord.rotatedFrom (h : AddressHistoryRecord) (pub : Bytes) : Option Time :=
  if pub.isEmpty then none
  else (h.chain.find? fun e => e.retiredEd25519Public == pub).map RotationEntry.rotatedAt

def keyAt (current : Bytes) : List RotationEntry → Time → Bytes
  | [], _ => current
  | e :: rest, t => if t.before e.rotatedAt then e.retiredEd25519Public else keyAt current rest t

def HeldFrom (rec : IdentityRecord) (key : Bytes) (t : Time) : Prop :=
  ∃ s, t.nanos ≤ s.nanos ∧ keyAt rec.ed25519Public rec.rotationChain s = key

def handovers (chain : List RotationEntry) (key : Bytes) : List RotationEntry :=
  chain.filter fun e => e.retiredEd25519Public == key

def lastHandover (chain : List RotationEntry) (key : Bytes) : Option Time :=
  (handovers chain key).getLast?.map RotationEntry.rotatedAt

structure FollowsTenure (rec : IdentityRecord) (key : Bytes) : Prop where
  accepts : ∀ issuedAt, recordAcceptsSubject rec key issuedAt = true ↔ HeldFrom rec key issuedAt
  handover : rotatedFrom rec key = lastHandover rec.rotationChain key

end Definitions

section Lookups

variable {rt : Runtime} {rec : IdentityRecord} {chain : List RotationEntry} {key current : Bytes}
  {t : Time}

abbrev InTime (chain : List RotationEntry) : Prop :=
  chain.Pairwise fun a b => a.rotatedAt.nanos < b.rotatedAt.nanos

theorem inTime_of_verifyChainLinks {address : String}
    (h : verifyChainLinks rt chain address = .ok ()) : InTime chain := by
  have hchain : chain.IsChain fun a b => a.rotatedAt.nanos < b.rotatedAt.nanos := by
    refine List.IsChain.imp ?_ (isChain_of_verifyLinksAfter h)
    intro a b hlink
    simp only [RotationEntry.continues, unit_bind, require_eq_ok] at hlink
    exact Time.after_iff.mp hlink.2.2.1
  exact List.isChain_iff_pairwise.mp hchain

theorem keyAt_of_all (h : ∀ e ∈ chain, e.rotatedAt.nanos ≤ t.nanos) :
    keyAt current chain t = current := by
  induction chain with
  | nil => rfl
  | cons e rest ih =>
    have hpast : t.before e.rotatedAt = false :=
      Time.before_eq_false_iff.mpr (h e (List.mem_cons_self ..))
    rw [keyAt, hpast, if_neg Bool.false_ne_true]
    exact ih fun e' he' => h e' (List.mem_cons_of_mem _ he')

theorem exists_past (chain : List RotationEntry) (t : Time) :
    ∃ s : Time, t.nanos ≤ s.nanos ∧ ∀ e ∈ chain, e.rotatedAt.nanos ≤ s.nanos := by
  induction chain with
  | nil => exact ⟨t, le_rfl, fun e he => absurd he List.not_mem_nil⟩
  | cons e rest ih =>
    obtain ⟨s, hts, hrest⟩ := ih
    rcases le_total e.rotatedAt.nanos s.nanos with hle | hle
    · exact ⟨s, hts, List.forall_mem_cons.mpr ⟨hle, hrest⟩⟩
    · exact ⟨e.rotatedAt, hts.trans hle,
        List.forall_mem_cons.mpr ⟨le_rfl, fun e' he' => (hrest e' he').trans hle⟩⟩

theorem exists_keyAt_iff (hchain : InTime chain) (hkey : key ≠ current) :
    (∃ s, t.nanos ≤ s.nanos ∧ keyAt current chain s = key) ↔
      ∃ e ∈ chain, e.retiredEd25519Public = key ∧ t.nanos < e.rotatedAt.nanos := by
  -- induction on the chain, for every time to begin with
  induction chain generalizing t with
  | nil =>
    refine iff_of_false ?_ fun ⟨e, he, _⟩ => List.not_mem_nil he
    rintro ⟨s, -, hs⟩
    exact hkey hs.symm
  | cons e rest ih =>
    obtain ⟨hfirst, hrest⟩ := List.pairwise_cons.mp hchain
    constructor
    · rintro ⟨s, hts, hs⟩
      rw [keyAt] at hs
      split at hs
      · next hbefore =>
          exact ⟨e, List.mem_cons_self .., hs, hts.trans_lt (Time.before_iff.mp hbefore)⟩
      · obtain ⟨e', he', hretired, hlt⟩ := (ih hrest).mp ⟨s, hts, hs⟩
        exact ⟨e', List.mem_cons_of_mem _ he', hretired, hlt⟩
    · rintro ⟨e', he', hretired, hlt⟩
      rcases List.mem_cons.mp he' with rfl | he'
      · exact ⟨t, le_rfl, by rw [keyAt, if_pos (Time.before_iff.mpr hlt), hretired]⟩
      · -- the time to look at is past the first handover
        rcases le_total e.rotatedAt.nanos t.nanos with hle | hle
        · obtain ⟨s, hts, hs⟩ := (ih hrest).mpr ⟨e', he', hretired, hlt⟩
          have hpast : s.before e.rotatedAt = false := Time.before_eq_false_iff.mpr (hle.trans hts)
          exact ⟨s, hts, by rwa [keyAt, hpast, if_neg Bool.false_ne_true]⟩
        · obtain ⟨s, hes, hs⟩ :=
            (ih (t := e.rotatedAt) hrest).mpr ⟨e', he', hretired, hfirst e' he'⟩
          have hpast : s.before e.rotatedAt = false := Time.before_eq_false_iff.mpr hes
          exact ⟨s, hle.trans hes, by rwa [keyAt, hpast, if_neg Bool.false_ne_true]⟩

theorem mem_handovers {e : RotationEntry} : e ∈ handovers chain key ↔ e ∈ chain ∧
    e.retiredEd25519Public = key := by
  rw [handovers, List.mem_filter, beq_iff_eq]

theorem handovers_inTime (h : InTime chain) : InTime (handovers chain key) := h.filter _

theorem find?_eq_head? (chain : List RotationEntry) (key : Bytes) :
    chain.find? (fun e => e.retiredEd25519Public == key) = (handovers chain key).head? :=
  List.head?_filter.symm

theorem head_eq_last_iff (h : InTime chain) :
    chain.head?.map RotationEntry.rotatedAt = chain.getLast?.map RotationEntry.rotatedAt ↔
      chain.length ≤ 1 := by
  cases chain with
  | nil => exact iff_of_true rfl (Nat.zero_le _)
  | cons e rest =>
    cases rest with
    | nil => exact iff_of_true rfl le_rfl
    | cons e' rest =>
      refine iff_of_false ?_ (by simp)
      intro heq
      have hlast := List.getLast?_eq_some_getLast (l := e' :: rest) (List.cons_ne_nil _ _)
      rw [List.head?_cons, List.getLast?_cons_cons, hlast, Option.map_some, Option.map_some] at heq
      have hlt := List.rel_of_pairwise_cons h (List.getLast_mem (List.cons_ne_nil e' rest))
      rw [Option.some.inj heq] at hlt
      exact absurd hlt (lt_irrefl _)

theorem eq_of_length_le_one {a b : RotationEntry} (h : chain.length ≤ 1) (ha : a ∈ chain)
    (hb : b ∈ chain) : a = b := by
  obtain ⟨i, hi, rfl⟩ := List.mem_iff_getElem.mp ha
  obtain ⟨j, hj, rfl⟩ := List.mem_iff_getElem.mp hb
  have hij : i = j := by omega
  subst hij
  rfl

theorem rotatedFrom_eq_last_iff (hchain : InTime chain) (hkey : key ≠ []) :
    (if key.isEmpty then none else (chain.find? fun e => e.retiredEd25519Public == key).map
      RotationEntry.rotatedAt) =
      lastHandover chain key ↔ (handovers chain key).length ≤ 1 := by
  rw [if_neg (by simpa using hkey), find?_eq_head?, lastHandover]
  exact head_eq_last_iff (handovers_inTime hchain)

theorem accepts_current (hkey : key ≠ []) (hcurrent : key = rec.ed25519Public) (issuedAt : Time) :
    recordAcceptsSubject rec key issuedAt = true ∧ HeldFrom rec key issuedAt := by
  constructor
  · unfold recordAcceptsSubject
    rw [if_neg (by simpa using hkey), if_pos hcurrent]
  · obtain ⟨s, hts, hpast⟩ := exists_past rec.rotationChain issuedAt
    exact ⟨s, hts, (keyAt_of_all hpast).trans hcurrent.symm⟩

theorem accepts_retired (hkey : key ≠ []) (hcurrent : key ≠ rec.ed25519Public) (issuedAt : Time) :
    recordAcceptsSubject rec key issuedAt =
      FirstMatch.first (fun e => e.retiredEd25519Public == key)
      (fun e => issuedAt.before e.rotatedAt) rec.rotationChain := by
  unfold recordAcceptsSubject FirstMatch.first
  rw [if_neg (by simpa using hkey), if_neg hcurrent]
  split
  · next e he => rw [he, Option.any_some]
  · next he => rw [he, Option.any_none]

theorem accepts_iff_heldFrom (hchain : InTime rec.rotationChain) (hkey : key ≠ [])
    (honce : (handovers rec.rotationChain key).length ≤ 1) (issuedAt : Time) :
    recordAcceptsSubject rec key issuedAt = true ↔ HeldFrom rec key issuedAt := by
  by_cases hcurrent : key = rec.ed25519Public
  · obtain ⟨haccepts, hheld⟩ := accepts_current hkey hcurrent issuedAt
    exact iff_of_true haccepts hheld
  · have hany : FirstMatch.Any (fun e : RotationEntry => e.retiredEd25519Public == key)
        (fun e => issuedAt.before e.rotatedAt) rec.rotationChain ↔ HeldFrom rec key issuedAt := by
      refine Iff.trans ?_ (exists_keyAt_iff hchain hcurrent).symm
      simp only [FirstMatch.Any, beq_iff_eq, Time.before_iff]
    rw [accepts_retired hkey hcurrent, ← hany]
    refine FirstMatch.first_iff_any_iff.mpr fun x hx hsilent y hy hretired => ?_
    -- two entries that retire the key are one
    have hx' : x ∈ handovers rec.rotationChain key :=
      List.mem_of_mem_head? (by rw [← find?_eq_head?]; exact hx)
    have hy' : y ∈ handovers rec.rotationChain key := mem_handovers.mpr ⟨hy, beq_iff_eq.mp hretired⟩
    rwa [eq_of_length_le_one honce hx' hy'] at hsilent

/-- The lookups follow the tenure of a key exactly if the chain retires it at most once, in a record
as in a history; and the current key is accepted at every time, however often it was retired
before. -/
theorem lookups_follow_tenure_iff {history : AddressHistoryRecord}
    (hrecord : verifyRotationChain rt rec = .ok ()) (hhistory : history.verify rt = .ok ())
    (hkey : key ≠ []) :
    (FollowsTenure rec key ↔ (handovers rec.rotationChain key).length ≤ 1) ∧
    (history.rotatedFrom key = lastHandover history.chain key ↔
      (handovers history.chain key).length ≤ 1) ∧
    (key = rec.ed25519Public → ∀ issuedAt, recordAcceptsSubject rec key issuedAt = true) := by
  have hchain := inTime_of_verifyChainLinks (verifyChainLinks_of_verifyRotationChain hrecord)
  simp only [AddressHistoryRecord.verify, unit_bind] at hhistory
  refine ⟨⟨fun h => ?_, fun honce => ?_⟩, ?_, fun hcurrent issuedAt =>
    (accepts_current hkey hcurrent issuedAt).1⟩
  · exact (rotatedFrom_eq_last_iff hchain hkey).mp h.handover
  · exact ⟨accepts_iff_heldFrom hchain hkey honce, (rotatedFrom_eq_last_iff hchain hkey).mpr honce⟩
  · exact rotatedFrom_eq_last_iff (inTime_of_verifyChainLinks hhistory.2.2.2) hkey

end Lookups

/-! An address that goes from key 2 to key 3, back to key 2, and to key 4. -/
namespace Returned

open Handed

def away : RotationEntry := entry 2 3 100 2 [] 1

def back : RotationEntry := entry 3 2 200 3 (List.replicate 32 1) 3

def away' : RotationEntry := entry 2 4 300 4 (List.replicate 32 3) 5

def chain : List RotationEntry := [away, back, away']

def record : IdentityRecord :=
  .ofMessage { plainRecord "alice@example.org" 4 with x25519PublicKey := keyOf 4, revision := 4 }
    chain

def history : AddressHistoryRecord := ⟨1, "example.org", "alice@example.org", chain⟩

noncomputable def rt₁ : Runtime :=
  ledgerRuntime (chain.flatMap (RotationEntry.signings (idealRuntime [] [])))

theorem verify_entry {e : RotationEntry} (he : e ∈ chain) : e.verify rt₁ = .ok () := by
  refine RotationEntry.verify_ledgerRuntime (fun s hs => List.mem_flatMap.mpr ⟨e, he, hs⟩) ?_ ?_ ?_
  · revert e
    decide
  · simp only [chain, List.mem_cons, List.not_mem_nil, or_false] at he
    rcases he with rfl | rfl | rfl
    · simp [RotationEntry.signings, away, entry]
    · simp [RotationEntry.signings, back, entry]
    · simp [RotationEntry.signings, away', entry]
  · simp only [chain, List.mem_cons, List.not_mem_nil, or_false] at he
    rcases he with rfl | rfl | rfl <;> exact fun _ => rfl

theorem verify_links : verifyChainLinks rt₁ chain "alice@example.org" = .ok () := by
  have hback : back.continues rt₁ away = .ok () := by
    simp only [RotationEntry.continues, unit_bind, require_eq_ok, refuse_eq_ok]
    exact ⟨⟨rfl, rfl⟩, rfl, by decide, by decide⟩
  have haway : away'.continues rt₁ back = .ok () := by
    simp only [RotationEntry.continues, unit_bind, require_eq_ok, refuse_eq_ok]
    exact ⟨⟨rfl, rfl⟩, rfl, by decide, by decide⟩
  refine verifyLinksAfter_of_isChain (fun e he => ⟨verify_entry he, ?_⟩) ?_
  · simp only [chain, List.mem_cons, List.not_mem_nil, or_false] at he
    rcases he with rfl | rfl | rfl <;> rfl
  · exact .cons_cons hback (.cons_cons haway (.singleton _))

theorem verify_record : verifyRotationChain rt₁ record = .ok () := by
  have hlast : record.rotationChain.getLast? = some away' := rfl
  simp only [verifyRotationChain, hlast, unit_bind, require_eq_ok, refuse_eq_ok]
  exact ⟨by decide, verify_links, ⟨rfl, rfl⟩, rfl⟩

theorem verify_history : history.verify rt₁ = .ok () := by
  have hdomain : domainOf history.address = "example.org" := by decide
  simp only [AddressHistoryRecord.verify, unit_bind, require_eq_ok, refuse_eq_ok, hdomain]
  exact ⟨by decide, Strings.equalFold_refl _, by decide, verify_links⟩

/-- Key 2 was the address's from second 200 to second 300, and is refused there; both lookups report
the first handover. -/
theorem returned_refused : verifyRotationChain rt₁ record = .ok () ∧ history.verify rt₁ = .ok () ∧
    recordAcceptsSubject record (keyOf 2) (Time.ofUnix 250) = false ∧
      HeldFrom record (keyOf 2) (Time.ofUnix 250) ∧
    rotatedFrom record (keyOf 2) = some (Time.ofUnix 100) ∧ history.rotatedFrom (keyOf 2) =
      some (Time.ofUnix 100) ∧
    lastHandover chain (keyOf 2) = some (Time.ofUnix 300) :=
  ⟨verify_record, verify_history,
    by decide, ⟨Time.ofUnix 250, le_rfl, by decide⟩, by decide, by decide, by decide⟩

/-- Key 3 was retired once. -/
theorem follows_key3 : FollowsTenure record (keyOf 3) ∧ history.rotatedFrom
    (keyOf 3) = lastHandover history.chain (keyOf 3) ∧
    ∀ issuedAt, recordAcceptsSubject record (keyOf 4) issuedAt = true := by
  have hthree :=
    lookups_follow_tenure_iff verify_record verify_history (show keyOf 3 ≠ [] by decide)
  have hfour := lookups_follow_tenure_iff verify_record verify_history (show keyOf 4 ≠ [] by decide)
  exact ⟨hthree.1.mpr (by decide), hthree.2.1.mpr (by decide), hfour.2.2 rfl⟩

end Returned

end Dmcn
