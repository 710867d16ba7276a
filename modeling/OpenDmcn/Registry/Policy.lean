import OpenDmcn.Registry.Spec
import OpenDmcn.IdealRuntime

/-! The domain policy checks and a source that fails. `LookupDomainAuthority` tells a domain with
no authority record from one whose record cannot be had; `cachedLookupDAR` drops the difference,
and remembers having dropped it for as long as an entry lives. -/

namespace Dmcn

open Go Guard

namespace Registry

variable {rt : Runtime} {r s : Registry} {now : Time} {d : String} {rec : IdentityRecord}

def Sourced (r : Registry) : Prop :=
  ∀ d e, r.darCache d = some e → e.dar = missed (r.lookupDomainAuthority e.at_ d)

theorem sourced_new (dns : Time → String → String → Bool) (source : Option RecordSource) :
    Sourced (new dns source) := by
  intro d e h
  cases h

theorem sourced_cachedLookupDAR (h : Sourced r) (now : Time) (d : String) :
    Sourced (r.cachedLookupDAR now d).2 := by
  cases hfresh : r.freshEntry now d with
  | some e =>
    rw [cachedLookupDAR_fresh hfresh]
    exact h
  | none =>
    rw [cachedLookupDAR_stale hfresh]
    intro d' e he
    change Function.update r.darCache d _ d' = some e at he
    by_cases hd : d' = d
    · subst hd
      rw [Function.update_self] at he
      cases he
      rfl
    · rw [Function.update_of_ne hd] at he
      exact h d' e he

theorem Lookups.sourced (hlook : Lookups now r s) (h : Sourced r) : Sourced s := by
  induction hlook with
  | refl => exact h
  | tail _ hstep ih =>
    obtain ⟨d, rfl⟩ := hstep
    exact sourced_cachedLookupDAR ih now d

def Reachable (rt : Runtime) (r : Registry) : Prop :=
  ∃ dns source, Machine.Reachable (after rt) (new dns source) r

theorem Reachable.sourced (h : r.Reachable rt) : Sourced r := by
  obtain ⟨dns, source, hrun⟩ := h
  exact hrun.invariant (sourced_new dns source) fun s q hs => (lookups_after s q).sourced hs

def answeredAt (r : Registry) (now : Time) (d : String) : Time :=
  (r.freshEntry now d).elim now DarCacheEntry.at_

theorem view_eq (h : Sourced r) :
    r.view now d = missed (r.lookupDomainAuthority (r.answeredAt now d) d) := by
  unfold view answeredAt
  cases hfresh : r.freshEntry now d with
  | none => rw [cachedLookupDAR_stale hfresh, Option.elim_none]
  | some e =>
    rw [cachedLookupDAR_fresh hfresh, Option.elim_some]
    exact h d e (Option.filter_eq_some_iff.mp hfresh).1

/-- The lookup behind an operation at `now`, fresh or cached, ended in an error that says nothing
about the domain. -/
def Failed (r : Registry) (now : Time) (d : String) : Prop :=
  r.lookupDomainAuthority (r.answeredAt now d) d = .error .transient

def reaching (r : Registry) (d : String) (dar : DomainAuthorityRecord) : Registry :=
  { r with
    source := r.source.map fun src =>
      { src with dar := some fun t d' =>
          if d' = d then .ok (some dar) else r.lookupDomainAuthority t d' }
    darCache := Function.update r.darCache d none }

variable {dar : DomainAuthorityRecord}

theorem view_reaching (h : r.source.isSome = true) :
    (r.reaching d dar).view now d = some dar := by
  have hstale : (r.reaching d dar).freshEntry now d = none := by
    simp [freshEntry, reaching]
  obtain ⟨src, hsrc⟩ := Option.isSome_iff_exists.mp h
  unfold view
  rw [cachedLookupDAR_stale hstale]
  simp [missed, lookupDomainAuthority, reaching, hsrc]

theorem Failed.source_isSome (h : Failed r now d) : r.source.isSome = true := by
  cases hsrc : r.source with
  | some src => rfl
  | none => simp [Failed, lookupDomainAuthority, hsrc] at h

theorem Agrees.attests (h : Agrees now r s) {role : String} {cred : Credential} :
    Attests rt s now rec role cred ↔ Attests rt r now rec role cred := by
  unfold Attests
  rw [h.view]
  simp only [h.stands]

theorem Agrees.verifies (h : Agrees now r s) : Verifies rt s now rec ↔ Verifies rt r now rec := by
  constructor
  · rintro ⟨hverify, hlive, hrouting, haddress⟩
    exact ⟨hverify, hlive, fun rc hrc => ⟨(hrouting rc hrc).1, h.attests.mp (hrouting rc hrc).2⟩,
      fun cred hcred => h.bound.mp (haddress cred hcred)⟩
  · rintro ⟨hverify, hlive, hrouting, haddress⟩
    exact ⟨hverify, hlive, fun rc hrc => ⟨(hrouting rc hrc).1, h.attests.mpr (hrouting rc hrc).2⟩,
      fun cred hcred => h.bound.mpr (haddress cred hcred)⟩

theorem addressUsable_of_view_none (h : r.view now (domainOf rec.address) = none) :
    (r.addressUsable rt now rec).1 = .ok () := by
  unfold addressUsable
  split
  · rfl
  · next hdar =>
    have hsome := congrArg Prod.fst hdar
    cases h.symm.trans hsome

theorem verifyRouting_of_view_none (h : r.view now (domainOf rec.address) = none) :
    (r.verifyRouting rt now rec).1 = .ok () := by
  unfold verifyRouting
  split
  · rfl
  · split
    · rfl
    · next hdar =>
      have hsome := congrArg Prod.fst hdar
      cases h.symm.trans hsome

theorem requiresOnion_of_view_none (h : r.view now (domainOf rec.address) = none) :
    (r.requiresOnion now rec).1 = rec.requireOnion := by
  unfold requiresOnion
  split
  · next hflag => exact hflag.symm
  · next hflag =>
    have hview : (r.cachedLookupDAR now (domainOf rec.address)).1 = none := h
    simp only [domainPolicy, hview, Option.elim_none]
    exact (Bool.eq_false_iff.mpr hflag).symm

def UsableUnder (rt : Runtime) (r : Registry) (now : Time) (rec : IdentityRecord)
    (dar : DomainAuthorityRecord) : Prop :=
  (dar.requiresCountersign = false ∧ dar.reservesLocalPart rt (localPartOf rec.address) = false) ∨
    (rec.hasAddressCredential = true ∧ Verifies rt r now rec)

theorem addressUsable_iff (h : r.view now (domainOf rec.address) = some dar) :
    (r.addressUsable rt now rec).1 = .ok () ↔ UsableUnder rt r now rec dar := by
  have hagrees := agrees_cachedLookupDAR r now (domainOf rec.address)
  unfold addressUsable UsableUnder
  split
  · next hdar =>
    have hnone := congrArg Prod.fst hdar
    cases h.symm.trans hnone
  · next dar' s hdar =>
    have hsome := congrArg Prod.fst hdar
    cases h.symm.trans hsome
    rw [hdar] at hagrees
    by_cases hpolicy : dar.requiresCountersign = false ∧
        dar.reservesLocalPart rt (localPartOf rec.address) = false
    · simp [hpolicy]
    · have hpolicy' : ¬ (!dar.requiresCountersign &&
        !dar.reservesLocalPart rt (localPartOf rec.address)) = true := by
        simpa using hpolicy
      rw [if_neg hpolicy']
      simp only [hpolicy, false_or]
      by_cases hcred : rec.hasAddressCredential = true
      · have hverdict : ∀ t, (s.verifyManagedIdentity rt now rec).1 = .ok t ↔
            Verifies rt r now rec ∧ t = tierDomainDNS := by
          intro t
          rw [verifyManagedIdentity_eq_ok, hagrees.verifies, effectiveTier, if_pos hcred]
        simp only [hcred, Bool.not_true, Bool.false_eq_true, if_false, true_and]
        split
        · next t ht =>
          obtain ⟨hverifies, rfl⟩ := (hverdict t).mp ht
          simp [hverifies]
        · next e he =>
          simp only [reduceCtorEq, false_iff]
          intro hverifies
          rw [(hverdict _).mpr ⟨hverifies, rfl⟩] at he
          cases he
      · simp [hcred]

def RoutableUnder (rt : Runtime) (r : Registry) (now : Time) (rec : IdentityRecord) : Prop :=
  rec.relayHints = [] ∨ (rec.hasRoutingCredential = true ∧ Verifies rt r now rec)

theorem verifyRouting_iff (h : r.view now (domainOf rec.address) = some dar) :
    (r.verifyRouting rt now rec).1 = .ok () ↔ RoutableUnder rt r now rec := by
  have hagrees := agrees_cachedLookupDAR r now (domainOf rec.address)
  unfold verifyRouting RoutableUnder
  by_cases hhints : rec.relayHints = []
  · simp [hhints]
  · simp only [List.isEmpty_iff, hhints, if_false, false_or]
    split
    · next hdar =>
      have hnone := congrArg Prod.fst hdar
      cases h.symm.trans hnone
    · next dar' s hdar =>
      rw [hdar] at hagrees
      by_cases hcred : rec.hasRoutingCredential = true
      · have hverdict : ∀ t, (s.verifyManagedIdentity rt now rec).1 = .ok t ↔
            Verifies rt r now rec ∧ t = effectiveTier rec := by
          intro t
          rw [verifyManagedIdentity_eq_ok, hagrees.verifies]
        simp only [hcred, Bool.not_true, Bool.false_eq_true, if_false, true_and]
        split
        · next t ht => simp [((hverdict t).mp ht).1]
        · next e he =>
          simp only [reduceCtorEq, false_iff]
          intro hverifies
          rw [(hverdict _).mpr ⟨hverifies, rfl⟩] at he
          cases he
      · simp [hcred]

theorem requiresOnion_iff (h : r.view now (domainOf rec.address) = some dar) :
    (r.requiresOnion now rec).1 = true ↔ rec.requireOnion = true ∨ dar.requiresOnion = true := by
  unfold requiresOnion
  have hview : (r.cachedLookupDAR now (domainOf rec.address)).1 = some dar := h
  split
  · next hflag => simp [hflag]
  · next hflag => simp [domainPolicy, hview, hflag]

/-- Whatever the checks refuse with the domain's record in reach they refuse here too. -/
structure FailsClosed (rt : Runtime) (r : Registry) (now : Time) (rec : IdentityRecord)
    (dar : DomainAuthorityRecord) : Prop where
  usable : ((r.reaching (domainOf rec.address) dar).addressUsable rt now rec).1 ≠ .ok () →
    (r.addressUsable rt now rec).1 ≠ .ok ()
  routing : ((r.reaching (domainOf rec.address) dar).verifyRouting rt now rec).1 ≠ .ok () →
    (r.verifyRouting rt now rec).1 ≠ .ok ()
  onion : ((r.reaching (domainOf rec.address) dar).requiresOnion now rec).1 = true →
    (r.requiresOnion now rec).1 = true

structure Unrestricted (rt : Runtime) (r : Registry) (now : Time) (rec : IdentityRecord)
    (dar : DomainAuthorityRecord) : Prop where
  usable : UsableUnder rt (r.reaching (domainOf rec.address) dar) now rec dar
  routing : RoutableUnder rt (r.reaching (domainOf rec.address) dar) now rec
  onion : rec.requireOnion = true ∨ dar.requiresOnion = false

theorem view_of_failed (h : Sourced r) (hfail : Failed r now d) : r.view now d = none := by
  rw [view_eq h, hfail]
  rfl

theorem unrestricted_of_failsClosed (h : Sourced r) (hfail : Failed r now (domainOf rec.address))
    (hclosed : FailsClosed rt r now rec dar) :
    Unrestricted rt r now rec dar := by
  have hnone := view_of_failed h hfail
  have hdar : (r.reaching (domainOf rec.address) dar).view now (domainOf rec.address) = some dar :=
    view_reaching hfail.source_isSome
  refine ⟨?_, ?_, ?_⟩
  · rw [← addressUsable_iff hdar]
    by_contra hrefused
    exact hclosed.usable hrefused (addressUsable_of_view_none hnone)
  · rw [← verifyRouting_iff hdar]
    by_contra hrefused
    exact hclosed.routing hrefused (verifyRouting_of_view_none hnone)
  · cases hpolicy : dar.requiresOnion with
    | false => exact .inr rfl
    | true =>
      have honion := hclosed.onion ((requiresOnion_iff hdar).mpr (.inr hpolicy))
      rw [requiresOnion_of_view_none hnone] at honion
      exact .inl honion

theorem failsClosed_of_unrestricted (h : Sourced r) (hfail : Failed r now (domainOf rec.address))
    (hfree : Unrestricted rt r now rec dar) :
    FailsClosed rt r now rec dar := by
  have hnone := view_of_failed h hfail
  have hdar : (r.reaching (domainOf rec.address) dar).view now (domainOf rec.address) = some dar :=
    view_reaching hfail.source_isSome
  refine ⟨?_, ?_, ?_⟩
  · intro hrefused
    exact absurd ((addressUsable_iff hdar).mpr hfree.usable) hrefused
  · intro hrefused
    exact absurd ((verifyRouting_iff hdar).mpr hfree.routing) hrefused
  · intro honion
    rw [requiresOnion_of_view_none hnone]
    rcases hfree.onion with hflag | hpolicy
    · exact hflag
    · rcases (requiresOnion_iff hdar).mp honion with hflag | hset
      · exact hflag
      · cases hpolicy.symm.trans hset

/-- In every state the service can reach, the checks fail closed on a failed lookup exactly when
the lookup behind them did not fail, or the record meets all that the domain asks anyway. -/
theorem policy_fails_closed_iff (h : r.Reachable rt) (now : Time) (rec : IdentityRecord)
    (dar : DomainAuthorityRecord) :
    (Failed r now (domainOf rec.address) → FailsClosed rt r now rec dar) ↔
      (¬ Failed r now (domainOf rec.address) ∨ Unrestricted rt r now rec dar) := by
  by_cases hfail : Failed r now (domainOf rec.address)
  · simp only [hfail, true_imp_iff, not_true, false_or]
    exact ⟨unrestricted_of_failsClosed h.sourced hfail, failsClosed_of_unrestricted h.sourced hfail⟩
  · simp [hfail]

end Registry

namespace Outage

open Registry

def strict : DomainAuthorityRecord :=
  .fromProto { plainAuthority "example.org" 1 with policyFlags := 5 }

def held : IdentityRecord :=
  .ofMessage { plainRecord "mallory@example.org" 2 with relayHints := ["relay-a"] } []

def quiet : IdentityRecord := .ofMessage (plainRecord "mallory@example.org" 2) []

def lenient : DomainAuthorityRecord := .fromProto (plainAuthority "example.org" 1)

def source : RecordSource where
  -- out of reach at second 0, and serving the record from then on
  identity := none
  dar := some fun t _ => if t = Time.ofUnix 0 then .error .transient else .ok (some strict)
  removal := none
  blocklist := none

def initial : Registry := .new (fun _ _ _ => true) (some source)

noncomputable def runtime : Runtime := idealRuntime [] []

noncomputable def service : Registry := initial.after runtime (Time.ofUnix 0, .usable held)

def later : Time := Time.ofUnix 10

theorem service_eq : service = { initial with
    darCache := Function.update initial.darCache "example.org" (some ⟨none, Time.ofUnix 0⟩) } := by
  have hstale : initial.freshEntry (Time.ofUnix 0) "example.org" = none := rfl
  have hdomain : domainOf held.address = "example.org" := by decide
  simp only [service, after, addressUsable, hdomain, cachedLookupDAR_stale hstale]
  rfl

theorem answeredAt_later : service.answeredAt later (domainOf held.address) = Time.ofUnix 0 := by
  have hdomain : domainOf held.address = "example.org" := by decide
  have hage : later.sub (Time.ofUnix 0) < darCacheTTL := by decide
  have hfresh : service.freshEntry later "example.org" = some ⟨none, Time.ofUnix 0⟩ := by
    rw [service_eq]
    simp [freshEntry, hage]
  rw [hdomain, answeredAt, hfresh, Option.elim_some]

theorem failed_later : Failed service later (domainOf held.address) := by
  unfold Failed
  rw [answeredAt_later, service_eq]
  rfl

theorem reachable : service.Reachable runtime :=
  ⟨_, _, [(Time.ofUnix 0, .usable held)], rfl⟩

theorem not_unrestricted : ¬ UsableUnder runtime (service.reaching (domainOf held.address) strict)
    later held
      strict ∧ ¬ RoutableUnder runtime (service.reaching (domainOf held.address) strict) later
      held := by
  refine ⟨?_, ?_⟩
  · rintro (⟨hpolicy, -⟩ | ⟨hcred, -⟩)
    · exact absurd hpolicy (by decide)
    · cases hcred
  · rintro (hhints | ⟨hcred, -⟩)
    · cases hhints
    · cases hcred

end Outage

/-- A miss remembered from an outage lets through, once the source is back, a record that the
domain's policy refuses: all three checks give in. -/
theorem outage_opens_the_policy :
    Outage.service.Reachable Outage.runtime ∧
    Registry.Failed Outage.service Outage.later (domainOf Outage.held.address) ∧
    (((Outage.service.reaching (domainOf Outage.held.address) Outage.strict).addressUsable
        Outage.runtime Outage.later Outage.held).1 ≠ .ok () ∧
      (Outage.service.addressUsable Outage.runtime Outage.later Outage.held).1 = .ok ()) ∧
    (((Outage.service.reaching (domainOf Outage.held.address) Outage.strict).verifyRouting
        Outage.runtime Outage.later Outage.held).1 ≠ .ok () ∧
      (Outage.service.verifyRouting Outage.runtime Outage.later Outage.held).1 = .ok ()) ∧
    ((Outage.service.reaching (domainOf Outage.held.address) Outage.strict).requiresOnion
        Outage.later Outage.held).1 = true ∧
      (Outage.service.requiresOnion Outage.later Outage.held).1 = false := by
  have hnone := Registry.view_of_failed Outage.reachable.sourced Outage.failed_later
  have hdar : (Outage.service.reaching (domainOf Outage.held.address) Outage.strict).view
      Outage.later
      (domainOf Outage.held.address) = some Outage.strict :=
    Registry.view_reaching Outage.failed_later.source_isSome
  refine ⟨Outage.reachable, Outage.failed_later, ⟨?_, Registry.addressUsable_of_view_none hnone⟩,
    ⟨?_, Registry.verifyRouting_of_view_none hnone⟩, ?_, Registry.requiresOnion_of_view_none hnone⟩
  · rw [Ne, Registry.addressUsable_iff hdar]
    exact Outage.not_unrestricted.1
  · rw [Ne, Registry.verifyRouting_iff hdar]
    exact Outage.not_unrestricted.2
  · exact (Registry.requiresOnion_iff hdar).mpr (.inr (by decide))

theorem policy_closed_without_demands :
    Registry.Failed Outage.service Outage.later (domainOf Outage.quiet.address) ∧
    Registry.FailsClosed Outage.runtime Outage.service Outage.later Outage.quiet
      Outage.lenient := by
  have hfree : Registry.Unrestricted Outage.runtime Outage.service Outage.later Outage.quiet
      Outage.lenient :=
    ⟨.inl ⟨by decide, DomainAuthorityRecord.reservesLocalPart_nil rfl⟩, .inl rfl, .inr (by decide)⟩
  have hfail : Registry.Failed Outage.service Outage.later (domainOf Outage.quiet.address) :=
    Outage.failed_later
  exact ⟨hfail, (Registry.policy_fails_closed_iff Outage.reachable _ _ _).mpr (.inr hfree) hfail⟩

end Dmcn
