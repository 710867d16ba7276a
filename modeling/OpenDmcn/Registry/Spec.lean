import Mathlib.Logic.Relation
import OpenDmcn.Registry.Service

/-! What the operations of the verification service compute. All that an operation does to the
service is to look authority records up, and at one reading of the clock these lookups agree; so
the verdicts depend only on what the first of them gives. -/

namespace Dmcn

open Go Guard

namespace Registry

variable {rt : Runtime} {r s : Registry} {now : Time} {d : String} {rec : IdentityRecord}

def view (r : Registry) (now : Time) (d : String) : Option DomainAuthorityRecord :=
  (r.cachedLookupDAR now d).1

def Looks (now : Time) (r s : Registry) : Prop := ∃ d, (r.cachedLookupDAR now d).2 = s

abbrev Lookups (now : Time) : Registry → Registry → Prop := Relation.ReflTransGen (Looks now)

theorem lookups_cachedLookupDAR : Lookups now r (r.cachedLookupDAR now d).2 := .single ⟨d, rfl⟩

def missed (a : Answer DomainAuthorityRecord) : Option DomainAuthorityRecord :=
  match a with
  | .ok dar => dar
  | .error _ => none

theorem cachedLookupDAR_fresh {e : DarCacheEntry} (h : r.freshEntry now d = some e) :
    r.cachedLookupDAR now d = (e.dar, r) := by
  unfold cachedLookupDAR
  rw [h]

theorem cachedLookupDAR_stale (h : r.freshEntry now d = none) :
    r.cachedLookupDAR now d = (missed (r.lookupDomainAuthority now d),
      { r with darCache := Function.update r.darCache d
                (some ⟨missed (r.lookupDomainAuthority now d), now⟩) }) := by
  unfold cachedLookupDAR
  rw [h]
  rfl

theorem freshEntry_update_self (e : Option DomainAuthorityRecord) :
    ({ r with darCache := Function.update r.darCache d (some ⟨e, now⟩) } : Registry).freshEntry now
      d =
      some ⟨e, now⟩ := by
  have hage : now.sub now < darCacheTTL := by
    simp only [Time.sub, sub_self]
    decide
  simp [freshEntry, hage]

theorem freshEntry_update_of_ne (r : Registry) (now : Time) {d' : String} (e : DarCacheEntry)
    (h : d' ≠ d) :
    ({ r with darCache := Function.update r.darCache d (some e) } : Registry).freshEntry now d' =
      r.freshEntry now d' := by
  simp [freshEntry, Function.update, h]

structure Agrees (now : Time) (r s : Registry) : Prop where
  source : s.source = r.source
  dnsVerify : s.dnsVerify = r.dnsVerify
  view : ∀ d, s.view now d = r.view now d

theorem agrees_cachedLookupDAR (r : Registry) (now : Time) (d : String) :
    Agrees now r (r.cachedLookupDAR now d).2 := by
  cases hfresh : r.freshEntry now d with
  | some e =>
    rw [cachedLookupDAR_fresh hfresh]
    exact ⟨rfl, rfl, fun _ => rfl⟩
  | none =>
    rw [cachedLookupDAR_stale hfresh]
    refine ⟨rfl, rfl, ?_⟩
    intro d'
    unfold Registry.view
    by_cases hd : d' = d
    · subst hd
      rw [cachedLookupDAR_fresh (freshEntry_update_self _), cachedLookupDAR_stale hfresh]
    · have hfresh' := freshEntry_update_of_ne r now ⟨missed (r.lookupDomainAuthority now d), now⟩ hd
      cases hold : r.freshEntry now d' with
      | some e =>
        rw [hold] at hfresh'
        rw [cachedLookupDAR_fresh hfresh', cachedLookupDAR_fresh hold]
      | none =>
        rw [hold] at hfresh'
        rw [cachedLookupDAR_stale hfresh', cachedLookupDAR_stale hold]
        rfl

theorem Lookups.agrees (h : Lookups now r s) : Agrees now r s := by
  induction h with
  | refl => exact ⟨rfl, rfl, fun _ => rfl⟩
  | @tail t _ _ hstep ih =>
    obtain ⟨d, rfl⟩ := hstep
    have hlook := agrees_cachedLookupDAR t now d
    exact ⟨hlook.source.trans ih.source, hlook.dnsVerify.trans ih.dnsVerify,
      fun d' => (hlook.view d').trans (ih.view d')⟩

theorem Agrees.lookupAddressRemoval (h : Agrees now r s) (a : String) :
    s.lookupAddressRemoval now a = r.lookupAddressRemoval now a := by
  unfold Registry.lookupAddressRemoval
  rw [h.source]

theorem Agrees.checkAnchored (h : Agrees now r s) (cred : Credential)
    (dar : Option DomainAuthorityRecord) :
    s.checkAnchored rt now cred dar = r.checkAnchored rt now cred dar := by
  unfold Registry.checkAnchored Registry.lookupCredentialBlockList
  rw [h.source, h.dnsVerify]

theorem verifyCredential_fst (cred : Credential) :
    (r.verifyCredential rt now cred).1 = r.checkAnchored rt now cred (r.view now cred.domain) :=
  (agrees_cachedLookupDAR r now cred.domain).checkAnchored cred _

theorem lookups_verifyCredential (cred : Credential) :
    Lookups now r (r.verifyCredential rt now cred).2 := lookups_cachedLookupDAR

theorem lookups_checkRouting : Lookups now r (r.checkRouting rt now rec).2 := by
  unfold checkRouting
  split
  · exact .refl
  · split
    · exact .refl
    · split
      · exact .refl
      · exact lookups_cachedLookupDAR

theorem lookups_checkRemoval : Lookups now r (r.checkRemoval rt now rec).2 := by
  unfold checkRemoval
  split
  · exact .refl
  · exact lookups_cachedLookupDAR

variable {cred : Credential}

theorem lookups_checkAddress :
    Lookups now r (r.checkAddress rt now rec cred).2 := by
  have hcred : Lookups now r (r.verifyCredential rt now cred).2 := lookups_verifyCredential cred
  unfold checkAddress
  split
  · exact .refl
  · split
    · next hverdict =>
      rw [hverdict] at hcred
      exact hcred
    · next hverdict =>
      rw [hverdict] at hcred
      exact hcred.trans lookups_checkRemoval

theorem lookups_verifyManagedIdentity : Lookups now r (r.verifyManagedIdentity rt now rec).2 := by
  have hrouting : Lookups now r (r.checkRouting rt now rec).2 := lookups_checkRouting
  unfold verifyManagedIdentity
  split
  · exact .refl
  · split
    · exact .refl
    · split
      · next hverdict =>
        rw [hverdict] at hrouting
        exact hrouting
      · next s hverdict =>
        rw [hverdict] at hrouting
        split
        · exact hrouting
        · next cred _ =>
          have haddress : Lookups now s (s.checkAddress rt now rec cred).2 := lookups_checkAddress
          split
          · next hverdict' =>
            rw [hverdict'] at haddress
            exact hrouting.trans haddress
          · next hverdict' =>
            rw [hverdict'] at haddress
            exact hrouting.trans haddress

theorem lookups_after (r : Registry) (q : Time × Query) : Lookups q.1 r (r.after rt q) := by
  obtain ⟨now, q⟩ := q
  cases q with
  | credential cred => exact lookups_verifyCredential cred
  | managedIdentity rec => exact lookups_verifyManagedIdentity
  | usable rec =>
    have hlook : Lookups now r (r.cachedLookupDAR now (domainOf rec.address)).2 :=
      lookups_cachedLookupDAR
    simp only [after, addressUsable]
    split
    · next hdar =>
      rw [hdar] at hlook
      exact hlook
    · next hdar =>
      rw [hdar] at hlook
      split
      · exact hlook
      · split
        · exact hlook
        · exact hlook.trans lookups_verifyManagedIdentity
  | routing rec =>
    have hlook : Lookups now r (r.cachedLookupDAR now (domainOf rec.address)).2 :=
      lookups_cachedLookupDAR
    simp only [after, verifyRouting]
    split
    · exact .refl
    · split
      · next hdar =>
        rw [hdar] at hlook
        exact hlook
      · next hdar =>
        rw [hdar] at hlook
        split
        · exact hlook
        · exact hlook.trans lookups_verifyManagedIdentity
  | onion rec =>
    simp only [after, requiresOnion]
    split
    · exact .refl
    · exact lookups_cachedLookupDAR
  | replicates a => exact lookups_cachedLookupDAR
  | reserved a => exact lookups_cachedLookupDAR

structure Stands (rt : Runtime) (r : Registry) (now : Time) (cred : Credential)
    (dar : DomainAuthorityRecord) : Prop where
  signed : dar.verify rt = true
  anchored : r.dnsVerify now cred.domain (dar.fingerprint rt) = true
  chained : Dmcn.verifyCredential rt cred (some dar)
    (r.lookupCredentialBlockList now cred.domain) now = .ok ()

theorem checkAnchored_eq_ok {dar : Option DomainAuthorityRecord} :
    r.checkAnchored rt now cred dar = .ok () ↔ ∃ d, dar = some d ∧ Stands rt r now cred d := by
  simp only [checkAnchored, need_bind, unit_bind, require_eq_ok, wrap_eq_ok]
  constructor
  · rintro ⟨d, hd, hsigned, hanchored, hchained⟩
    exact ⟨d, hd, hsigned, hanchored, hchained⟩
  · rintro ⟨d, hd, h⟩
    exact ⟨d, hd, h.signed, h.anchored, h.chained⟩

def Attests (rt : Runtime) (r : Registry) (now : Time) (rec : IdentityRecord) (role : String)
    (cred : Credential) : Prop :=
  cred.matchesRecord (domainOf rec.address) rec role = true ∧
    ∃ dar, r.view now (domainOf rec.address) = some dar ∧ Stands rt r now cred dar

theorem attests_iff {role : String}
    (h : cred.matchesRecord (domainOf rec.address) rec role = true) :
    (r.verifyCredential rt now cred).1 = .ok () ↔ Attests rt r now rec role cred := by
  rw [verifyCredential_fst, checkAnchored_eq_ok, (Credential.matchesRecord_iff.mp h).1]
  exact ⟨fun hdar => ⟨h, hdar⟩, fun hatt => hatt.2⟩

theorem checkRouting_iff (rt : Runtime) (r : Registry) (now : Time) (rec : IdentityRecord) :
    (r.checkRouting rt now rec).1 = .ok () ↔
    ∀ rc, rec.routingCredential = some rc →
      rec.relayHints = rc.relayHints ∧ Attests rt r now rec roleRouting rc := by
  unfold checkRouting
  cases rec.routingCredential with
  | none => simp
  | some rc =>
    simp only [Option.some.injEq, forall_eq']
    split
    · next hmatch =>
      simp only [reduceCtorEq, false_iff, not_and]
      intro _ hatt
      simp [hatt.1] at hmatch
    · next hmatch =>
      have hmatch : rc.matchesRecord (domainOf rec.address) rec roleRouting = true := by
        simpa using hmatch
      split
      · next hhints => simp [hhints]
      · next hhints =>
        simp only [wrap_eq_ok, attests_iff hmatch]
        exact ⟨fun h => ⟨not_not.mp hhints, h⟩, fun h => h.2⟩

theorem checkRemoval_eq_ok {dar : DomainAuthorityRecord}
    (hdar : r.view now (domainOf rec.address) = some dar) :
    (r.checkRemoval rt now rec).1 = .ok () ↔ ∀ rm, r.lookupAddressRemoval now rec.address = .ok rm →
      bindingRemoved rt rec dar (some rm) = false := by
  unfold checkRemoval
  cases r.lookupAddressRemoval now rec.address with
  | error e => simp
  | ok rm =>
    have hview : (r.cachedLookupDAR now (domainOf rec.address)).1 = some dar := hdar
    simp [hview, bindingRemoved, removalSuppresses]

def Bound (rt : Runtime) (r : Registry) (now : Time) (rec : IdentityRecord) (cred : Credential) :
    Prop :=
  cred.matchesRecord (domainOf rec.address) rec roleAddress = true ∧
    ∃ dar, r.view now (domainOf rec.address) = some dar ∧ Stands rt r now cred dar ∧
      ∀ rm, r.lookupAddressRemoval now rec.address = .ok rm → bindingRemoved rt rec dar (some rm) =
        false

theorem checkAddress_iff (rt : Runtime) (r : Registry) (now : Time) (rec : IdentityRecord)
    (cred : Credential) :
    (r.checkAddress rt now rec cred).1 = .ok () ↔ Bound rt r now rec cred := by
  have hlook : Lookups now r (r.verifyCredential rt now cred).2 := lookups_verifyCredential cred
  unfold checkAddress Bound
  by_cases hmatch : cred.matchesRecord (domainOf rec.address) rec roleAddress = true
  · have hatt : (r.verifyCredential rt now cred).1 = .ok () ↔
        Attests rt r now rec roleAddress cred :=
      attests_iff hmatch
    simp only [hmatch, Bool.not_true, Bool.false_eq_true, if_false, true_and]
    split
    · next e s hverdict =>
      rw [hverdict] at hatt
      simp only [reduceCtorEq, false_iff, not_exists, not_and] at hatt ⊢
      intro dar hdar hstands
      exact absurd ⟨hmatch, dar, hdar, hstands⟩ hatt
    · next s hverdict =>
      rw [hverdict] at hatt hlook
      obtain ⟨-, dar, hdar, hstands⟩ := hatt.mp rfl
      have hagrees := hlook.agrees
      have hdar' : s.view now (domainOf rec.address) = some dar := (hagrees.view _).trans hdar
      rw [checkRemoval_eq_ok hdar', hagrees.lookupAddressRemoval]
      constructor
      · intro h
        exact ⟨dar, hdar, hstands, h⟩
      · rintro ⟨dar', hview, -, h⟩
        cases hdar.symm.trans hview
        exact h
  · simp [hmatch]

structure Verifies (rt : Runtime) (r : Registry) (now : Time) (rec : IdentityRecord) : Prop where
  verified : rec.verify rt = true
  live : rec.expired now = false
  routing : ∀ rc, rec.routingCredential = some rc →
    rec.relayHints = rc.relayHints ∧ Attests rt r now rec roleRouting rc
  address : ∀ cred, rec.addressCredential = some cred → Bound rt r now rec cred

def effectiveTier (rec : IdentityRecord) : VerificationTier :=
  if rec.hasAddressCredential then tierDomainDNS else rec.verificationTier

theorem Agrees.stands (h : Agrees now r s) {dar : DomainAuthorityRecord} :
    Stands rt s now cred dar ↔ Stands rt r now cred dar := by
  have hblocks : s.lookupCredentialBlockList now cred.domain =
      r.lookupCredentialBlockList now cred.domain := by
    unfold lookupCredentialBlockList
    rw [h.source]
  constructor
  · rintro ⟨hsigned, hanchored, hchained⟩
    rw [h.dnsVerify] at hanchored
    rw [hblocks] at hchained
    exact ⟨hsigned, hanchored, hchained⟩
  · rintro ⟨hsigned, hanchored, hchained⟩
    rw [← h.dnsVerify] at hanchored
    rw [← hblocks] at hchained
    exact ⟨hsigned, hanchored, hchained⟩

theorem Agrees.bound (h : Agrees now r s) :
    Bound rt s now rec cred ↔ Bound rt r now rec cred := by
  unfold Bound
  rw [h.view, h.lookupAddressRemoval]
  simp only [h.stands]

theorem verifyManagedIdentity_eq_ok {t : VerificationTier} :
    (r.verifyManagedIdentity rt now rec).1 = .ok t ↔ Verifies rt r now rec ∧
      t = effectiveTier rec := by
  have hlook : Lookups now r (r.checkRouting rt now rec).2 := lookups_checkRouting
  have hrouting := checkRouting_iff rt r now rec
  unfold verifyManagedIdentity
  by_cases hverify : rec.verify rt = true
  swap
  · simp only [hverify, Bool.not_false, if_true, reduceCtorEq, false_iff, not_and]
    intro h
    exact absurd h.verified hverify
  by_cases hlive : rec.expired now = true
  · simp only [hverify, hlive, Bool.not_true, Bool.false_eq_true, if_false, if_true, reduceCtorEq,
      false_iff, not_and]
    intro h
    rw [h.live] at hlive
    cases hlive
  have hlive : rec.expired now = false := by simpa using hlive
  simp only [hverify, hlive, Bool.not_true, Bool.false_eq_true, if_false]
  split
  · next e s hverdict =>
    rw [hverdict] at hrouting
    simp only [reduceCtorEq, false_iff, not_and] at hrouting ⊢
    intro h
    exact absurd h.routing hrouting
  · next s hverdict =>
    rw [hverdict] at hrouting hlook
    have hroute := hrouting.mp rfl
    have hagrees := hlook.agrees
    cases hcred : rec.addressCredential with
    | none =>
      have htier : effectiveTier rec = rec.verificationTier := by
        simp [effectiveTier, IdentityRecord.hasAddressCredential, hcred]
      simp only [Except.ok.injEq, htier]
      constructor
      · rintro rfl
        refine ⟨⟨hverify, hlive, hroute, ?_⟩, rfl⟩
        intro cred h
        cases hcred.symm.trans h
      · rintro ⟨-, rfl⟩
        rfl
    | some cred =>
      have htier : effectiveTier rec = tierDomainDNS := by
        simp [effectiveTier, IdentityRecord.hasAddressCredential, hcred]
      have haddress := checkAddress_iff rt s now rec cred
      rw [hagrees.bound] at haddress
      simp only [htier]
      split
      · next hverdict' =>
        rw [hverdict'] at haddress
        simp only [reduceCtorEq, false_iff, not_and] at haddress ⊢
        intro h
        exact absurd (h.address cred hcred) haddress
      · next hverdict' =>
        rw [hverdict'] at haddress
        have hbound := haddress.mp rfl
        simp only [Except.ok.injEq]
        constructor
        · rintro rfl
          refine ⟨⟨hverify, hlive, hroute, ?_⟩, rfl⟩
          intro cred' h
          cases hcred.symm.trans h
          exact hbound
        · rintro ⟨-, rfl⟩
          rfl

end Registry

end Dmcn
