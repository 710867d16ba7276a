import OpenDmcn.IdealRuntime
import OpenDmcn.Relay.Admission

/-! Who can change the root key a node trusts for a domain. `acceptDAR` asks that a record with a
new root list the old one as superseded, and the list is signed by the new root alone. -/

namespace Dmcn

open Go RecordStore

variable {rt : Runtime} {anchor : DarAnchor}

def RootKept (rt : Runtime) (domain : String) (root : Bytes) (r : Relay) : Prop :=
  ∃ dar, r.records.getDAR rt domain = some dar ∧ dar.authorityEd25519 = root

/-- A pushed authority record of the domain that verifies under a new root of its own, lists the
old root as superseded and advances the revision held. -/
structure TakesOver (rt : Runtime) (domain : String) (root : Bytes) (r : Relay) (p : Push)
    (dar : DomainAuthorityRecord) : Prop where
  kind : p.kind = .dar
  parsed : DomainAuthorityRecord.fromProtoBytes rt p.data = some dar
  domain_eq : dar.domain = domain
  newRoot : dar.authorityEd25519 ≠ root
  verified : dar.verify rt = true
  lists : ∃ k ∈ dar.supersededKeys, k.ed25519Public = root
  advances : ∀ held, r.records.getDAR rt domain = some held → held.revision < dar.revision

theorem darAcknowledges_iff {dar : DomainAuthorityRecord} {key : Bytes} :
    darAcknowledges dar key = true ↔
      dar.authorityEd25519 = key ∨ ∃ k ∈ dar.supersededKeys, k.ed25519Public = key := by
  simp [darAcknowledges]

theorem not_rootKept_of_takesOver {domain : String} {root : Bytes} {r : Relay} {p : Push}
    {dar : DomainAuthorityRecord} (hkept : RootKept rt domain root r)
    (h : TakesOver rt domain root r p dar) : ¬ RootKept rt domain root (r.push rt anchor p) := by
  obtain ⟨held, hheld, hroot⟩ := hkept
  have hdomain := h.domain_eq
  subst hdomain
  have hadm : DarAdmitted rt anchor r.records p.now p.data dar := by
    refine ⟨h.parsed, h.verified, ?_, ?_⟩
    · intro existing hexisting
      cases hheld.symm.trans hexisting
      have hlt := h.advances held hheld
      refine ⟨darAcknowledges_iff.mpr (.inr (hroot ▸ h.lists)), UInt64.le_of_lt hlt, ?_⟩
      intro heq
      rw [heq] at hlt
      exact absurd hlt (UInt64.lt_irrefl _)
    · intro hnone
      cases hheld.symm.trans hnone
  rintro ⟨after, hafter, hsame⟩
  rw [(acceptRecord_dar h.kind hadm).2, getDAR_putDAR h.parsed, if_pos rfl] at hafter
  cases hafter
  exact h.newRoot hsame

theorem rootKept_push {domain : String} {root : Bytes} {r : Relay} {p : Push}
    (hkept : RootKept rt domain root r) (h : ∀ dar, ¬ TakesOver rt domain root r p dar) :
    RootKept rt domain root (r.push rt anchor p) := by
  obtain ⟨held, hheld, hroot⟩ := hkept
  rcases getDAR_push rt anchor r p domain with hsame | ⟨dar, hkind, hadm, hdom, hnew⟩
  · exact ⟨held, hsame.trans hheld, hroot⟩
  · refine ⟨dar, hnew, ?_⟩
    by_contra hother
    subst hdom
    obtain ⟨hack, hrev, -⟩ := hadm.succeeds held hheld
    have hlists := (darAcknowledges_iff.mp hack).resolve_left (hroot ▸ hother)
    have hne : held.revision ≠ dar.revision := by
      intro heq
      exact hother ((hadm.eq_of_revision_eq hheld heq.symm) ▸ hroot)
    refine h dar ⟨hkind, hadm.parsed, rfl, hother, hadm.verified, hroot ▸ hlists, ?_⟩
    intro held' hheld'
    cases hheld.symm.trans hheld'
    exact UInt64.lt_of_le_of_ne hrev hne

/-- Over any run, the root is kept in every state exactly when no push takes it over. -/
theorem root_kept_iff {domain : String} {root : Bytes} {r : Relay} {ps : List Push}
    (hkept : RootKept rt domain root r) :
    Machine.Throughout (Relay.push rt anchor) (RootKept rt domain root) r ps ↔
      Machine.Along (Relay.push rt anchor) (fun s p => ∀ dar, ¬ TakesOver rt domain root s p dar)
        r ps := by
  constructor
  · apply Machine.along_of_throughout
    intro s p hs hnext dar htakes
    exact not_rootKept_of_takesOver hs htakes hnext
  · apply Machine.throughout_of_along hkept
    intro s p hs hnone
    exact rootKept_push hs hnone

namespace RootTakeover

def genuine : Pb.DomainAuthorityRecord :=
  { (default : Pb.DomainAuthorityRecord) with
    version := 1, domain := "example.org", authorityEd25519PublicKey := keyOf 1, revision := 1 }

def forged : Pb.DomainAuthorityRecord :=
  { genuine with
    authorityEd25519PublicKey := keyOf 2, revision := 2
    supersededKeys := [{ (default : Pb.AuthorityKey) with ed25519PublicKey := keyOf 1 }] }

def held : DomainAuthorityRecord := .fromProto genuine

noncomputable def log : List (Bytes × Bytes) :=
  [(keyOf 1, Ctx.darSelf.tag ++ held.signableBytes (idealRuntime [] []))]

noncomputable def runtime : Runtime := idealRuntime [keyOf 2] log

noncomputable def relay : Relay := seedOwnRecords runtime [held]

noncomputable def push : Push :=
  ⟨default, .dar, runtime.domainAuthorityRecord.marshal forged⟩

noncomputable def republish : Push :=
  ⟨default, .dar, runtime.domainAuthorityRecord.marshal genuine⟩

def dnsAnchor : DarAnchor := some fun _ _ _ => false

theorem getDAR_relay : relay.records.getDAR runtime "example.org" = some held := by
  have hparse := DomainAuthorityRecord.fromProtoBytes_marshal runtime genuine
  exact (getDAR_putDAR hparse "example.org").trans (if_pos rfl)

theorem takesOver : TakesOver runtime "example.org" (keyOf 1) relay push (.fromProto forged) := by
  refine ⟨rfl, DomainAuthorityRecord.fromProtoBytes_marshal runtime forged, rfl, ?_, ?_, ?_, ?_⟩
  · intro h
    exact absurd (keyOf_injective h) (by decide)
  · exact DomainAuthorityRecord.verify_idealRuntime (by decide) (by decide)
  · exact ⟨AuthorityKey.fromProto { (default : Pb.AuthorityKey) with ed25519PublicKey := keyOf 1 },
      by simp [DomainAuthorityRecord.fromProto, forged], rfl⟩
  · intro dar hdar
    cases getDAR_relay.symm.trans hdar
    decide

end RootTakeover

/-- A party that holds only key 2, pushing at a node that holds the record of root key 1, replaces
the root, though the holder of key 1 signed nothing but its own record. -/
theorem root_replaced_by_outsider :
    (RootTakeover.relay.Reachable RootTakeover.runtime RootTakeover.dnsAnchor ∧
      RootTakeover.relay.records.getDAR RootTakeover.runtime "example.org" =
        some RootTakeover.held ∧
      RootTakeover.held.verify RootTakeover.runtime = true ∧
      Ideal.Unforgeable RootTakeover.runtime.ed25519Verify
        (Ideal.tableParty [keyOf 2] RootTakeover.log) ∧
      ¬ (Ideal.tableParty [keyOf 2] RootTakeover.log).holds RootTakeover.held.authorityEd25519 ∧
      ∀ m, (Ideal.tableParty [keyOf 2] RootTakeover.log).signed RootTakeover.held.authorityEd25519
        m → m = Ctx.darSelf.tag ++ RootTakeover.held.signableBytes RootTakeover.runtime) ∧
    ¬ Machine.Throughout (Relay.push RootTakeover.runtime RootTakeover.dnsAnchor)
      (RootKept RootTakeover.runtime "example.org" RootTakeover.held.authorityEd25519)
      RootTakeover.relay [RootTakeover.push] := by
  refine ⟨⟨⟨[RootTakeover.genuine], [], rfl⟩, RootTakeover.getDAR_relay, ?_,
    idealRuntime_unforgeable, ?_, ?_⟩, ?_⟩
  · exact verifyCtx_idealRuntime.mpr ⟨by decide, by simp, .inr (List.mem_singleton.mpr rfl)⟩
  · simp only [Ideal.tableParty, List.mem_singleton]
    intro h
    exact absurd (keyOf_injective h) (by decide)
  · intro m hm
    simp only [Ideal.tableParty, RootTakeover.log, List.mem_singleton, Prod.mk.injEq] at hm
    exact hm.2
  · intro h
    have hkept : RootKept RootTakeover.runtime "example.org" (keyOf 1) RootTakeover.relay :=
      ⟨RootTakeover.held, RootTakeover.getDAR_relay, rfl⟩
    exact not_rootKept_of_takesOver hkept RootTakeover.takesOver h.2

theorem root_kept_by_republishing :
    RootKept RootTakeover.runtime "example.org" (keyOf 1) RootTakeover.relay ∧
    Machine.Throughout (Relay.push RootTakeover.runtime RootTakeover.dnsAnchor)
      (RootKept RootTakeover.runtime "example.org" (keyOf 1)) RootTakeover.relay
      [RootTakeover.republish] := by
  have hkept : RootKept RootTakeover.runtime "example.org" (keyOf 1) RootTakeover.relay :=
    ⟨RootTakeover.held, RootTakeover.getDAR_relay, rfl⟩
  refine ⟨hkept, (root_kept_iff hkept).mpr ⟨?_, trivial⟩⟩
  intro dar h
  have hdar := h.parsed
  simp only [DomainAuthorityRecord.fromProtoBytes, RootTakeover.republish,
    Codec.unmarshal_marshal, Option.map_some, Option.some.injEq] at hdar
  subst hdar
  exact h.newRoot rfl

end Dmcn
