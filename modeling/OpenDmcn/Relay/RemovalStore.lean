import Mathlib.Data.Set.Basic
import Mathlib.Order.CompletePartialOrder
import Mathlib.Order.WithBot
import OpenDmcn.IdealRuntime
import OpenDmcn.Relay.Invariant

/-! The removal record of an address as a value that only goes up: a set of keys, a revision, and
whether a root stands behind it. `acceptRemoval` finds the authority record under the removal's own
spelling of the domain, so the order is kept as long as that spelling meets no other authority. -/

namespace Dmcn

open Go RecordStore

variable {rt : Runtime} {anchor : DarAnchor}

abbrev RemovalView := WithBot (Set Bytes × ℕ × Prop)

def removalView (rt : Runtime) (dar : DomainAuthorityRecord) (a : String) (r : Relay) :
    RemovalView :=
  match r.records.storedRemovalAny rt a with
  | none => ⊥
  | some rm => (({key | key ∈ rm.keys}, rm.revision.toNat, removalIsRootSigned rt dar rm = true) :
      Set Bytes × ℕ × Prop)

/-- The removal held for `a` in `s` lists every key of the one held in `r`, at no lower revision,
and has a root's signature if that one had. -/
def RemovalGrown (rt : Runtime) (dar : DomainAuthorityRecord) (a : String) (r s : Relay) : Prop :=
  ∀ rm, r.records.storedRemovalAny rt a = some rm →
    ∃ rm', s.records.storedRemovalAny rt a = some rm' ∧ rm.keys ⊆ rm'.keys ∧
      rm.revision ≤ rm'.revision ∧
      (removalIsRootSigned rt dar rm = true → removalIsRootSigned rt dar rm' = true)

theorem removalView_le_iff {dar : DomainAuthorityRecord} {a : String} {r s : Relay} :
    removalView rt dar a r ≤ removalView rt dar a s ↔ RemovalGrown rt dar a r s := by
  unfold removalView RemovalGrown
  cases r.records.storedRemovalAny rt a with
  | none => simp
  | some rm =>
    cases s.records.storedRemovalAny rt a with
    | none => simp
    | some rm' =>
      simp only [WithBot.coe_le_coe, Prod.mk_le_mk, le_Prop_eq, Option.some.injEq, forall_eq',
        exists_eq_left', UInt64.le_iff_toNat_le]
      rfl

/-- The removal stored by a push is signed by a root of the authority record, or by the key of the
identity record held for the address at that moment. -/
def RemovalAuthentic (rt : Runtime) (anchor : DarAnchor) (dar : DomainAuthorityRecord) (a : String)
    (r : Relay) (p : Push) : Prop :=
  ∀ rm, (r.push rt anchor p).records.storedRemovalAny rt a = some rm →
    r.records.storedRemovalAny rt a = some rm ∨
    (∃ root ∈ dar.rootKeys, rm.verify rt root = true) ∨
    ∃ rec, r.records.getIdentity rt a = some rec ∧ rm.verify rt rec.ed25519Public = true

/-- A removal pushed for `a` spells the domain as `a` does, or meets no authority record. -/
def SpellsDomain (rt : Runtime) (a : String) (r : Relay) (p : Push) : Prop :=
  ∀ rm, p.kind = .removal → AddressRemovalRecord.fromProtoBytes rt p.data = some rm →
    rm.address = a →
    rm.domain = domainOf a ∨ r.records.getDAR rt rm.domain = none

theorem RemovalAdmitted.authority_eq {r : Relay} {p : Push} {rm : AddressRemovalRecord}
    {dar dar' : DomainAuthorityRecord} (h : RemovalAdmitted rt r.records p.data rm dar')
    (hkind : p.kind = .removal) (hspell : SpellsDomain rt rm.address r p)
    (hdar : r.records.getDAR rt (domainOf rm.address) = some dar) : dar' = dar := by
  rcases hspell rm hkind h.parsed rfl with hsame | hnone
  · have hauth := h.authority
    rw [hsame, hdar] at hauth
    exact (Option.some.inj hauth).symm
  · cases hnone.symm.trans h.authority

theorem removalView_push {a : String} {dar : DomainAuthorityRecord} {r : Relay} {p : Push}
    (hdar : r.records.getDAR rt (domainOf a) = some dar) (hspell : SpellsDomain rt a r p) :
    removalView rt dar a r ≤ removalView rt dar a (r.push rt anchor p) := by
  rw [removalView_le_iff]
  intro rm hrm
  rcases storedRemovalAny_push rt anchor r p a with hkeep | ⟨rm', dar', hkind, hadm, ha, hnew⟩
  · exact ⟨rm, hkeep.trans hrm, List.Subset.refl _, UInt64.le_refl _, id⟩
  · subst ha
    have hauth := hadm.authority_eq hkind hspell hdar
    subst hauth
    obtain ⟨hroot, hrev, hkeys⟩ := hadm.succeeds rm hrm
    exact ⟨rm', hnew, hkeys, hrev, hroot⟩

theorem removalAuthentic_push {a : String} {dar : DomainAuthorityRecord} {r : Relay} {p : Push}
    (hdar : r.records.getDAR rt (domainOf a) = some dar) (hspell : SpellsDomain rt a r p) :
    RemovalAuthentic rt anchor dar a r p := by
  intro rm hrm
  rcases storedRemovalAny_push rt anchor r p a with hkeep | ⟨rm', dar', hkind, hadm, ha, hnew⟩
  · exact .inl (hkeep.symm.trans hrm)
  · cases hnew.symm.trans hrm
    subst ha
    have hauth := hadm.authority_eq hkind hspell hdar
    subst hauth
    refine .inr ?_
    rcases hadm.signed with hroot | howner
    · exact .inl (removalIsRootSigned_iff.mp hroot)
    · right
      unfold ownerSignedBy at howner
      split at howner
      · cases howner
      · next rec hrec =>
        simp only [removalIsOwnerSigned, Bool.and_eq_true] at howner
        exact ⟨rec, hrec, howner.2⟩

/-- Over every run of pushes during which the authority record of the address stays the same and
every removal pushed for the address spells its domain, the removal held only grows, at every step
and from the first state on, and whatever is stored is authentic. -/
theorem removals_grow {a : String} {dar : DomainAuthorityRecord} {r : Relay} {ps : List Push}
    (hrun : Machine.Along (Relay.push rt anchor) (fun s p =>
      s.records.getDAR rt (domainOf a) = some dar ∧ SpellsDomain rt a s p) r ps) :
    Machine.Along (Relay.push rt anchor) (fun s p =>
      RemovalGrown rt dar a s (s.push rt anchor p) ∧ RemovalAuthentic rt anchor dar a s p) r ps ∧
    Machine.Throughout (Relay.push rt anchor) (RemovalGrown rt dar a r) r ps := by
  constructor
  · refine hrun.imp ?_
    rintro s p ⟨hdar, hspell⟩
    exact ⟨removalView_le_iff.mp (removalView_push hdar hspell), removalAuthentic_push hdar hspell⟩
  · have hview := Machine.throughout_le (removalView rt dar a)
      (fun s p h => removalView_push h.1 h.2) hrun
    exact hview.imp fun s hs => removalView_le_iff.mp hs

namespace Respelled

def current : Pb.DomainAuthorityRecord :=
  { (default : Pb.DomainAuthorityRecord) with
    version := 1, domain := "example.org", authorityEd25519PublicKey := keyOf 1, revision := 1 }

def former : Pb.DomainAuthorityRecord :=
  { current with domain := "EXAMPLE.ORG", authorityEd25519PublicKey := keyOf 3 }

def removal (domain : String) : Pb.AddressRemovalRecord :=
  { (default : Pb.AddressRemovalRecord) with
    version := 1, domain := domain, address := "alice@example.org"
    removedBindings := [⟨keyOf 2, 0⟩], revision := 1 }

noncomputable def log : List (Bytes × Bytes) :=
  -- its record, and the removal under the domain's own spelling
  [(keyOf 1, Ctx.darSelf.tag ++ (DomainAuthorityRecord.fromProto current).signableBytes
    (idealRuntime [] [])), (keyOf 1, Ctx.addressRemoval.tag ++
      (AddressRemovalRecord.fromProto (removal "example.org")).signableBytes (idealRuntime [] []))]

noncomputable def runtime : Runtime := idealRuntime [keyOf 3] log

noncomputable def dns : DarAnchor := some fun now _ fp =>
  fp == (DomainAuthorityRecord.fromProto
    (if now.before (Time.ofUnix 1000) then former else current)).fingerprint runtime

noncomputable def pushFormer : Push :=
  -- the former root's fingerprint until second 1000, the current root's after
  ⟨Time.ofUnix 0, .dar, runtime.domainAuthorityRecord.marshal former⟩

noncomputable def pushCurrent : Push :=
  ⟨Time.ofUnix 2000, .dar, runtime.domainAuthorityRecord.marshal current⟩

noncomputable def pushRemoval (domain : String) : Push :=
  ⟨Time.ofUnix 2000, .removal, runtime.addressRemovalRecord.marshal (removal domain)⟩

noncomputable def relay1 : Relay := (seedOwnRecords runtime []).push runtime dns pushFormer
noncomputable def relay2 : Relay := relay1.push runtime dns pushCurrent
noncomputable def relay : Relay := relay2.push runtime dns (pushRemoval "example.org")
noncomputable def respelled : Relay := relay.push runtime dns (pushRemoval "EXAMPLE.ORG")

theorem records_relay1 : relay1.records = RecordStore.empty.putDAR runtime (.fromProto former) := by
  have hadm : DarAdmitted runtime dns .empty pushFormer.now pushFormer.data
      (.fromProto former) := by
    refine ⟨DomainAuthorityRecord.fromProtoBytes_marshal runtime former,
      DomainAuthorityRecord.verify_idealRuntime (by decide) (by decide), ?_, ?_⟩
    · intro existing hexisting
      cases hexisting
    · intro _ f hf
      rw [← Option.some.inj hf]
      exact beq_self_eq_true _
  exact (acceptRecord_dar rfl hadm).2

theorem getDAR_relay1 (d : String) : relay1.records.getDAR runtime d =
    if d = "EXAMPLE.ORG" then some (.fromProto former) else none := by
  rw [records_relay1, getDAR_putDAR (DomainAuthorityRecord.fromProtoBytes_marshal runtime former)]
  rfl

theorem records_relay2 : relay2.records = relay1.records.putDAR runtime (.fromProto current) := by
  have hnone : relay1.records.getDAR runtime "example.org" = none := by
    rw [getDAR_relay1]
    exact if_neg (by decide)
  have hadm : DarAdmitted runtime dns relay1.records pushCurrent.now pushCurrent.data
      (.fromProto current) := by
    refine ⟨DomainAuthorityRecord.fromProtoBytes_marshal runtime current, ?_, ?_, ?_⟩
    · exact verifyCtx_idealRuntime.mpr ⟨by decide, by simp, .inr (List.mem_cons_self ..)⟩
    · intro existing hexisting
      cases hnone.symm.trans hexisting
    · intro _ f hf
      rw [← Option.some.inj hf]
      exact beq_self_eq_true _
  exact (acceptRecord_dar rfl hadm).2

theorem getDAR_relay2 (d : String) : relay2.records.getDAR runtime d =
    if d = "example.org" then some (.fromProto current) else relay1.records.getDAR runtime d := by
  rw [records_relay2, getDAR_putDAR (DomainAuthorityRecord.fromProtoBytes_marshal runtime current)]
  rfl

theorem rootSigned : removalIsRootSigned runtime (.fromProto current)
    (.fromProto (removal "example.org")) = true := by
  refine removalIsRootSigned_iff.mpr ⟨keyOf 1, List.mem_cons_self .., ?_⟩
  refine AddressRemovalRecord.verify_idealRuntime.mpr ⟨length_keyOf 1, .inr ?_⟩
  exact List.mem_cons_of_mem _ (List.mem_cons_self ..)

theorem formerSigned : removalIsRootSigned runtime (.fromProto former)
    (.fromProto (removal "EXAMPLE.ORG")) = true := by
  refine removalIsRootSigned_iff.mpr ⟨keyOf 3, List.mem_cons_self .., ?_⟩
  exact AddressRemovalRecord.verify_idealRuntime.mpr ⟨length_keyOf 3, .inl (List.mem_cons_self ..)⟩

theorem not_rootSigned : removalIsRootSigned runtime (.fromProto current)
    (.fromProto (removal "EXAMPLE.ORG")) = false := by
  rw [Bool.eq_false_iff, Ne, removalIsRootSigned_iff]
  rintro ⟨root, hroot, hverify⟩
  cases List.mem_singleton.mp hroot
  obtain ⟨-, hheld | hlog⟩ := AddressRemovalRecord.verify_idealRuntime.mp hverify
  · exact absurd (keyOf_injective (List.mem_singleton.mp hheld)) (by decide)
  · simp only [log, List.mem_cons, Prod.mk.injEq, List.not_mem_nil, or_false] at hlog
    rcases hlog with ⟨-, hself⟩ | ⟨-, hremoval⟩
    · cases (Ctx.tag_append_inj hself).1
    · have hbytes := (Ctx.tag_append_inj hremoval).2
      have hmsg := runtime.addressRemovalRecord.marshalDeterministic_injective hbytes
      exact absurd (congrArg Pb.AddressRemovalRecord.domain hmsg) (by decide)

theorem records_relay : relay.records =
    relay2.records.putRemoval runtime (.fromProto (removal "example.org")) := by
  have hadm : RemovalAdmitted runtime relay2.records (pushRemoval "example.org").data
      (.fromProto (removal "example.org")) (.fromProto current) := by
    refine ⟨AddressRemovalRecord.fromProtoBytes_marshal runtime _, by decide, by decide, by decide,
      ?_, .inl rootSigned, ?_⟩
    · exact (getDAR_relay2 _).trans (if_pos rfl)
    · intro existing hexisting
      rw [records_relay2, records_relay1] at hexisting
      cases hexisting
  exact (acceptRecord_removal rfl hadm).2

theorem storedRemoval_relay : relay.records.storedRemovalAny runtime "alice@example.org" =
    some (.fromProto (removal "example.org")) := by
  have hparse := AddressRemovalRecord.fromProtoBytes_marshal runtime (removal "example.org")
  rw [records_relay, storedRemovalAny_putRemoval hparse (by decide)]
  exact if_pos rfl

theorem getDAR_relay (d : String) : relay.records.getDAR runtime d = relay2.records.getDAR runtime
    d := by
  rw [records_relay]
  exact getDAR_put_of_ne (by decide)

theorem storedRemoval_respelled : respelled.records.storedRemovalAny runtime "alice@example.org" =
    some (.fromProto (removal "EXAMPLE.ORG")) := by
  have hparse := AddressRemovalRecord.fromProtoBytes_marshal runtime (removal "EXAMPLE.ORG")
  have hadm : RemovalAdmitted runtime relay.records (pushRemoval "EXAMPLE.ORG").data
      (.fromProto (removal "EXAMPLE.ORG")) (.fromProto former) := by
    refine ⟨hparse, by decide, by decide, by decide, ?_, .inl formerSigned, ?_⟩
    · refine (getDAR_relay _).trans ((getDAR_relay2 _).trans ?_)
      rw [if_neg (by decide), getDAR_relay1]
      exact if_pos rfl
    · intro existing hexisting
      cases storedRemoval_relay.symm.trans hexisting
      exact ⟨fun _ => formerSigned, by decide, List.Subset.refl _⟩
  have hrecords : respelled.records =
      relay.records.putRemoval runtime (.fromProto (removal "EXAMPLE.ORG")) :=
    (acceptRecord_removal rfl hadm).2
  rw [hrecords, storedRemovalAny_putRemoval hparse (by decide)]
  exact if_pos rfl

end Respelled

/-- The holder of a former root, whose record is held under another spelling of the domain,
displaces the root's removal, though the domain's own authority record never changes. -/
theorem root_removal_displaced :
    (Respelled.relay.Reachable Respelled.runtime Respelled.dns ∧
      Machine.Throughout (Relay.push Respelled.runtime Respelled.dns)
        (fun s => s.records.getDAR Respelled.runtime "example.org" =
          some (.fromProto Respelled.current)) Respelled.relay
            [Respelled.pushRemoval "EXAMPLE.ORG"]) ∧
    ¬ Machine.Throughout (Relay.push Respelled.runtime Respelled.dns)
      (RemovalGrown Respelled.runtime (.fromProto Respelled.current) "alice@example.org"
        Respelled.relay) Respelled.relay [Respelled.pushRemoval "EXAMPLE.ORG"] := by
  have hdar : Respelled.relay.records.getDAR Respelled.runtime "example.org" =
      some (.fromProto Respelled.current) :=
    (Respelled.getDAR_relay _).trans ((Respelled.getDAR_relay2 _).trans (if_pos rfl))
  refine ⟨⟨⟨[], [Respelled.pushFormer, Respelled.pushCurrent, Respelled.pushRemoval "example.org"],
    rfl⟩, hdar, ?_⟩, ?_⟩
  · rcases getDAR_push Respelled.runtime Respelled.dns Respelled.relay
      (Respelled.pushRemoval "EXAMPLE.ORG") "example.org" with hkeep | ⟨-, hkind, -⟩
    · exact hkeep.trans hdar
    · cases hkind
  · rintro ⟨-, hgrown⟩
    obtain ⟨rm, hrm, -, -, hroot⟩ := hgrown _ Respelled.storedRemoval_relay
    cases Respelled.storedRemoval_respelled.symm.trans hrm
    rw [Respelled.not_rootSigned] at hroot
    cases hroot Respelled.rootSigned

theorem removal_grows_when_repeated :
    Machine.Throughout (Relay.push Respelled.runtime Respelled.dns)
      (RemovalGrown Respelled.runtime (.fromProto Respelled.current) "alice@example.org"
        Respelled.relay) Respelled.relay [Respelled.pushRemoval "example.org"] := by
  have hdomain : domainOf "alice@example.org" = "example.org" := by decide
  have hrun : Machine.Along (Relay.push Respelled.runtime Respelled.dns)
      (fun s p => s.records.getDAR Respelled.runtime (domainOf "alice@example.org") =
        some (.fromProto Respelled.current) ∧
          SpellsDomain Respelled.runtime "alice@example.org" s p) Respelled.relay
      [Respelled.pushRemoval "example.org"] := by
    refine ⟨⟨?_, ?_⟩, trivial⟩
    · rw [hdomain]
      exact (Respelled.getDAR_relay _).trans ((Respelled.getDAR_relay2 _).trans (if_pos rfl))
    · intro rm _ hrm _
      cases (AddressRemovalRecord.fromProtoBytes_marshal Respelled.runtime
        (Respelled.removal "example.org")).symm.trans hrm
      exact .inl hdomain.symm
  exact (removals_grow hrun).2

end Dmcn
