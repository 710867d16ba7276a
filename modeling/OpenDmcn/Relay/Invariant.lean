import OpenDmcn.Relay.Admission

/-! The filing invariant of the store: what is read under a name names it, and every identity
record held verifies. -/

namespace Dmcn

open Go RecordStore

variable {rt : Runtime} {anchor : DarAnchor}

structure Filed (rt : Runtime) (rs : RecordStore) : Prop where
  identity : ∀ a rec, rs.getIdentity rt a = some rec → rec.address = a ∧ rec.verify rt = true
  dar : ∀ d dar, rs.getDAR rt d = some dar → dar.domain = d
  removal : ∀ a rm, rs.storedRemovalAny rt a = some rm → rm.address = a

theorem filed_empty : Filed rt .empty := by
  constructor
  · intro a rec h
    cases h
  · intro d dar h
    cases h
  · intro a rm h
    cases h

theorem filed_putDAR {rs : RecordStore} (h : Filed rt rs) (pb : Pb.DomainAuthorityRecord) :
    Filed rt (rs.putDAR rt (.fromProto pb)) := by
  have hparse := DomainAuthorityRecord.fromProtoBytes_marshal rt pb
  refine ⟨?_, ?_, ?_⟩
  · intro a rec hrec
    exact h.identity a rec ((getIdentity_put_of_ne (by decide)).symm.trans hrec)
  · intro d dar hdar
    rw [getDAR_putDAR hparse] at hdar
    split at hdar
    · next hd =>
      cases hdar
      exact hd.symm
    · exact h.dar d dar hdar
  · intro a rm hrm
    exact h.removal a rm ((storedRemovalAny_put_of_ne (by decide)).symm.trans hrm)

theorem filed_seed (seeds : List Pb.DomainAuthorityRecord) :
    Filed rt (seedOwnRecords rt (seeds.map DomainAuthorityRecord.fromProto)).records := by
  have hfold : ∀ rs, Filed rt rs →
      Filed rt ((seeds.map DomainAuthorityRecord.fromProto).foldl (RecordStore.putDAR rt) rs) := by
    induction seeds with
    | nil => exact fun rs h => h
    | cons pb pbs ih => exact fun rs h => ih _ (filed_putDAR h pb)
  exact hfold .empty filed_empty

theorem get_seed {q : Prefix} (rt : Runtime) (bundles : List DomainAuthorityRecord) (a : String)
    (hq : q ≠ .dar) : (seedOwnRecords rt bundles).records.get q a = none := by
  have hfold : ∀ rs : RecordStore, rs.get q a = none →
      (bundles.foldl (RecordStore.putDAR rt) rs).get q a = none := by
    induction bundles with
    | nil => exact fun rs h => h
    | cons dar bundles ih => exact fun rs h => ih _ ((get_put_of_prefix_ne rs _ hq).trans h)
  exact hfold .empty rfl

theorem getIdentity_seed (rt : Runtime) (bundles : List DomainAuthorityRecord) (a : String) :
    (seedOwnRecords rt bundles).records.getIdentity rt a = none := by
  unfold getIdentity
  rw [get_seed rt bundles a (by decide), Option.bind_none]

theorem storedRemovalAny_seed (rt : Runtime) (bundles : List DomainAuthorityRecord) (a : String) :
    (seedOwnRecords rt bundles).records.storedRemovalAny rt a = none := by
  unfold storedRemovalAny
  rw [get_seed rt bundles a (by decide), Option.bind_none]

theorem getDAR_seed_singleton {pb : Pb.DomainAuthorityRecord} {d : String}
    (hdomain : pb.domain = d) :
    (seedOwnRecords rt [.fromProto pb]).records.getDAR rt d = some (.fromProto pb) := by
  subst hdomain
  have hparse := DomainAuthorityRecord.fromProtoBytes_marshal rt pb
  change (RecordStore.empty.putDAR rt (.fromProto pb)).getDAR rt pb.domain = _
  rw [getDAR_putDAR hparse]
  exact if_pos rfl

theorem eq_of_getDAR_seed {pb : Pb.DomainAuthorityRecord} {d : String} {dar : DomainAuthorityRecord}
    (h : (seedOwnRecords rt [.fromProto pb]).records.getDAR rt d = some dar) :
    dar = .fromProto pb := by
  have hparse := DomainAuthorityRecord.fromProtoBytes_marshal rt pb
  change (RecordStore.empty.putDAR rt (.fromProto pb)).getDAR rt d = _ at h
  rw [getDAR_putDAR hparse] at h
  split at h
  · exact (Option.some.inj h).symm
  · cases h

theorem filed_push (r : Relay) (p : Push) (h : Filed rt r.records) :
    Filed rt (r.push rt anchor p).records := by
  refine ⟨?_, ?_, ?_⟩
  · intro a rec hrec
    rcases getIdentity_push rt anchor r p a with hsame | ⟨rec', -, hadm, ha, hnew⟩
    · exact h.identity a rec (hsame.symm.trans hrec)
    · cases hnew.symm.trans hrec
      exact ⟨ha, hadm.verified⟩
  · intro d dar hdar
    rcases getDAR_push rt anchor r p d with hsame | ⟨dar', -, -, hd, hnew⟩
    · exact h.dar d dar (hsame.symm.trans hdar)
    · cases hnew.symm.trans hdar
      exact hd
  · intro a rm hrm
    rcases storedRemovalAny_push rt anchor r p a with
      hsame | ⟨rm', dar, -, -, ha, hnew⟩
    · exact h.removal a rm (hsame.symm.trans hrm)
    · cases hnew.symm.trans hrm
      exact ha

theorem Relay.Reachable.filed {r : Relay} (h : r.Reachable rt anchor) : Filed rt r.records := by
  obtain ⟨seeds, hseeds⟩ := h
  exact hseeds.invariant (Q := fun r => Filed rt r.records) (filed_seed seeds) filed_push

theorem Relay.Reachable.removal_domain {r : Relay} (h : r.Reachable rt anchor) :
    ∀ a rm, r.records.storedRemovalAny rt a = some rm →
      rm.domain ≠ "" ∧ Strings.equalFold rt.unicode rm.domain (domainOf a) = true := by
  obtain ⟨seeds, hseeds⟩ := h
  refine hseeds.invariant (Q := fun r => ∀ a rm, r.records.storedRemovalAny rt a = some rm →
    rm.domain ≠ "" ∧ Strings.equalFold rt.unicode rm.domain (domainOf a) = true) ?_ ?_
  · intro a rm hrm
    cases (storedRemovalAny_seed rt _ a).symm.trans hrm
  · intro r p hr a rm hrm
    rcases storedRemovalAny_push rt anchor r p a with hkeep | ⟨rm', dar, -, hadm, rfl, hnew⟩
    · exact hr a rm (hkeep.symm.trans hrm)
    · cases hnew.symm.trans hrm
      exact ⟨hadm.domain_ne, hadm.domain_eq⟩

theorem Relay.Reachable.push {r : Relay} (h : r.Reachable rt anchor) (p : Push) :
    (r.push rt anchor p).Reachable rt anchor := by
  obtain ⟨seeds, hseeds⟩ := h
  exact ⟨seeds, hseeds.next p⟩

end Dmcn
