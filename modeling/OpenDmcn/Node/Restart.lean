import OpenDmcn.IdealRuntime
import Mathlib.Data.List.ReduceOption
import OpenDmcn.Relay.Invariant

/-! A serving node over its whole life (`node.go`, `fanout.go`): pushes, its own fan-outs, and
restarts on the same datastore. Every start writes the authority records of the join bundles
without asking `AcceptRecord`. -/

namespace Dmcn

open Go RecordStore

variable {rt : Runtime} {anchor : DarAnchor}

/-- What can happen to a node. A join bundle without an authority record is skipped. -/
inductive NodeEvent where
  | push (p : Push)
  | fanOut (p : Push)
  | restart (bundles : List (Option Pb.DomainAuthorityRecord))

inductive StoreWrite where
  | accept (p : Push)
  | boot
  | seedOwn (pb : Pb.DomainAuthorityRecord)

def NodeEvent.writes : NodeEvent → List StoreWrite
  | .push p => [.accept p]
  | .fanOut p => [.accept p]
  | .restart bundles => .boot :: bundles.reduceOption.map .seedOwn

def StoreWrite.apply (rt : Runtime) (anchor : DarAnchor) (r : Relay) : StoreWrite → Relay
  | .accept p => r.push rt anchor p
  -- the limiter lives in memory, the records do not
  | .boot => { r with rotationLimiter := .newRotationLimiter }
  | .seedOwn pb => { r with records := r.records.putDAR rt (.fromProto pb) }

def NodeEvent.apply (rt : Runtime) (anchor : DarAnchor) (r : Relay) (e : NodeEvent) : Relay :=
  Machine.run (StoreWrite.apply rt anchor) r e.writes

def DarsSucceeded (rt : Runtime) (r s : Relay) : Prop :=
  ∀ d old, r.records.getDAR rt d = some old →
    ∃ new, s.records.getDAR rt d = some new ∧ old.revision ≤ new.revision ∧
      (new.revision = old.revision → new = old)

def BundleCurrent (rt : Runtime) (r : Relay) (w : StoreWrite) : Prop :=
  ∀ pb, w = .seedOwn pb → ∀ old, r.records.getDAR rt pb.domain = some old →
    old.revision < pb.revision ∨ DomainAuthorityRecord.fromProto pb = old

theorem DarsSucceeded.refl (r : Relay) : DarsSucceeded rt r r :=
  fun _ old hold => ⟨old, hold, UInt64.le_refl _, fun _ => rfl⟩

theorem DarsSucceeded.trans {r s t : Relay} (hrs : DarsSucceeded rt r s)
    (hst : DarsSucceeded rt s t) :
    DarsSucceeded rt r t := by
  intro d old hold
  obtain ⟨mid, hmid, hle, heq⟩ := hrs d old hold
  obtain ⟨new, hnew, hle', heq'⟩ := hst d mid hmid
  refine ⟨new, hnew, UInt64.le_trans hle hle', fun hrev => ?_⟩
  have hback : mid.revision = old.revision := UInt64.le_antisymm (hrev ▸ hle') hle
  rw [heq' (hrev.trans hback.symm), heq hback]

theorem darsSucceeded_accept (r : Relay) (p : Push) : DarsSucceeded rt r (r.push rt anchor p) := by
  intro d old hold
  rcases getDAR_push rt anchor r p d with hkeep | ⟨dar, -, hadm, rfl, hnew⟩
  · exact ⟨old, hkeep.trans hold, UInt64.le_refl _, fun _ => rfl⟩
  · exact ⟨dar, hnew, (hadm.succeeds old hold).2.1, hadm.eq_of_revision_eq hold⟩

theorem getDAR_seedOwn (r : Relay) (pb : Pb.DomainAuthorityRecord) (d : String) :
    ((StoreWrite.seedOwn pb).apply rt anchor r).records.getDAR rt d =
      if d = pb.domain then some (.fromProto pb) else r.records.getDAR rt d :=
  getDAR_putDAR (DomainAuthorityRecord.fromProtoBytes_marshal rt pb) d

theorem darsSucceeded_seedOwn (r : Relay) (pb : Pb.DomainAuthorityRecord) :
    DarsSucceeded rt r ((StoreWrite.seedOwn pb).apply rt anchor r) ↔
      BundleCurrent rt r (.seedOwn pb) := by
  have hrevision : (DomainAuthorityRecord.fromProto pb).revision = pb.revision := rfl
  constructor
  · intro h pb' hpb old hold
    cases hpb
    obtain ⟨new, hnew, hle, heq⟩ := h pb.domain old hold
    rw [getDAR_seedOwn, if_pos rfl] at hnew
    rw [← Option.some.inj hnew, hrevision] at hle heq
    by_cases hrev : pb.revision = old.revision
    · exact .inr (heq hrev)
    · exact .inl (UInt64.lt_of_le_of_ne hle (Ne.symm hrev))
  · intro h d old hold
    rw [getDAR_seedOwn]
    by_cases hd : d = pb.domain
    · subst hd
      rw [if_pos rfl]
      refine ⟨_, rfl, ?_⟩
      rcases h pb rfl old hold with hlt | heq
      · exact ⟨UInt64.le_of_lt hlt, fun heq => absurd heq.symm (UInt64.ne_of_lt hlt)⟩
      · rw [heq]
        exact ⟨UInt64.le_refl _, fun _ => rfl⟩
    · rw [if_neg hd]
      exact ⟨old, hold, UInt64.le_refl _, fun _ => rfl⟩

theorem darsSucceeded_iff (r : Relay) (w : StoreWrite) :
    DarsSucceeded rt r (w.apply rt anchor r) ↔ BundleCurrent rt r w := by
  cases w with
  | accept p => exact ⟨fun _ pb hpb => (nomatch hpb), fun _ => darsSucceeded_accept r p⟩
  | boot => exact ⟨fun _ pb hpb => (nomatch hpb), fun _ => .refl r⟩
  | seedOwn pb => exact darsSucceeded_seedOwn r pb

def emptyNode : Relay := ⟨.empty, .newRotationLimiter⟩

theorem run_events (r : Relay) (events : List NodeEvent) :
    Machine.run (NodeEvent.apply rt anchor) r events =
      Machine.run (StoreWrite.apply rt anchor) r (events.flatMap NodeEvent.writes) := by
  induction events generalizing r with
  | nil => rfl
  | cons e events ih =>
    rw [List.flatMap_cons, Machine.run_append, Machine.run_cons, ih]
    rfl

theorem apply_restart_empty (bundles : List Pb.DomainAuthorityRecord) :
    (NodeEvent.restart (bundles.map some)).apply rt anchor emptyNode =
      seedOwnRecords rt (bundles.map DomainAuthorityRecord.fromProto) := by
  have hfold : ∀ r : Relay,
      Machine.run (StoreWrite.apply rt anchor) r (bundles.map .seedOwn) =
        { r with records :=
          (bundles.map DomainAuthorityRecord.fromProto).foldl (RecordStore.putDAR rt) r.records
            } := by
    induction bundles with
    | nil => exact fun r => rfl
    | cons pb bundles ih => exact fun r => ih _
  have hbundles : (bundles.map some).reduceOption = bundles := by simp [List.reduceOption]
  change Machine.run (StoreWrite.apply rt anchor) emptyNode
    (.boot :: (bundles.map some).reduceOption.map .seedOwn) = _
  rw [hbundles, Machine.run_cons, hfold]
  rfl

/-- Over the life of a node, each authority record held at one moment is held at every later one, or
a later revision is, exactly when no start writes one that is behind, or beside, the one held. -/
theorem dars_succeed_iff (rt : Runtime) (anchor : DarAnchor) (events : List NodeEvent) :
    (∀ earlier later, earlier ++ later <+: events.flatMap NodeEvent.writes →
      DarsSucceeded rt (Machine.run (StoreWrite.apply rt anchor) emptyNode earlier)
        (Machine.run (StoreWrite.apply rt anchor) emptyNode (earlier ++ later))) ↔
      Machine.Along (StoreWrite.apply rt anchor) (BundleCurrent rt) emptyNode
        (events.flatMap NodeEvent.writes) := by
  have hrelated : Machine.Along (StoreWrite.apply rt anchor)
      (fun r w => DarsSucceeded rt r (w.apply rt anchor r)) emptyNode
        (events.flatMap NodeEvent.writes) ↔ _ :=
    Machine.along_iff_related DarsSucceeded.refl fun _ _ _ => DarsSucceeded.trans
  rw [← hrelated]
  constructor
  · exact Machine.Along.imp fun r w => (darsSucceeded_iff r w).mp
  · exact Machine.Along.imp fun r w => (darsSucceeded_iff r w).mpr

namespace StaleBundle

def bundle : Pb.DomainAuthorityRecord := plainAuthority "example.org" 1

def update : Pb.DomainAuthorityRecord := { bundle with revision := 2 }

noncomputable def runtime : Runtime := idealRuntime [keyOf 1] []

noncomputable def life : List NodeEvent :=
  [.restart [some bundle], .push ⟨default, .dar, runtime.domainAuthorityRecord.marshal update⟩,
    .restart [some bundle]]

noncomputable def after (events : List NodeEvent) : Relay :=
  Machine.run (NodeEvent.apply runtime none) emptyNode events

theorem getDAR_seeded : (after (life.take 1)).records.getDAR runtime "example.org" =
    some (.fromProto bundle) := by
  change ((NodeEvent.restart ([bundle].map some)).apply runtime none emptyNode).records.getDAR
    runtime _ = _
  rw [apply_restart_empty]
  exact getDAR_seed_singleton rfl

theorem update_admitted : DarAdmitted runtime none (after (life.take 1)).records default
    (runtime.domainAuthorityRecord.marshal update) (.fromProto update) where
  parsed := DomainAuthorityRecord.fromProtoBytes_marshal runtime update
  verified := DomainAuthorityRecord.verify_idealRuntime (by decide) (by decide)
  succeeds := by
    intro existing hexisting
    cases getDAR_seeded.symm.trans hexisting
    refine ⟨?_, by decide, fun h => absurd h (by decide)⟩
    simp [darAcknowledges, DomainAuthorityRecord.fromProto, update]
  anchored := by
    intro hnone
    cases getDAR_seeded.symm.trans hnone

theorem getDAR_updated : (after (life.take 2)).records.getDAR runtime "example.org" =
    some (.fromProto update) := by
  have hstored := (acceptRecord_dar (r := after (life.take 1))
    (p := ⟨default, .dar, runtime.domainAuthorityRecord.marshal update⟩) rfl update_admitted).2
  change (Relay.push runtime none (after (life.take 1)) _).records.getDAR runtime _ = _
  rw [hstored, getDAR_putDAR update_admitted.parsed]
  exact if_pos rfl

theorem getDAR_restarted : (after life).records.getDAR runtime "example.org" =
    some (.fromProto bundle) := by
  change ((StoreWrite.seedOwn bundle).apply runtime none _).records.getDAR runtime _ = _
  rw [getDAR_seedOwn]
  exact if_pos rfl

/-- The restart puts the bundle's revision back in place of the one accepted since. -/
theorem restart_rolls_back :
    (after (life.take 2)).records.getDAR runtime "example.org" = some (.fromProto update) ∧
    (after life).records.getDAR runtime "example.org" = some (.fromProto bundle) ∧
    ¬ ∀ earlier later, earlier ++ later <+: life.flatMap NodeEvent.writes →
      DarsSucceeded runtime (Machine.run (StoreWrite.apply runtime none) emptyNode earlier)
        (Machine.run (StoreWrite.apply runtime none) emptyNode (earlier ++ later)) := by
  refine ⟨getDAR_updated, getDAR_restarted, fun h => ?_⟩
  have hsucceeded :=
    h ((life.take 2).flatMap NodeEvent.writes) ((life.drop 2).flatMap NodeEvent.writes)
    (List.prefix_refl _)
  rw [← List.flatMap_append, List.take_append_drop, ← run_events, ← run_events] at hsucceeded
  obtain ⟨new, hnew, hle, -⟩ := hsucceeded "example.org" _ getDAR_updated
  cases getDAR_restarted.symm.trans hnew
  exact absurd hle (by decide)

end StaleBundle

end Dmcn
