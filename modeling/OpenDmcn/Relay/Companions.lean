import OpenDmcn.IdealRuntime
import OpenDmcn.Relay.Invariant

/-! The records beside an authority record: the blocklist of its credentials and the fleet roster.
A blocklist is admitted under the authority record held for its domain, and is compared only with a
list that this record vouches for; a roster is stored as it comes. -/

namespace Dmcn

open Go Guard RecordStore

variable {rt : Runtime} {anchor : DarAnchor}

def RecordStore.blocklistHeld (rt : Runtime) (rs : RecordStore) (domain : String) :
    Option CredentialBlockList :=
  (rs.getBlocklistBytes domain).bind fun data =>
    if data.isEmpty then none else CredentialBlockList.fromProtoBytes rt data

structure BlocklistAdmitted (rt : Runtime) (rs : RecordStore) (data : Bytes)
    (bl : CredentialBlockList) (dar : DomainAuthorityRecord) : Prop where
  parsed : CredentialBlockList.fromProtoBytes rt data = some bl
  authority : rs.getDAR rt bl.domain = some dar
  signed : blocklistIsRootSigned rt dar bl = true
  succeeds : ∀ existing, rs.blocklistHeld rt bl.domain = some existing →
    blocklistIsRootSigned rt dar existing = true → existing.revision ≤ bl.revision

variable {bl : CredentialBlockList}

theorem checkBlocklistSuccession_eq_ok {rs : RecordStore} {dar : DomainAuthorityRecord} :
    checkBlocklistSuccession rt rs dar bl = .ok () ↔
      ∀ existing, rs.blocklistHeld rt bl.domain = some existing →
        blocklistIsRootSigned rt dar existing = true → existing.revision ≤ bl.revision := by
  have hfilter : ((rs.getBlocklistBytes bl.domain).bind fun b =>
      if b.isEmpty then none
      else (CredentialBlockList.fromProtoBytes rt b).filter (blocklistIsRootSigned rt dar)) =
      (rs.blocklistHeld rt bl.domain).filter (blocklistIsRootSigned rt dar) := by
    unfold blocklistHeld
    cases rs.getBlocklistBytes bl.domain with
    | none => rfl
    | some b =>
      simp only [Option.bind_some]
      split
      · rfl
      · rfl
  unfold checkBlocklistSuccession
  dsimp only
  rw [hfilter]
  cases rs.blocklistHeld rt bl.domain with
  | none => simp
  | some existing =>
    by_cases hsigned : blocklistIsRootSigned rt dar existing = true
    · simp [Option.filter_some, hsigned, UInt64.not_lt]
    · simp [Option.filter_some, hsigned]

theorem acceptBlocklist_eq_ok {rs rs' : RecordStore} {data : Bytes} :
    acceptBlocklist rt rs data = .ok rs' ↔
      ∃ bl dar, BlocklistAdmitted rt rs data bl dar ∧ rs' = rs.putBlocklist rt bl := by
  simp only [acceptBlocklist, need_bind, unit_bind, require_eq_ok, checkBlocklistSuccession_eq_ok,
    pure_eq_ok]
  constructor
  · rintro ⟨bl, hparse, dar, hdar, hsigned, hsucc, rfl⟩
    exact ⟨bl, dar, ⟨hparse, hdar, hsigned, hsucc⟩, rfl⟩
  · rintro ⟨bl, dar, h, rfl⟩
    exact ⟨bl, h.parsed, dar, h.authority, h.signed, h.succeeds, rfl⟩

theorem blocklistHeld_putBlocklist {rs : RecordStore} {data : Bytes}
    (h : CredentialBlockList.fromProtoBytes rt data = some bl) (d : String) :
    (rs.putBlocklist rt bl).blocklistHeld rt d =
      if d = bl.domain then some bl else rs.blocklistHeld rt d := by
  unfold blocklistHeld getBlocklistBytes putBlocklist
  split
  · next hd =>
    obtain ⟨pb, -, rfl⟩ := Option.map_eq_some_iff.mp h
    -- the signature field is never empty, so neither is the message
    have hmsg : (CredentialBlockList.fromProto pb).toProto ≠ default := by
      intro heq
      have hsig := congrArg (fun m => m.signature.length) heq
      have hlen : (Fixed.copy 64 pb.signature).val.length = 64 := by simp
      exact absurd (hlen.symm.trans hsig) (by decide)
    have hbytes := rt.credentialBlockList.marshal_ne_nil hmsg
    rw [hd, get_put_self]
    simp [hbytes, CredentialBlockList.fromProtoBytes]
  · next hd => rw [get_put_of_id_ne rs _ hd]

def RecordKind.slot : RecordKind → Option Prefix
  | .identity => some .identity
  | .dar => some .dar
  | .removal => some .removal
  | .history => some .history
  | .blocklist => some .blocklist
  | .roster => some .roster
  | .unknown => none

theorem RecordKind.eq_of_slot {k k' : RecordKind} {q : Prefix} (h : k.slot = some q)
    (h' : k'.slot = some q) : k = k' := by
  cases k <;> cases h <;> cases k' <;> first | rfl | cases h'

theorem get_commit {r s : Relay} {result : Except Refusal RecordStore} {q : Prefix} {name : String}
    (hs : s.records = r.records)
    (hwrite : ∀ rs, result = .ok rs → rs.get q name = r.records.get q name) :
    (s.commit result).1.records.get q name = r.records.get q name := by
  rcases commit_records s result with hkeep | hok
  · rw [hkeep, hs]
  · exact hwrite _ hok

theorem get_push_of_slot_ne (r : Relay) {p : Push} {q : Prefix} (hslot : p.kind.slot ≠ some q)
    (name : String) : (r.push rt anchor p).records.get q name = r.records.get q name := by
  have hne : ∀ q', p.kind.slot = some q' → q ≠ q' := by
    rintro q' hq' rfl
    exact hslot hq'
  unfold Relay.push acceptRecord
  cases hk : p.kind with
  | unknown => rfl
  | blocklist =>
    refine get_commit rfl fun rs hok => ?_
    obtain ⟨bl, dar, -, rfl⟩ := acceptBlocklist_eq_ok.mp hok
    exact get_put_of_prefix_ne _ _ (hne _ (congrArg RecordKind.slot hk))
  | identity =>
    refine get_commit rfl fun rs hok => ?_
    obtain ⟨rec, -, rfl⟩ := acceptIdentity_eq_ok.mp hok
    exact get_put_of_prefix_ne _ _ (hne _ (congrArg RecordKind.slot hk))
  | dar =>
    refine get_commit rfl fun rs hok => ?_
    obtain ⟨dar, -, rfl⟩ := acceptDAR_eq_ok.mp hok
    exact get_put_of_prefix_ne _ _ (hne _ (congrArg RecordKind.slot hk))
  | removal =>
    refine get_commit rfl fun rs hok => ?_
    obtain ⟨rm, dar, -, rfl⟩ := acceptRemoval_eq_ok.mp hok
    exact get_put_of_prefix_ne _ _ (hne _ (congrArg RecordKind.slot hk))
  | roster =>
    refine get_commit rfl fun rs hok => ?_
    simp only [acceptRoster, need_bind, pure_eq_ok] at hok
    obtain ⟨roster, -, rfl⟩ := hok
    exact get_put_of_prefix_ne _ _ (hne _ (congrArg RecordKind.slot hk))
  | history =>
    refine get_commit rfl fun rs hok => ?_
    simp only [acceptHistory, need_bind, unit_bind] at hok
    obtain ⟨-, -, rec, -, -, -, live, -, -, hok⟩ := hok
    split at hok
    · rw [pure_eq_ok] at hok
      rw [← hok]
    · simp only [unit_bind, pure_eq_ok] at hok
      obtain ⟨-, -, rfl⟩ := hok
      exact get_put_of_prefix_ne _ _ (hne _ (congrArg RecordKind.slot hk))

theorem blocklistHeld_push (rt : Runtime) (anchor : DarAnchor) (r : Relay) (p : Push) (d : String) :
    (r.push rt anchor p).records.blocklistHeld rt d = r.records.blocklistHeld rt d ∨
    ∃ bl dar, p.kind = .blocklist ∧ BlocklistAdmitted rt r.records p.data bl dar ∧ bl.domain = d ∧
      (r.push rt anchor p).records.blocklistHeld rt d = some bl := by
  by_cases hkind : p.kind = .blocklist
  · unfold Relay.push acceptRecord
    rw [hkind]
    rcases commit_records r (acceptBlocklist rt r.records p.data) with hkeep | hok
    · exact .inl (congrArg (blocklistHeld rt · d) hkeep)
    · obtain ⟨bl, dar, hadm, hrs⟩ := acceptBlocklist_eq_ok.mp hok
      simp only [hrs, blocklistHeld_putBlocklist hadm.parsed]
      split
      · next hd => exact .inr ⟨bl, dar, trivial, hadm, hd.symm, rfl⟩
      · exact .inl rfl
  · left
    unfold blocklistHeld getBlocklistBytes
    rw [get_push_of_slot_ne r]
    exact fun hslot => hkind (RecordKind.eq_of_slot hslot rfl)

/-- The list was pushed while the domain's authority record was `dar`, and a root of `dar` signed
it. -/
structure Vouched (rt : Runtime) (r : Relay) (p : Push) (d : String) (bl : CredentialBlockList) :
    Prop where
  pushed : p.kind = .blocklist ∧ CredentialBlockList.fromProtoBytes rt p.data = some bl
  signed : ∃ dar, r.records.getDAR rt d = some dar ∧ ∃ root ∈ dar.rootKeys, bl.verify rt root = true

theorem blocklistIsRootSigned_iff {dar : DomainAuthorityRecord} :
    blocklistIsRootSigned rt dar bl = true ↔ ∃ root ∈ dar.rootKeys, bl.verify rt root = true := by
  unfold blocklistIsRootSigned
  rw [List.any_eq_true]

theorem blocklistHeld_seed (bundles : List DomainAuthorityRecord) (d : String) :
    (seedOwnRecords rt bundles).records.blocklistHeld rt d = none := by
  unfold blocklistHeld getBlocklistBytes
  rw [get_seed rt bundles d (by decide), Option.bind_none]

theorem blocklist_vouched {seeds : List DomainAuthorityRecord} {ps : List Push} {d : String}
    (h : (Machine.run (Relay.push rt anchor) (seedOwnRecords rt seeds) ps).records.blocklistHeld rt
      d =
      some bl) :
    ∃ before p after, ps = before ++ p :: after ∧
      Vouched rt (Machine.run (Relay.push rt anchor) (seedOwnRecords rt seeds) before) p d bl := by
  have hfirst : ¬ (seedOwnRecords rt seeds).records.blocklistHeld rt d = some bl := by
    rw [blocklistHeld_seed]
    simp
  obtain ⟨before, p, after, hps, hno, hyes⟩ := Machine.exists_step_of_run
    (Q := fun r : Relay => r.records.blocklistHeld rt d = some bl) hfirst h
  refine ⟨before, p, after, hps, ?_⟩
  rcases blocklistHeld_push rt anchor
    (Machine.run (Relay.push rt anchor) (seedOwnRecords rt seeds) before)
    p d with hkeep | ⟨bl', dar, hkind, hadm, hd, hnew⟩
  · exact absurd (hkeep.symm.trans hyes) hno
  · cases hnew.symm.trans hyes
    exact ⟨⟨hkind, hadm.parsed⟩, dar, hd ▸ hadm.authority, blocklistIsRootSigned_iff.mp hadm.signed⟩

def HoldsFrom (rt : Runtime) (dar : DomainAuthorityRecord) (d : String) (revision : UInt64)
    (r : Relay) : Prop :=
  ∃ bl, r.records.blocklistHeld rt d = some bl ∧ blocklistIsRootSigned rt dar bl = true ∧
    revision ≤ bl.revision

theorem holdsFrom_push {dar : DomainAuthorityRecord} {d : String} {revision : UInt64} {r : Relay}
    (p : Push) (h : HoldsFrom rt dar d revision r) (hdar : r.records.getDAR rt d = some dar) :
    HoldsFrom rt dar d revision (r.push rt anchor p) := by
  obtain ⟨bl, hbl, hsigned, hle⟩ := h
  rcases blocklistHeld_push rt anchor r p d with hkeep | ⟨bl', dar', -, hadm, rfl, hnew⟩
  · exact ⟨bl, hkeep.trans hbl, hsigned, hle⟩
  · cases hdar.symm.trans hadm.authority
    exact ⟨bl', hnew, hadm.signed, UInt64.le_trans hle (hadm.succeeds bl hbl hsigned)⟩

/-- Over every run of pushes: each blocklist held was signed by a root of the authority record held
when it was pushed; and while the authority record stays the same, the revision never falls below
that of a list one of its roots signed. -/
theorem blocklists_vouched_and_monotone (rt : Runtime) (anchor : DarAnchor)
    (seeds : List DomainAuthorityRecord) (earlier later : List Push) (d : String) :
    (∀ bl, (Machine.run (Relay.push rt anchor) (seedOwnRecords rt seeds)
      earlier).records.blocklistHeld
        rt d = some bl →
      ∃ before p after, earlier = before ++ p :: after ∧
        Vouched rt (Machine.run (Relay.push rt anchor) (seedOwnRecords rt seeds) before) p d bl) ∧
    ∀ dar bl, Machine.Throughout (Relay.push rt anchor) (fun r => r.records.getDAR rt d = some dar)
        (Machine.run (Relay.push rt anchor) (seedOwnRecords rt seeds) earlier) later →
      (Machine.run (Relay.push rt anchor) (seedOwnRecords rt seeds) earlier).records.blocklistHeld
      rt d =
        some bl →
      (∃ root ∈ dar.rootKeys, bl.verify rt root = true) →
      Machine.Throughout (Relay.push rt anchor) (HoldsFrom rt dar d bl.revision)
        (Machine.run (Relay.push rt anchor) (seedOwnRecords rt seeds) earlier) later := by
  refine ⟨fun bl h => blocklist_vouched h, fun dar bl hsame hheld hroot => ?_⟩
  have hfirst : HoldsFrom rt dar d bl.revision
      (Machine.run (Relay.push rt anchor) (seedOwnRecords rt seeds) earlier) :=
    ⟨bl, hheld, blocklistIsRootSigned_iff.mpr hroot, UInt64.le_refl _⟩
  have halong :=
    Machine.Along.of_throughout (P := fun r _ => r.records.getDAR rt d = some dar) hsame
    fun r _ h => h
  exact Machine.throughout_of_along hfirst (fun r p hr hdar => holdsFrom_push p hr hdar) halong

/-! A list signed by a former root, which the authority record stops naming. -/
namespace FormerRoot

def first : Pb.DomainAuthorityRecord :=
  { plainAuthority "example.org" 1 with
    supersededKeys := [{ (default : Pb.AuthorityKey) with ed25519PublicKey := keyOf 9 }] }

def second : Pb.DomainAuthorityRecord := { plainAuthority "example.org" 1 with revision := 2 }

def list (revision : UInt64) : Pb.CredentialBlockList :=
  { (default : Pb.CredentialBlockList) with domain := "example.org", revision := revision }

noncomputable def listing (key : UInt8) (revision : UInt64) : Bytes × Bytes :=
  (keyOf key, Ctx.keyCompromise.tag ++
    (CredentialBlockList.fromProto (list revision)).signableBytes (idealRuntime [] []))

noncomputable def log : List (Bytes × Bytes) :=
  [(keyOf 1, Ctx.darSelf.tag ++ (DomainAuthorityRecord.fromProto second).signableBytes
    (idealRuntime [] [])), listing 9 10, listing 1 1]

noncomputable def runtime : Runtime := idealRuntime [] log

noncomputable def pushList (revision : UInt64) : Push :=
  ⟨default, .blocklist, runtime.credentialBlockList.marshal (list revision)⟩

noncomputable def pushSecond : Push := ⟨default, .dar, runtime.domainAuthorityRecord.marshal second⟩

noncomputable def relay0 : Relay := seedOwnRecords runtime [.fromProto first]
noncomputable def relay1 : Relay := relay0.push runtime none (pushList 10)
noncomputable def relay2 : Relay := relay1.push runtime none pushSecond
noncomputable def relay3 : Relay := relay2.push runtime none (pushList 1)

theorem parse_list (revision : UInt64) : CredentialBlockList.fromProtoBytes runtime
    (runtime.credentialBlockList.marshal (list revision)) = some (.fromProto (list revision)) := by
  simp [CredentialBlockList.fromProtoBytes]

theorem verify_list {key : UInt8} {revision : UInt64} :
    (CredentialBlockList.fromProto (list revision)).verify runtime (keyOf key) = true ↔
      listing key revision ∈ log := by
  unfold CredentialBlockList.verify runtime
  rw [verifyCtx_idealRuntime]
  have hlen : (CredentialBlockList.fromProto (list revision)).signature.val.length = 64 :=
    (CredentialBlockList.fromProto (list revision)).signature.length_eq
  simp only [length_keyOf, hlen, List.not_mem_nil, false_or, true_and]
  rfl

theorem list_not_signed : listing 1 10 ∉ log := by
  simp only [log, listing, List.mem_cons, Prod.mk.injEq, List.not_mem_nil, or_false, not_or]
  refine ⟨fun h => ?_, fun h => ?_, fun h => ?_⟩
  · cases (Ctx.tag_append_inj h.2).1
  · exact absurd (keyOf_injective h.1) (by decide)
  · have hbytes := (Ctx.tag_append_inj h.2).2
    have hmsg := (idealRuntime [] []).credentialBlockList.marshalDeterministic_injective hbytes
    exact absurd (congrArg Pb.CredentialBlockList.revision hmsg) (by decide)

theorem accepted_list {r : Relay} {revision : UInt64} {dar : DomainAuthorityRecord}
    (h : BlocklistAdmitted runtime r.records (pushList revision).data (.fromProto (list revision))
      dar) :
    (r.push runtime none (pushList revision)).records =
      r.records.putBlocklist runtime (.fromProto (list revision)) := by
  have hok := acceptBlocklist_eq_ok.mpr ⟨_, _, h, rfl⟩
  change (r.commit (acceptBlocklist runtime r.records (pushList revision).data)).1.records = _
  rw [hok]
  rfl

theorem records_relay1 : relay1.records =
    relay0.records.putBlocklist runtime (.fromProto (list 10)) := by
  refine accepted_list ⟨parse_list 10, getDAR_seed_singleton rfl, ?_, ?_⟩
  · refine blocklistIsRootSigned_iff.mpr ⟨keyOf 9, ?_, verify_list.mpr ?_⟩
    · exact List.mem_cons_of_mem _ (List.mem_cons_self ..)
    · exact List.mem_cons_of_mem _ (List.mem_cons_self ..)
  · intro existing hexisting
    cases (blocklistHeld_seed _ _).symm.trans hexisting

theorem records_relay2 : relay2.records = relay1.records.putDAR runtime (.fromProto second) := by
  have hdar : relay1.records.getDAR runtime "example.org" = some (.fromProto first) := by
    rw [records_relay1]
    exact (getDAR_put_of_ne (by decide)).trans (getDAR_seed_singleton rfl)
  have hadm : DarAdmitted runtime none relay1.records pushSecond.now pushSecond.data
      (.fromProto second) := by
    refine ⟨DomainAuthorityRecord.fromProtoBytes_marshal runtime second, ?_, ?_, ?_⟩
    · exact verifyCtx_idealRuntime.mpr ⟨by decide, by simp, .inr (List.mem_cons_self ..)⟩
    · intro existing hexisting
      cases hdar.symm.trans hexisting
      refine ⟨?_, by decide, fun h => absurd h (by decide)⟩
      simp [darAcknowledges, DomainAuthorityRecord.fromProto, first, second]
    · intro hnone
      cases hdar.symm.trans hnone
  exact (acceptRecord_dar rfl hadm).2

theorem getDAR_relay2 : relay2.records.getDAR runtime "example.org" = some (.fromProto second) := by
  rw [records_relay2, getDAR_putDAR (DomainAuthorityRecord.fromProtoBytes_marshal runtime second)]
  exact if_pos rfl

theorem held_relay2 : relay2.records.blocklistHeld runtime "example.org" =
    some (.fromProto (list 10)) := by
  rcases blocklistHeld_push runtime none relay1 pushSecond "example.org" with hkeep
    | ⟨-, -, hkind, -⟩
  · refine hkeep.trans ?_
    rw [records_relay1, blocklistHeld_putBlocklist (parse_list 10)]
    exact if_pos rfl
  · cases hkind

theorem records_relay3 : relay3.records = relay2.records.putBlocklist runtime
    (.fromProto (list 1)) := by
  refine accepted_list ⟨parse_list 1, getDAR_relay2, ?_, ?_⟩
  · refine blocklistIsRootSigned_iff.mpr ⟨keyOf 1, List.mem_cons_self .., verify_list.mpr ?_⟩
    exact List.mem_cons_of_mem _ (List.mem_cons_of_mem _ (List.mem_cons_self ..))
  · -- the list held does not count: the record names its signer no more
    intro existing hexisting hsigned
    cases held_relay2.symm.trans hexisting
    obtain ⟨root, hroot, hverify⟩ := blocklistIsRootSigned_iff.mp hsigned
    cases List.mem_singleton.mp hroot
    exact absurd (verify_list.mp hverify) list_not_signed

def roster : Pb.FleetRoster :=
  { (default : Pb.FleetRoster) with fleetDomain := "example.org", revision := 1 }

noncomputable def pushRoster : Push := ⟨default, .roster, runtime.fleetRoster.marshal roster⟩

/-- Under one authority record the blocklist goes from revision 10 to revision 1; and a node that
holds no authority record at all stores a roster. -/
theorem companions_not_monotone :
    (relay2.Reachable runtime none ∧
      relay2.records.getDAR runtime "example.org" = some (.fromProto second) ∧
      relay3.records.getDAR runtime "example.org" = some (.fromProto second) ∧
      relay2.records.blocklistHeld runtime "example.org" = some (.fromProto (list 10)) ∧
      relay3.records.blocklistHeld runtime "example.org" = some (.fromProto (list 1))) ∧
    ((seedOwnRecords runtime []).push runtime none pushRoster).records.get .roster "example.org" =
        some (runtime.fleetRoster.marshal (FleetRoster.fromProto roster).toProto) ∧
      (seedOwnRecords runtime []).records.getDAR runtime "example.org" = none := by
  refine ⟨⟨⟨[first], [pushList 10, pushSecond], rfl⟩, getDAR_relay2, ?_, held_relay2, ?_⟩, ?_, rfl⟩
  · rw [records_relay3]
    exact (getDAR_put_of_ne (by decide)).trans getDAR_relay2
  · rw [records_relay3, blocklistHeld_putBlocklist (parse_list 1)]
    exact if_pos rfl
  · have hok : acceptRoster runtime (seedOwnRecords runtime []).records pushRoster.data =
        .ok ((seedOwnRecords runtime []).records.putRoster runtime (.fromProto roster)) := by
      simp [acceptRoster, pushRoster, FleetRoster.fromProtoBytes]
      rfl
    change ((seedOwnRecords runtime []).commit
      (acceptRoster runtime _ pushRoster.data)).1.records.get
      .roster "example.org" = _
    rw [hok]
    exact get_put_self _ _ _ _

end FormerRoot

end Dmcn
