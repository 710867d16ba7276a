import OpenDmcn.Node.Resolver
import OpenDmcn.Relay.Invariant
import OpenDmcn.IdealRuntime

/-! Local-first reads. `Node.Lookup` and `Relay.resolveIdentity` answer from the node's own store
before they ask the domain, and a node that holds no authority record for a domain stores whatever
verifies itself; so the answer for a foreign address is as good as the records pushed for it. -/

namespace Dmcn

open Go Guard RecordStore

variable {rt : Runtime} {anchor : DarAnchor} {n : Node} {now : Time} {a : String}

namespace Node

theorem dnsDiscover_record {domain : String} {mrec : DnsRecord} {seeds : List String}
    (h : n.dnsDiscover rt now domain = .ok (mrec, seeds)) :
    n.resolveDomain rt now domain = .ok mrec := by
  unfold dnsDiscover at h
  split at h
  · cases h
  · cases h
  · next mrec' hrec =>
    simp only [bind_eq_ok, pure_eq_ok, Prod.mk.injEq] at h
    obtain ⟨_, -, seeds', -, _, -, rfl, -⟩ := h
    exact hrec

theorem resolve_serving (rs : RecordStore) (heph : isEphemeralAddress a = false) :
    (n.serving rs).resolve rt now a = n.resolve rt now a := by
  unfold resolve
  simp only [heph, Bool.false_eq_true, if_false]
  rfl

theorem lookup_eq_ok_iff {rec : IdentityRecord} : n.lookup rt now a = .ok (some rec) ↔
    n.identityForSource rt now a = .ok (some rec) ∧ rec.expired now = false := by
  simp only [lookup, registry, Registry.lookup, Registry.new, recordSource, Option.bind_some]
  generalize n.identityForSource rt now a = answer
  rcases answer with e | _ | own
  · simp
  · simp
  · by_cases hexp : own.expired now = true
    · simp only [hexp, if_true, reduceCtorEq, Except.ok.injEq, Option.some.injEq, false_iff]
      rintro ⟨rfl, hlive⟩
      cases hlive.symm.trans hexp
    · simp only [hexp, Bool.false_eq_true, if_false, Except.ok.injEq, Option.some.injEq]
      constructor
      · rintro rfl
        exact ⟨rfl, by simpa using hexp⟩
      · exact fun h => h.1

theorem identityForSource_own {rs : RecordStore} {own : IdentityRecord}
    (h : rs.getIdentity rt a = some own) : (n.serving rs).identityForSource rt now a =
    .ok (some own) := by
  simp [identityForSource, serving, h]

theorem identityForSource_fleet {rs : RecordStore} {rec : IdentityRecord}
    (heph : isEphemeralAddress a = false) (h : rs.getIdentity rt a = none) :
    (n.serving rs).identityForSource rt now a = .ok (some rec) ↔ n.resolve rt now a = .ok rec := by
  unfold identityForSource
  rw [resolve_serving rs heph]
  have hown : ((n.serving rs).records.bind fun rs => rs.getIdentity rt a) = none := h
  rw [hown]
  cases n.resolve rt now a with
  | ok rec' => simp
  | error e => simp

theorem lookup_own {rs : RecordStore} {own rec : IdentityRecord}
    (h : rs.getIdentity rt a = some own) :
    (n.serving rs).lookup rt now a = .ok (some rec) ↔ own = rec ∧ own.expired now = false := by
  rw [lookup_eq_ok_iff, identityForSource_own h, Except.ok.injEq, Option.some.injEq]
  constructor
  · rintro ⟨rfl, hlive⟩
    exact ⟨rfl, hlive⟩
  · rintro ⟨rfl, hlive⟩
    exact ⟨rfl, hlive⟩

theorem resolveIdentity_eq_lookup (rs : RecordStore) :
    resolveIdentity rt (some rs) ((n.serving rs).lookup rt) now a = (n.serving rs).lookup rt now
      a := by
  unfold resolveIdentity
  split
  · next rec hrec =>
    obtain ⟨hown, hlive⟩ := Option.filter_eq_some_iff.mp hrec
    have hown : rs.getIdentity rt a = some rec := hown
    exact ((lookup_own hown).mpr ⟨rfl, by simpa using hlive⟩).symm
  · rfl

end Node

/-- An authority record signed with its own key, under a DNS record with its own fingerprint. -/
theorem verifyDAR_signed {held : List Bytes} {log : List (Bytes × Bytes)}
    {dar : DomainAuthorityRecord} {seeds : List String} (hkey : dar.authorityEd25519.length = 32)
    (hlog : (dar.authorityEd25519, Ctx.darSelf.tag ++ dar.signableBytes (idealRuntime [] [])) ∈ log)
    (hfleet : (dar.defersToFleet (idealRuntime held log)).2 = false) :
    Node.verifyDAR (idealRuntime held log) dar
      ⟨dar.fingerprint (idealRuntime held log), "", seeds⟩ =
      true := by
  have hself : dar.verify (idealRuntime held log) = true :=
    verifyCtx_idealRuntime.mpr ⟨hkey, by simp, .inr hlog⟩
  simp [Node.verifyDAR, hself, hfleet]

/-- The record is as good as the domain's own answer: it is for the key of the record which
`Resolve` returns, and the seed that decides this serves an authority record, a blocklist and a
removal with which it verifies as well. -/
structure Endorsed (rt : Runtime) (n : Node) (now : Time) (a : String) (rec : IdentityRecord) :
    Prop where
  placed : domainOf a ≠ ""
  answered : ∃ mrec before seed after peer dar own,
    n.dnsDiscover rt now (domainOf a) = .ok (mrec, before ++ seed :: after) ∧
    (∀ s ∈ before, ¬ DeniesRecord rt n now a mrec s ∧
      ∀ peer dar rec, ¬ ServesRecord rt n now a mrec s peer dar rec) ∧
    ServesRecord rt n now a mrec seed peer dar own ∧ own.ed25519Public = rec.ed25519Public ∧
    VerifiesBy rt n now a peer dar rec

theorem Endorsed.resolve {rec : IdentityRecord} (h : Endorsed rt n now a rec)
    (heph : isEphemeralAddress a = false) :
    ∃ own, n.resolve rt now a = .ok own ∧ own.ed25519Public = rec.ed25519Public := by
  obtain ⟨mrec, before, seed, after, peer, dar, own, hdns, hbefore, hserves, hkey, -⟩ := h.answered
  refine ⟨own, (resolve_eq_ok heph).mpr ⟨h.placed, mrec, _, hdns, ?_⟩, hkey⟩
  exact ⟨before, seed, after, peer, dar, rfl, hbefore, hserves⟩

theorem endorsed_of_resolve {rec : IdentityRecord} (heph : isEphemeralAddress a = false)
    (h : n.resolve rt now a = .ok rec) : Endorsed rt n now a rec := by
  obtain ⟨hplaced, mrec, seeds, hdns, hdecided⟩ := (resolve_eq_ok heph).mp h
  obtain ⟨before, seed, after, peer, dar, rfl, hbefore, hserves⟩ := hdecided
  exact ⟨hplaced, mrec, before, seed, after, peer, dar, rec, hdns, hbefore, hserves, rfl,
    hserves.verifies⟩

/-- Neither local-first read of the address returns a record its domain does not stand for. -/
def LookupSound (rt : Runtime) (n : Node) (now : Time) (a : String) (r : Relay) : Prop :=
  ∀ rec, ((n.serving r.records).lookup rt now a = .ok (some rec) ∨
    resolveIdentity rt (some r.records) ((n.serving r.records).lookup rt) now a = .ok (some rec)) →
    Endorsed rt n now a rec

/-- A record pushed for `a`, if it verifies itself and is not older than the one held, has expired
by the time of the read or is one the domain stands for. -/
def Unpoisoned (rt : Runtime) (n : Node) (now : Time) (a : String) (r : Relay) (p : Push) : Prop :=
  ∀ rec, p.kind = .identity → IdentityRecord.fromProtoBytes rt p.data = some rec → rec.address = a →
    rec.verify rt = true → rec.expired p.now = false → checkRollback rt r.records rec = .ok () →
    rec.expired now = false → Endorsed rt n now a rec

theorem lookupSound_of_own {r : Relay} {own : IdentityRecord}
    (h : r.records.getIdentity rt a = some own) :
    LookupSound rt n now a r ↔ (own.expired now = false → Endorsed rt n now a own) := by
  unfold LookupSound
  simp only [Node.resolveIdentity_eq_lookup, or_self, Node.lookup_own h]
  constructor
  · intro hsound hlive
    exact hsound own ⟨rfl, hlive⟩
  · rintro hsound rec ⟨rfl, hlive⟩
    exact hsound hlive

theorem lookupSound_of_none {r : Relay} (heph : isEphemeralAddress a = false)
    (h : r.records.getIdentity rt a = none) : LookupSound rt n now a r := by
  intro rec hrec
  rw [Node.resolveIdentity_eq_lookup, or_self, Node.lookup_eq_ok_iff,
    Node.identityForSource_fleet heph h] at hrec
  exact endorsed_of_resolve heph hrec.1

theorem identityAdmitted_noAuthority {r : Relay} {t : Time} {data : Bytes} {rec : IdentityRecord}
    (hdar : r.records.getDAR rt (domainOf rec.address) = none) :
    IdentityAdmitted rt r t data rec ↔ IdentityRecord.fromProtoBytes rt data = some rec ∧
      rec.verify rt = true ∧ rec.expired t = false ∧ checkRollback rt r.records rec = .ok () := by
  constructor
  · intro h
    exact ⟨h.parsed, h.verified, h.live, h.fresh⟩
  · rintro ⟨hparse, hverify, hlive, hfresh⟩
    exact ⟨hparse, hverify, hlive, checkDomainGates_noAuthority hdar, hfresh⟩

theorem lookupSound_push {r : Relay} {p : Push} (heph : isEphemeralAddress a = false)
    (hdar : r.records.getDAR rt (domainOf a) = none) (h : LookupSound rt n now a r) :
    LookupSound rt n now a (r.push rt anchor p) ↔ Unpoisoned rt n now a r p := by
  -- an admitted record becomes the answer at once, any other push leaves the answer alone
  constructor
  · intro hsound rec hkind hparse haddr hverify hlive hfresh hread
    subst haddr
    have hadm := (identityAdmitted_noAuthority hdar).mpr ⟨hparse, hverify, hlive, hfresh⟩
    have hrecords : (r.push rt anchor p).records = r.records.putIdentity rt rec :=
      (acceptRecord_identity hkind hadm).2
    have hown : (r.push rt anchor p).records.getIdentity rt rec.address = some rec := by
      rw [hrecords, getIdentity_putIdentity hparse]
      exact if_pos rfl
    exact (lookupSound_of_own hown).mp hsound hread
  · intro hclean
    rcases getIdentity_push rt anchor r p a with hkeep | ⟨rec, hkind, hadm, haddr, hown⟩
    · cases hown : r.records.getIdentity rt a with
      | none => exact lookupSound_of_none heph (hkeep.trans hown)
      | some own =>
        exact (lookupSound_of_own (hkeep.trans hown)).mpr ((lookupSound_of_own hown).mp h)
    · refine (lookupSound_of_own hown).mpr ?_
      exact hclean rec hkind hadm.parsed haddr hadm.verified hadm.live hadm.fresh

/-- Over every run of pushes to a serving node that holds no authority record for the address's
domain, the local-first reads of the address stay sound exactly as long as every record pushed for
it, that verifies itself and is not older than the one held, is one its domain stands for. -/
theorem lookups_unpoisoned_iff (anchor : DarAnchor) (n : Node) (now : Time)
    (seeds : List Pb.DomainAuthorityRecord) (ps : List Push) (heph : isEphemeralAddress a = false)
    (hdar : Machine.Throughout (Relay.push rt anchor)
      (fun s => s.records.getDAR rt (domainOf a) = none)
      (seedOwnRecords rt (seeds.map DomainAuthorityRecord.fromProto)) ps) :
    Machine.Throughout (Relay.push rt anchor) (LookupSound rt n now a)
        (seedOwnRecords rt (seeds.map DomainAuthorityRecord.fromProto)) ps ↔
      Machine.Along (Relay.push rt anchor) (Unpoisoned rt n now a)
        (seedOwnRecords rt (seeds.map DomainAuthorityRecord.fromProto)) ps := by
  have hstart :
      LookupSound rt n now a (seedOwnRecords rt (seeds.map DomainAuthorityRecord.fromProto)) :=
    lookupSound_of_none heph (getIdentity_seed rt _ a)
  exact Machine.throughout_iff_along hdar hstart fun s p hs hsound =>
    lookupSound_push heph hs hsound

namespace Shadowed

def authority : Pb.DomainAuthorityRecord := plainAuthority "example.org" 1

def alice : Pb.IdentityRecord := plainRecord "alice@example.org" 2

def forged : Pb.IdentityRecord :=
  { plainRecord "alice@example.org" 9 with
    addressCredential := some (plainCredential "example.org" "mallory@example.org" "address" 9 9) }

def genuine : IdentityRecord := .ofMessage alice []
def intruder : IdentityRecord := .ofMessage forged []
def dar : DomainAuthorityRecord := .fromProto authority

noncomputable def log : List (Bytes × Bytes) :=
  [(keyOf 2, Ctx.identitySelf.tag ++ genuine.signableBytes (idealRuntime [] [])),
    (keyOf 1, Ctx.darSelf.tag ++ dar.signableBytes (idealRuntime [] []))]

noncomputable def runtime : Runtime := idealRuntime [keyOf 9] log

noncomputable def mrec : DnsRecord := ⟨dar.fingerprint runtime, "", ["seed"]⟩

noncomputable def net : Network where
  resolveDNS := fun _ _ => .ok mrec
  dnsVerify := fun _ _ _ => true
  parseRelayHint := fun _ => some "peer"
  connect := fun _ _ => true
  connected := fun _ => []
  clientGetDAR := fun _ _ _ => some (some (runtime.domainAuthorityRecord.marshal authority))
  clientGetIdentity := fun _ _ _ => some (some (runtime.identityRecord.marshal alice))
  clientGetRemoval := fun _ _ _ => some none
  clientGetBlocklist := fun _ _ _ => some none

noncomputable def node : Node := ⟨"host", fun _ => none, [], net, none⟩

noncomputable def push (pb : Pb.IdentityRecord) : Push :=
  ⟨default, .identity, runtime.identityRecord.marshal pb⟩

noncomputable def relay : Relay := seedOwnRecords runtime []

theorem verified_genuine : genuine.verify runtime = true :=
  verifyCtx_idealRuntime.mpr ⟨length_keyOf 2, by simp, .inr (List.mem_cons_self ..)⟩

theorem verified_intruder : intruder.verify runtime = true :=
  IdentityRecord.verify_idealRuntime (List.mem_singleton.mpr rfl) (length_keyOf 9)

theorem fingerprint_ne : dar.fingerprint runtime ≠ "" := by
  decide

theorem resolve_node (now : Time) : node.resolve runtime now "alice@example.org" = .ok genuine := by
  have hanchored : Node.verifyDAR runtime dar mrec = true :=
    verifyDAR_signed (length_keyOf 1) (List.mem_cons_of_mem _ (List.mem_cons_self ..)) (by decide)
  have hseed : AnchoredSeed runtime node now "alice@example.org" mrec "seed" "peer" dar :=
    ⟨rfl, ⟨_, rfl, DomainAuthorityRecord.fromProtoBytes_marshal runtime authority⟩, hanchored⟩
  have hverdict : verifyManagedRecord runtime genuine dar none none now = .ok tierUnverified :=
    verifyManagedRecord_uncredentialed verified_genuine (by decide) (by decide) rfl rfl
  have hserves : ServesRecord runtime node now "alice@example.org" mrec "seed" "peer" dar genuine :=
    ⟨hseed, ⟨_, rfl, IdentityRecord.fromProtoBytes_plain rfl rfl rfl⟩, tierUnverified, hverdict⟩
  exact resolve_only_seed (by decide) (by decide)
    (Node.dnsDiscover_only_seed rfl fingerprint_ne rfl) hserves

/-- No authority record and no companions make the intruder's credential one for alice. -/
theorem not_verified (dar : DomainAuthorityRecord) (blocks : Option CredentialBlockList)
    (removal : Option AddressRemovalRecord) (now : Time) (t : VerificationTier) :
    verifyManagedRecord runtime intruder dar blocks removal now ≠ .ok t := by
  intro h
  obtain ⟨hmatch, -, -⟩ := verifyManagedRecord_credential h rfl
  exact absurd (Credential.matchesRecord_iff.mp hmatch).2.1 (by decide)

theorem getDAR_relay (d : String) : relay.records.getDAR runtime d = none := rfl

variable {pb : Pb.IdentityRecord}

theorem admitted (h : pb = alice ∨ pb = forged) :
    IdentityAdmitted runtime relay default (push pb).data (.ofMessage pb []) := by
  rw [identityAdmitted_noAuthority (getDAR_relay _)]
  have hfresh : ∀ rec, checkRollback runtime relay.records rec = .ok () := by
    intro rec
    rw [checkRollback_eq_ok]
    intro existing hexisting
    cases hexisting
  rcases h with rfl | rfl
  · exact ⟨IdentityRecord.fromProtoBytes_plain rfl rfl rfl, verified_genuine,
      IdentityRecord.not_expired_of_unset rfl, hfresh _⟩
  · exact ⟨IdentityRecord.fromProtoBytes_plain rfl rfl rfl, verified_intruder,
      IdentityRecord.not_expired_of_unset rfl, hfresh _⟩

theorem records_push (h : pb = alice ∨ pb = forged) :
    (relay.push runtime none (push pb)).records = relay.records.putIdentity runtime
      (.ofMessage pb []) :=
  (acceptRecord_identity rfl (admitted h)).2

theorem noDAR_throughout (h : pb = alice ∨ pb = forged) :
    Machine.Throughout (Relay.push runtime none)
      (fun s => s.records.getDAR runtime (domainOf "alice@example.org") = none) relay
      [push pb] := by
  refine ⟨getDAR_relay _, ?_⟩
  change (relay.push runtime none (push pb)).records.getDAR runtime _ = none
  rw [records_push h]
  exact (getDAR_put_of_ne (by decide)).trans (getDAR_relay _)

theorem getIdentity_pushed (h : pb = alice ∨ pb = forged) :
    (relay.push runtime none (push pb)).records.getIdentity runtime "alice@example.org" =
      some (.ofMessage pb []) := by
  rw [records_push h, getIdentity_putIdentity (admitted h).parsed]
  rcases h with rfl | rfl <;> exact if_pos rfl

end Shadowed

/-- A self-signed record pushed by an outsider to a node without the domain's authority record is
what the node answers from then on, while the domain itself answers with alice's. -/
theorem lookup_shadowed_by_outsider :
    Machine.Throughout (Relay.push Shadowed.runtime none)
      (fun s => s.records.getDAR Shadowed.runtime (domainOf "alice@example.org") = none)
      Shadowed.relay [Shadowed.push Shadowed.forged] ∧
    Shadowed.node.resolve Shadowed.runtime default "alice@example.org" = .ok Shadowed.genuine ∧
    (Shadowed.node.serving (Shadowed.relay.push Shadowed.runtime none
      (Shadowed.push Shadowed.forged)).records).lookup Shadowed.runtime default
      "alice@example.org" =
        .ok (some Shadowed.intruder) ∧
    Shadowed.intruder.ed25519Public ≠ Shadowed.genuine.ed25519Public ∧
    (∀ dar blocks removal now t,
      verifyManagedRecord Shadowed.runtime Shadowed.intruder dar blocks removal now ≠ .ok t) ∧
    ¬ Machine.Throughout (Relay.push Shadowed.runtime none)
      (LookupSound Shadowed.runtime Shadowed.node default "alice@example.org") Shadowed.relay
      [Shadowed.push Shadowed.forged] := by
  have hown := Shadowed.getIdentity_pushed (.inr rfl)
  have hlive : Shadowed.intruder.expired default = false := IdentityRecord.not_expired_of_unset rfl
  refine ⟨Shadowed.noDAR_throughout (.inr rfl), Shadowed.resolve_node default,
    (Node.lookup_own hown).mpr ⟨rfl, hlive⟩, by decide, Shadowed.not_verified, ?_⟩
  rintro ⟨-, hsound⟩
  have hendorsed := (lookupSound_of_own hown).mp hsound hlive
  obtain ⟨own, hresolve, hkey⟩ := hendorsed.resolve (by decide)
  cases (Shadowed.resolve_node default).symm.trans hresolve
  exact absurd hkey (by decide)

theorem lookup_sound_with_alice :
    Machine.Throughout (Relay.push Shadowed.runtime none)
      (LookupSound Shadowed.runtime Shadowed.node default "alice@example.org") Shadowed.relay
      [Shadowed.push Shadowed.alice] := by
  have hclean : Machine.Along (Relay.push Shadowed.runtime none)
      (Unpoisoned Shadowed.runtime Shadowed.node default "alice@example.org") Shadowed.relay
      [Shadowed.push Shadowed.alice] := by
    refine ⟨?_, trivial⟩
    intro rec _ hparse _ _ _ _ _
    cases (Shadowed.admitted (.inl rfl)).parsed.symm.trans hparse
    exact endorsed_of_resolve (by decide) (Shadowed.resolve_node default)
  exact (lookups_unpoisoned_iff none Shadowed.node default [] _ (by decide)
    (Shadowed.noDAR_throughout (.inl rfl))).mpr hclean

end Dmcn
