import OpenDmcn.Node.Fanout
import OpenDmcn.Relay.Invariant
import OpenDmcn.IdealRuntime

/-! The recovery ceremony (`dmcndcli remove-address`). The operator, on a machine that holds the
root key and no records, rebuilds the removal of an address from what the daemon serves, adds the
key to be retired and pushes the result. -/

namespace Dmcn

open Go Guard RecordStore

variable {rt : Runtime} {anchor : DarAnchor}

inductive CeremonyOutcome where
  | invalidAddress
  | alreadyTombstoned (revision : UInt64)
  | notPublished
  | tombstoned (revision : UInt64)
  deriving DecidableEq

/-- The record to be signed: the union with its revision advanced or, where there is no union, a
fresh record; in both cases with the victim appended. -/
def nextRemoval (union : Option AddressRemovalRecord) (now : Time) (address : String)
    (victim : Bytes) : Except CeremonyOutcome AddressRemovalRecord :=
  match union with
  | none =>
    match AddressRemovalRecord.new (domainOf address) address now with
    | none => .error .invalidAddress
    | some rm => .ok { rm with removedBindings := rm.removedBindings ++ [⟨victim, now⟩] }
  | some rm =>
    if (rm.removed victim).isSome then .error (.alreadyTombstoned rm.revision)
    else .ok { rm with
      revision := rm.revision + 1
      createdAt := now
      removedBindings := rm.removedBindings ++ [⟨victim, now⟩] }

theorem nextRemoval_none (now : Time) (address : String) (victim : Bytes) :
    nextRemoval none now address victim =
      match AddressRemovalRecord.new (domainOf address) address now with
      | none => .error .invalidAddress
      | some rm => .ok { rm with removedBindings := rm.removedBindings ++ [⟨victim, now⟩] } := by
  rw [nextRemoval.eq_def]

theorem nextRemoval_some (rm : AddressRemovalRecord) (now : Time) (address : String)
    (victim : Bytes) :
    nextRemoval (some rm) now address victim =
      if (rm.removed victim).isSome then .error (.alreadyTombstoned rm.revision)
      else .ok { rm with
        revision := rm.revision + 1
        createdAt := now
        removedBindings := rm.removedBindings ++ [⟨victim, now⟩] } := rfl

def publishRemoval (rt : Runtime) (now : Time) (rm : AddressRemovalRecord) : Push :=
  ⟨now, .removal, rt.addressRemovalRecord.marshal rm.toProto⟩

/-- `cmdRemoveAddress` against one daemon, under the authority record the operator looked up. The
operator's node is a client: it has no record store of its own. -/
def cmdRemoveAddress (rt : Runtime) (anchor : DarAnchor) (daemon : Relay)
    (dar : DomainAuthorityRecord) (root : Bytes) (now : Time) (address : String) (victim : Bytes) :
    CeremonyOutcome × Relay :=
  if domainOf address = "" then (.invalidAddress, daemon)
  else
    let union :=
      fetchRemovalUnion rt none [handleGetRemoval (some daemon.records) address] dar address now
    match nextRemoval union now address victim with
    | .error outcome => (outcome, daemon)
    | .ok rm =>
      match acceptRecord rt anchor daemon (publishRemoval rt now (rm.sign rt root)) with
      | (daemon, .ok ()) => (.tombstoned rm.revision, daemon)
      | (daemon, .error _) => (.notPublished, daemon)

structure WellFormed (a : String) : Prop where
  domain : validateDomain (domainOf a) = true
  address : validateAddress a = true

variable {a : String}

theorem new_eq_none {now : Time} (h : ¬ WellFormed a) :
    AddressRemovalRecord.new (domainOf a) a now = none := by
  unfold AddressRemovalRecord.new
  by_cases hdomain : validateDomain (domainOf a) = true
  · have haddress : validateAddress a = false := by
      rw [Bool.eq_false_iff]
      exact fun haddress => h ⟨hdomain, haddress⟩
    simp [hdomain, haddress]
  · simp [hdomain]

theorem new_eq_some (h : WellFormed a) (now : Time) :
    AddressRemovalRecord.new (domainOf a) a now = some {
      version := 1, domain := domainOf a, address := a, removedBindings := [], revision := 1
      createdAt := now, selfSignature := Fixed.zero 64 } := by
  simp [AddressRemovalRecord.new, h.domain, h.address]

theorem WellFormed.domain_ne (h : WellFormed a) : domainOf a ≠ "" := by
  intro hempty
  have hdomain := h.domain
  rw [hempty] at hdomain
  cases hdomain

theorem WellFormed.address_ne (h : WellFormed a) : a ≠ "" := by
  rintro rfl
  exact h.domain_ne (by decide)

theorem fetchRemovalUnion_daemon {rs : RecordStore} {dar : DomainAuthorityRecord} {now : Time}
    (hne : domainOf a ≠ "") :
    fetchRemovalUnion rt none [handleGetRemoval (some rs) a] dar a now =
      mergeRemovalCandidates rt dar none (domainOf a) a (rs.storedRemovalAny rt a).toList now := by
  -- a client has no store of its own, so the daemon's reply is the only candidate
  unfold fetchRemovalUnion storedRemovalAny handleGetRemoval getRemovalBytes
  simp only [Option.bind_none, Option.bind_some, List.filterMap_cons, List.filterMap_nil]
  cases rs.get .removal a with
  | none => rfl
  | some data =>
    simp only [Option.bind_some]
    by_cases hempty : data = []
    · -- an empty reply names no address, so it is not counted
      have hna : Strings.equalFold rt.unicode "" a = false := by
        rw [Bool.eq_false_iff]
        intro hfold
        have ha := Strings.eq_empty_of_equalFold (Strings.equalFold_symm hfold)
        rw [ha] at hne
        exact hne (by decide)
      have hdefault : AddressRemovalRecord.fromProtoBytes rt [] = some (.fromProto default) := by
        simp [AddressRemovalRecord.fromProtoBytes, Codec.unmarshal_nil]
      have hskip : countsForUnion rt dar none (domainOf a) a (.fromProto default) = false := by
        change (Strings.equalFold rt.unicode "" a && _ && _) = false
        rw [hna]
        rfl
      rw [hempty, hdefault]
      simp [mergeRemovalCandidates, hskip]
    · simp only [List.isEmpty_iff, hempty, if_false]
      cases AddressRemovalRecord.fromProtoBytes rt data with
      | none => rfl
      | some rm => rfl

theorem mergeRemovalCandidates_singleton {dar : DomainAuthorityRecord} {now : Time}
    {rm : AddressRemovalRecord} (haddr : rm.address = a)
    (hdomain : Strings.equalFold rt.unicode rm.domain (domainOf a) = true) :
    mergeRemovalCandidates rt dar none (domainOf a) a [rm] now =
      if removalIsRootSigned rt dar rm then
        (AddressRemovalRecord.new (domainOf a) a now).map fun union =>
          { union with revision := rm.revision, removedBindings := unionBindings [rm] }
      else none := by
  -- without the owner's record at hand only a root's signature counts
  have hcounts : countsForUnion rt dar none (domainOf a) a rm = removalIsRootSigned rt dar rm := by
    simp [countsForUnion, haddr, hdomain]
  unfold mergeRemovalCandidates
  cases hroot : removalIsRootSigned rt dar rm with
  | true => simp [List.filter, hcounts, hroot, maxRevision_singleton]
  | false => simp [List.filter, hcounts, hroot]

def FreedFrom (rt : Runtime) (rs : RecordStore) (dar : DomainAuthorityRecord) (a : String)
    (prev : IdentityRecord) : Prop :=
  ∀ (next : IdentityRecord) (t : Time), next.address = a → next.ed25519Public ≠ prev.ed25519Public →
    authorizeRebind rt (some prev) next (rs.storedRemoval rt dar a) (some dar) t =
      .ok .rootTombstone

theorem freedFrom_of_removal {rs : RecordStore} {dar : DomainAuthorityRecord}
    {prev : IdentityRecord} {rm : AddressRemovalRecord} (hrm : rs.storedRemovalAny rt a = some rm)
    (hroot : removalIsRootSigned rt dar rm = true) (haddr : rm.address = a)
    (hdomain : Strings.equalFold rt.unicode rm.domain dar.domain = true)
    (hkey : prev.ed25519Public ∈ rm.keys) : FreedFrom rt rs dar a prev := by
  intro next t hnext hne
  have hstored : rs.storedRemoval rt dar a = some rm := storedRemoval_eq_some.mpr ⟨hrm, hroot⟩
  have hfree : rebindTombstoneFrees rt prev next rm dar = .ok () := by
    rw [rebindTombstoneFrees_iff, haddr, hnext]
    exact ⟨Strings.equalFold_refl _, hdomain, hroot, hkey⟩
  unfold authorizeRebind
  simp only [hstored, Option.elim_some, hfree, Ne.symm hne, if_false]

section Push

variable {r : Relay} {dar : DomainAuthorityRecord} {root : Bytes} {rm : AddressRemovalRecord}
  {now : Time}

theorem rootSigned_delivered (hroot : AddressRemovalRecord.SignsFor rt root dar.authorityEd25519) :
    removalIsRootSigned rt dar (.fromProto (rm.sign rt root).toProto) = true := by
  refine removalIsRootSigned_iff.mpr ⟨dar.authorityEd25519, List.mem_cons_self .., ?_⟩
  rw [AddressRemovalRecord.verify_fromProto_toProto]
  exact AddressRemovalRecord.verify_sign hroot rm

theorem delivered_parsed : AddressRemovalRecord.fromProtoBytes rt
    (publishRemoval rt now (rm.sign rt root)).data = some (.fromProto (rm.sign rt root).toProto) :=
  AddressRemovalRecord.fromProtoBytes_marshal rt _

theorem delivered_keys :
    (AddressRemovalRecord.fromProto (rm.sign rt root).toProto).keys = rm.keys :=
  AddressRemovalRecord.keys_fromProto_toProto _

theorem delivered_admitted (hdar : r.records.getDAR rt rm.domain = some dar)
    (hroot : AddressRemovalRecord.SignsFor rt root dar.authorityEd25519)
    (hdomain : rm.domain = domainOf rm.address) (hne : rm.domain ≠ "") (hna : rm.address ≠ "") :
    RemovalAdmitted rt r.records (publishRemoval rt now (rm.sign rt root)).data
        (.fromProto (rm.sign rt root).toProto) dar ↔
      ∀ held, r.records.storedRemovalAny rt rm.address = some held →
        held.revision ≤ rm.revision ∧ held.keys ⊆ rm.keys := by
  have hsigned : removalIsRootSigned rt dar (.fromProto (rm.sign rt root).toProto) = true :=
    rootSigned_delivered hroot
  constructor
  · intro h held hheld
    obtain ⟨-, hrev, hkeys⟩ := h.succeeds held hheld
    exact ⟨hrev, by rwa [delivered_keys] at hkeys⟩
  · intro h
    refine ⟨delivered_parsed, hna, hne, ?_, hdar, .inl hsigned, ?_⟩
    · change Strings.equalFold rt.unicode rm.domain (domainOf rm.address) = true
      rw [← hdomain]
      exact Strings.equalFold_refl _
    · intro held hheld
      obtain ⟨hrev, hkeys⟩ := h held hheld
      exact ⟨fun _ => hsigned, hrev, by rwa [delivered_keys]⟩

def Follows (rt : Runtime) (rs : RecordStore) (rm : AddressRemovalRecord) : Prop :=
  ∀ held, rs.storedRemovalAny rt rm.address = some held →
    held.revision ≤ rm.revision ∧ held.keys ⊆ rm.keys

theorem published_iff (hdar : r.records.getDAR rt rm.domain = some dar)
    (hroot : AddressRemovalRecord.SignsFor rt root dar.authorityEd25519)
    (hdomain : rm.domain = domainOf rm.address) (hne : rm.domain ≠ "") (hna : rm.address ≠ "") :
    (acceptRecord rt anchor r (publishRemoval rt now (rm.sign rt root))).2 = .ok () ↔
      Follows rt r.records rm := by
  rw [acceptRecord_removal_iff rfl]
  have hadm : RemovalAdmitted rt r.records (publishRemoval rt now (rm.sign rt root)).data
      (.fromProto (rm.sign rt root).toProto) dar ↔ Follows rt r.records rm :=
    delivered_admitted hdar hroot hdomain hne hna
  rw [← hadm]
  constructor
  · rintro ⟨rm', dar', h⟩
    cases delivered_parsed.symm.trans h.parsed
    cases hdar.symm.trans h.authority
    exact h
  · exact fun h => ⟨_, _, h⟩

theorem refused_removal_keeps_relay {p : Push} {e : Refusal} (hkind : p.kind = .removal)
    (h : (acceptRecord rt anchor r p).2 = .error e) : r.push rt anchor p = r := by
  simp only [Relay.push, acceptRecord, hkind] at h ⊢
  cases hresult : acceptRemoval rt r.records p.data with
  | ok rs =>
    rw [hresult] at h
    cases h
  | error e' => rfl

theorem freedFrom_published {prev : IdentityRecord}
    (hdar : r.records.getDAR rt rm.domain = some dar)
    (hroot : AddressRemovalRecord.SignsFor rt root dar.authorityEd25519)
    (hdomain : rm.domain = domainOf rm.address) (hdar_domain : dar.domain = rm.domain)
    (hne : rm.domain ≠ "") (hna : rm.address ≠ "") (hkey : prev.ed25519Public ∈ rm.keys)
    (hfollows : Follows rt r.records rm) :
    FreedFrom rt (r.push rt anchor (publishRemoval rt now (rm.sign rt root))).records dar rm.address
      prev := by
  have hadm : RemovalAdmitted rt r.records (publishRemoval rt now (rm.sign rt root)).data
      (.fromProto (rm.sign rt root).toProto) dar :=
    (delivered_admitted hdar hroot hdomain hne hna).mpr hfollows
  have hrecords : (r.push rt anchor (publishRemoval rt now (rm.sign rt root))).records =
      r.records.putRemoval rt (.fromProto (rm.sign rt root).toProto) :=
        (acceptRecord_removal rfl hadm).2
  have hsigned : removalIsRootSigned rt dar (.fromProto (rm.sign rt root).toProto) = true :=
    rootSigned_delivered hroot
  have hparse := AddressRemovalRecord.fromProtoBytes_marshal rt (rm.sign rt root).toProto
  refine freedFrom_of_removal ?_ hsigned rfl ?_ ?_
  · rw [hrecords, storedRemovalAny_putRemoval hparse hna]
    exact if_pos rfl
  · change Strings.equalFold rt.unicode rm.domain dar.domain = true
    rw [hdar_domain]
    exact Strings.equalFold_refl _
  · rw [delivered_keys]
    exact hkey

end Push

def CeremonyOutcome.Succeeded : CeremonyOutcome → Prop
  | .alreadyTombstoned _ => True
  | .tombstoned _ => True
  | .invalidAddress => False
  | .notPublished => False

/-- The ceremony reports success, or that there is nothing to do, and leaves the daemon holding a
removal that frees the address of its key. -/
structure CeremonyWorks (rt : Runtime) (anchor : DarAnchor) (daemon : Relay)
    (dar : DomainAuthorityRecord) (root : Bytes) (now : Time) (a : String) (prev : IdentityRecord) :
    Prop where
  reported : (cmdRemoveAddress rt anchor daemon dar root now a prev.ed25519Public).1.Succeeded
  freed : FreedFrom rt
    (cmdRemoveAddress rt anchor daemon dar root now a prev.ed25519Public).2.records
    dar a prev

section Ceremony

variable {r : Relay} {dar : DomainAuthorityRecord} {root : Bytes} {now : Time} {a : String}
  {prev : IdentityRecord}

theorem not_works_of_malformed (h : ¬ WellFormed a) :
    ¬ CeremonyWorks rt anchor r dar root now a prev := by
  intro hworks
  have hreported := hworks.reported
  unfold cmdRemoveAddress at hreported
  by_cases hne : domainOf a = ""
  · rw [if_pos hne] at hreported
    exact hreported
  · have hunion : fetchRemovalUnion rt none [handleGetRemoval (some r.records) a] dar a now =
        none := by
      rw [fetchRemovalUnion_daemon hne]
      unfold mergeRemovalCandidates
      rw [new_eq_none h]
      simp
    simp only [hne, if_false, hunion, nextRemoval_none, new_eq_none h] at hreported
    exact hreported

variable {rm : AddressRemovalRecord}

theorem cmdRemoveAddress_of_next (hwf : WellFormed a)
    (hdar : r.records.getDAR rt (domainOf a) = some dar)
    (hroot : AddressRemovalRecord.SignsFor rt root dar.authorityEd25519)
    (hnext : nextRemoval (fetchRemovalUnion rt none [handleGetRemoval (some r.records) a] dar a now)
      now a prev.ed25519Public = .ok rm)
    (haddr : rm.address = a) (hdomain : rm.domain = domainOf a) :
    (Follows rt r.records rm → cmdRemoveAddress rt anchor r dar root now a prev.ed25519Public =
      (.tombstoned rm.revision, r.push rt anchor (publishRemoval rt now (rm.sign rt root)))) ∧
    (¬ Follows rt r.records rm → cmdRemoveAddress rt anchor r dar root now a prev.ed25519Public =
      (.notPublished, r)) := by
  subst haddr
  have hna : rm.address ≠ "" := hwf.address_ne
  have hdar' : r.records.getDAR rt rm.domain = some dar := by rw [hdomain]; exact hdar
  have hne : rm.domain ≠ "" := by rw [hdomain]; exact hwf.domain_ne
  have hpub : (acceptRecord rt anchor r (publishRemoval rt now (rm.sign rt root))).2 = .ok () ↔
      Follows rt r.records rm := published_iff hdar' hroot hdomain hne hna
  have hcmd : cmdRemoveAddress rt anchor r dar root now rm.address prev.ed25519Public =
      match acceptRecord rt anchor r (publishRemoval rt now (rm.sign rt root)) with
      | (daemon, .ok ()) => (.tombstoned rm.revision, daemon)
      | (daemon, .error _) => (.notPublished, daemon) := by
    unfold cmdRemoveAddress
    rw [if_neg hwf.domain_ne]
    simp only [hnext]
  have hrefused : ∀ e, (acceptRecord rt anchor r (publishRemoval rt now (rm.sign rt root))).2 =
      .error e →
      r.push rt anchor (publishRemoval rt now (rm.sign rt root)) = r :=
    fun e he => refused_removal_keeps_relay rfl he
  rw [hcmd, ← hpub]
  unfold Relay.push at hrefused ⊢
  generalize acceptRecord rt anchor r (publishRemoval rt now (rm.sign rt root)) = result at hrefused
  obtain ⟨daemon, verdict⟩ := result
  cases verdict with
  | ok u => exact ⟨fun _ => rfl, fun h => absurd rfl h⟩
  | error e =>
    cases hrefused e rfl
    exact ⟨fun h => (nomatch h), fun _ => rfl⟩

theorem works_iff_follows (hwf : WellFormed a) (hdar : r.records.getDAR rt (domainOf a) = some dar)
    (hdar_domain : dar.domain = domainOf a)
    (hroot : AddressRemovalRecord.SignsFor rt root dar.authorityEd25519)
    (hnext : nextRemoval (fetchRemovalUnion rt none [handleGetRemoval (some r.records) a] dar a now)
      now a prev.ed25519Public = .ok rm)
    (haddr : rm.address = a) (hdomain : rm.domain = domainOf a)
    (hkey : prev.ed25519Public ∈ rm.keys) :
    CeremonyWorks rt anchor r dar root now a prev ↔ Follows rt r.records rm := by
  obtain ⟨hpublished, hrefused⟩ : (Follows rt r.records rm → _) ∧ (¬ Follows rt r.records rm → _) :=
    cmdRemoveAddress_of_next hwf hdar hroot hnext haddr hdomain
  constructor
  · intro hworks
    by_contra hnot
    have hreported := hworks.reported
    rw [hrefused hnot] at hreported
    exact hreported
  · intro hfollows
    refine ⟨?_, ?_⟩
    · rw [hpublished hfollows]
      trivial
    · rw [hpublished hfollows]
      subst haddr
      exact freedFrom_published (by rw [hdomain]; exact hdar) hroot hdomain
        (hdar_domain.trans hdomain.symm)
        (by rw [hdomain]; exact hwf.domain_ne) hwf.address_ne hkey hfollows

/-- What the ceremony can do with the removal it meets. A root-signed one is in the union, and the
ceremony needs the key listed or a revision left to advance to. Any other is not, and what is pushed
is a record at revision 1 with the one key. -/
def AddressRemovalRecord.Extendable (rt : Runtime) (dar : DomainAuthorityRecord) (key : Bytes)
    (rm : AddressRemovalRecord) : Prop :=
  if removalIsRootSigned rt dar rm then key ∈ rm.keys ∨ rm.revision ≠ 18446744073709551615
  else rm.revision ≤ 1 ∧ rm.keys ⊆ [key]

theorem le_succ_revision_iff (rev : UInt64) : rev ≤ rev + 1 ↔ rev ≠ 18446744073709551615 := by
  rw [UInt64.le_iff_toNat_le, UInt64.toNat_add, Ne, ← UInt64.toNat_inj]
  have hlt := UInt64.toNat_lt rev
  simp only [UInt64.toNat_ofNat]
  omega

theorem works_iff_of_no_union (hwf : WellFormed a)
    (hdar : r.records.getDAR rt (domainOf a) = some dar) (hdar_domain : dar.domain = domainOf a)
    (hroot : AddressRemovalRecord.SignsFor rt root dar.authorityEd25519)
    (hunion : fetchRemovalUnion rt none [handleGetRemoval (some r.records) a] dar a now = none) :
    CeremonyWorks rt anchor r dar root now a prev ↔
      ∀ rm, r.records.storedRemovalAny rt a = some rm →
        rm.revision ≤ 1 ∧ rm.keys ⊆ [prev.ed25519Public] := by
  have hnext :
      nextRemoval (fetchRemovalUnion rt none [handleGetRemoval (some r.records) a] dar a now)
      now a prev.ed25519Public = .ok {
        version := 1, domain := domainOf a, address := a
        removedBindings := [⟨prev.ed25519Public, now⟩], revision := 1
        createdAt := now, selfSignature := Fixed.zero 64 } := by
    rw [hunion]
    simp only [nextRemoval_none, new_eq_some hwf, List.nil_append]
  exact works_iff_follows hwf hdar hdar_domain hroot hnext rfl rfl (List.mem_singleton.mpr rfl)

def rebuilt (a : String) (now : Time) (rm : AddressRemovalRecord) : AddressRemovalRecord where
  version := 1
  domain := domainOf a
  address := a
  removedBindings := unionBindings [rm]
  revision := rm.revision
  createdAt := now
  selfSignature := Fixed.zero 64

theorem mem_keys_rebuilt {key : Bytes} :
    key ∈ (rebuilt a now rm).keys ↔ key ∈ rm.keys := by
  change key ∈ (unionBindings [rm]).map RemovedBinding.ed25519Public ↔ _
  rw [mem_keys_unionBindings]
  simp

theorem union_eq (hwf : WellFormed a) (hrm : r.records.storedRemovalAny rt a = some rm)
    (haddr : rm.address = a)
    (hdomain : Strings.equalFold rt.unicode rm.domain (domainOf a) = true) :
    fetchRemovalUnion rt none [handleGetRemoval (some r.records) a] dar a now =
      if removalIsRootSigned rt dar rm then some (rebuilt a now rm) else none := by
  rw [fetchRemovalUnion_daemon hwf.domain_ne, hrm, Option.toList_some,
    mergeRemovalCandidates_singleton haddr hdomain, new_eq_some hwf]
  rfl

theorem works_of_listed (hwf : WellFormed a) (hdar_domain : dar.domain = domainOf a)
    (hrm : r.records.storedRemovalAny rt a = some rm) (haddr : rm.address = a)
    (hdomain : Strings.equalFold rt.unicode rm.domain (domainOf a) = true)
    (hunion : fetchRemovalUnion rt none [handleGetRemoval (some r.records) a] dar a now =
      some (rebuilt a now rm))
    (hsigned : removalIsRootSigned rt dar rm = true) (hkey : prev.ed25519Public ∈ rm.keys) :
    CeremonyWorks rt anchor r dar root now a prev := by
  have hlisted : ((rebuilt a now rm).removed prev.ed25519Public).isSome = true :=
    AddressRemovalRecord.removed_isSome.mpr (mem_keys_rebuilt.mpr hkey)
  have hresult : cmdRemoveAddress rt anchor r dar root now a prev.ed25519Public =
      (.alreadyTombstoned rm.revision, r) := by
    unfold cmdRemoveAddress
    rw [if_neg hwf.domain_ne]
    simp only [hunion, nextRemoval_some, hlisted, if_true]
    rfl
  refine ⟨?_, ?_⟩
  · rw [hresult]
    trivial
  · rw [hresult]
    exact freedFrom_of_removal hrm hsigned haddr (by rw [hdar_domain]; exact hdomain) hkey

theorem works_iff_of_unlisted (hwf : WellFormed a)
    (hdar : r.records.getDAR rt (domainOf a) = some dar) (hdar_domain : dar.domain = domainOf a)
    (hroot : AddressRemovalRecord.SignsFor rt root dar.authorityEd25519)
    (hrm : r.records.storedRemovalAny rt a = some rm)
    (hunion : fetchRemovalUnion rt none [handleGetRemoval (some r.records) a] dar a now =
      some (rebuilt a now rm))
    (hkey : prev.ed25519Public ∉ rm.keys) :
    CeremonyWorks rt anchor r dar root now a prev ↔ rm.revision ≠ 18446744073709551615 := by
  -- the revision wraps at 2^64, and a wrapped one is older than the one held
  have hlisted : ((rebuilt a now rm).removed prev.ed25519Public).isSome = false := by
    rw [Bool.eq_false_iff, Ne, AddressRemovalRecord.removed_isSome, mem_keys_rebuilt]
    exact hkey
  have hnext :
      nextRemoval (fetchRemovalUnion rt none [handleGetRemoval (some r.records) a] dar a now)
      now a prev.ed25519Public = .ok { rebuilt a now rm with
        revision := rm.revision + 1
        removedBindings := unionBindings [rm] ++ [⟨prev.ed25519Public, now⟩] } := by
    rw [hunion]
    simp only [nextRemoval_some, hlisted, Bool.false_eq_true, if_false]
    rfl
  have hkeys : ({ rebuilt a now rm with
      revision := rm.revision + 1
      removedBindings := unionBindings [rm] ++ [⟨prev.ed25519Public, now⟩] } :
        AddressRemovalRecord).keys =
        (rebuilt a now rm).keys ++ [prev.ed25519Public] := by
    simp [AddressRemovalRecord.keys, rebuilt]
  have hmem : prev.ed25519Public ∈ (rebuilt a now rm).keys ++ [prev.ed25519Public] :=
    List.mem_append_right _ (List.mem_singleton.mpr rfl)
  rw [works_iff_follows hwf hdar hdar_domain hroot hnext rfl rfl (by rw [hkeys]; exact hmem),
    ← le_succ_revision_iff]
  constructor
  · exact fun h => (h rm hrm).1
  · intro hrev held hheld
    cases hrm.symm.trans hheld
    refine ⟨hrev, ?_⟩
    rw [hkeys]
    exact fun key hmem => List.mem_append_left _ (mem_keys_rebuilt.mpr hmem)

end Ceremony

/-- At every reachable state of the daemon and for every incumbent, the ceremony works exactly when
the address is well formed and the removal met, if any, can be extended. -/
theorem recovery_ceremony_works_iff {r : Relay} {dar : DomainAuthorityRecord} {root : Bytes}
    {a : String} (now : Time) (prev : IdentityRecord) (hreach : r.Reachable rt anchor)
    (hdar : r.records.getDAR rt (domainOf a) = some dar)
    (hroot : AddressRemovalRecord.SignsFor rt root dar.authorityEd25519) :
    CeremonyWorks rt anchor r dar root now a prev ↔ WellFormed a ∧
      ∀ rm, r.records.storedRemovalAny rt a = some rm →
      rm.Extendable rt dar prev.ed25519Public := by
  by_cases hwf : WellFormed a
  swap
  · simp only [hwf, false_and, iff_false]
    exact not_works_of_malformed hwf
  simp only [hwf, true_and]
  have hdar_domain := hreach.filed.dar _ dar hdar
  cases hrm : r.records.storedRemovalAny rt a with
  | none =>
    have hunion : fetchRemovalUnion rt none [handleGetRemoval (some r.records) a] dar a now =
        none := by
      rw [fetchRemovalUnion_daemon hwf.domain_ne, hrm]
      rfl
    rw [works_iff_of_no_union hwf hdar hdar_domain hroot hunion, hrm]
    simp
  | some rm =>
    have haddr := hreach.filed.removal a rm hrm
    have hdomain := (hreach.removal_domain a rm hrm).2
    have hunion : fetchRemovalUnion rt none [handleGetRemoval (some r.records) a] dar a now =
      if removalIsRootSigned rt dar rm then some (rebuilt a now rm) else none :=
        union_eq hwf hrm haddr hdomain
    simp only [Option.some.injEq, forall_eq', AddressRemovalRecord.Extendable]
    cases hsigned : removalIsRootSigned rt dar rm with
    | false =>
      rw [hsigned] at hunion
      rw [works_iff_of_no_union hwf hdar hdar_domain hroot hunion, hrm]
      simp
    | true =>
      rw [hsigned] at hunion
      simp only [if_true]
      by_cases hkey : prev.ed25519Public ∈ rm.keys
      · have hworks : CeremonyWorks rt anchor r dar root now a prev :=
          works_of_listed hwf hdar_domain hrm haddr hdomain hunion hsigned hkey
        simp [hworks, hkey]
      · rw [works_iff_of_unlisted hwf hdar hdar_domain hroot hrm hunion hkey]
        simp [hkey]

namespace Recovery

def mark (key : Bytes) : Bytes := key ++ List.replicate 32 0

noncomputable def runtime : Runtime :=
  { idealRuntime [] [] with
    ed25519Sign := fun priv _ => mark priv
    ed25519Verify := fun pub _ sig => sig == mark pub }

def authority : Pb.DomainAuthorityRecord := plainAuthority "example.org" 1

def record : Pb.IdentityRecord :=
  { plainRecord "alice@example.org" 2 with selfSignature := mark (keyOf 2) }

def removal : Pb.AddressRemovalRecord :=
  { plainRemoval "example.org" "alice@example.org" [2] 5 with selfSignature := mark (keyOf 2) }

noncomputable def seeded : Relay := seedOwnRecords runtime [.fromProto authority]

noncomputable def pushRecord : Push :=
  ⟨Time.ofUnix 50, .identity, runtime.identityRecord.marshal record⟩

noncomputable def pushRemoval : Push :=
  ⟨Time.ofUnix 60, .removal, runtime.addressRemovalRecord.marshal removal⟩

noncomputable def published : Relay := seeded.push runtime none pushRecord

noncomputable def retired : Relay := published.push runtime none pushRemoval

theorem signsFor (key : UInt8) : AddressRemovalRecord.SignsFor runtime (keyOf key) (keyOf key) := by
  intro message
  simp [Crypto.verify, runtime, mark, Crypto.ed25519PublicKeySize, Crypto.ed25519SignatureSize]

theorem verifyCtx_mark (key signer : UInt8) (ctx : Ctx) (data : Bytes) :
    verifyCtx runtime (keyOf key) ctx data (mark (keyOf signer)) = decide (signer = key) := by
  have hmark : mark (keyOf signer) = mark (keyOf key) ↔ signer = key := by
    simp [mark, keyOf_injective.eq_iff]
  by_cases hkey : signer = key
  · simp [hkey, verifyCtx, Crypto.verify, runtime, mark, Crypto.ed25519PublicKeySize,
      Crypto.ed25519SignatureSize]
  · have hne := mt hmark.mp hkey
    simp [hkey, verifyCtx, Crypto.verify, runtime, hne]

theorem parsed : IdentityRecord.fromProtoBytes runtime pushRecord.data = some
    (.ofMessage record []) :=
  IdentityRecord.fromProtoBytes_plain rfl rfl rfl

theorem records_published : published.records =
    seeded.records.putIdentity runtime (.ofMessage record []) := by
  have hverify : (IdentityRecord.ofMessage record []).verify runtime = true :=
    verifyCtx_mark 2 2 _ _
  have hlive : (IdentityRecord.ofMessage record []).expired pushRecord.now = false :=
    IdentityRecord.not_expired_of_unset rfl
  have hadm : IdentityAdmitted runtime seeded pushRecord.now pushRecord.data
      (.ofMessage record []) := by
    refine .genesis parsed hverify hlive (getIdentity_seed _ _ _) ?_
    intro d hd
    obtain rfl := eq_of_getDAR_seed hd
    exact DomainAuthorityRecord.reservesLocalPart_nil rfl
  exact (acceptRecord_identity rfl hadm).2

theorem getDAR_published :
    published.records.getDAR runtime (domainOf "alice@example.org") =
      some (.fromProto authority) := by
  have hdomain : domainOf "alice@example.org" = "example.org" := by decide
  rw [records_published, hdomain]
  exact (getDAR_put_of_ne (by decide)).trans (getDAR_seed_singleton rfl)

theorem getIdentity_published : published.records.getIdentity runtime "alice@example.org" =
    some (.ofMessage record []) := by
  rw [records_published, getIdentity_putIdentity parsed]
  exact if_pos rfl

theorem storedRemovalAny_published :
    published.records.storedRemovalAny runtime "alice@example.org" = none := by
  rw [records_published]
  exact (storedRemovalAny_put_of_ne (by decide)).trans (storedRemovalAny_seed runtime _ _)

theorem reachable_published : published.Reachable runtime none := ⟨[authority], [pushRecord], rfl⟩

theorem records_retired :
    retired.records = published.records.putRemoval runtime (.fromProto removal) := by
  have hsigned : (AddressRemovalRecord.fromProto removal).verify runtime (keyOf 2) = true :=
    verifyCtx_mark 2 2 _ _
  have hadm : RemovalAdmitted runtime published.records pushRemoval.data (.fromProto removal)
      (.fromProto authority) := by
    refine ⟨AddressRemovalRecord.fromProtoBytes_marshal runtime removal,
      by decide, by decide, by decide, getDAR_published, .inr ?_, ?_⟩
    · have haddress : (AddressRemovalRecord.fromProto removal).address = "alice@example.org" := rfl
      unfold ownerSignedBy
      rw [haddress, getIdentity_published]
      have haddr : (AddressRemovalRecord.fromProto removal).address = "alice@example.org" := rfl
      simp only [removalIsOwnerSigned, Bool.and_eq_true]
      exact ⟨⟨rfl, by rw [haddr]; exact Strings.equalFold_refl _⟩, hsigned⟩
    · intro existing hexisting
      cases storedRemovalAny_published.symm.trans hexisting
  exact (acceptRecord_removal rfl hadm).2

theorem getDAR_retired :
    retired.records.getDAR runtime (domainOf "alice@example.org") =
      some (.fromProto authority) := by
  rw [records_retired]
  exact (getDAR_put_of_ne (by decide)).trans getDAR_published

theorem storedRemovalAny_retired :
    retired.records.storedRemovalAny runtime "alice@example.org" = some (.fromProto removal) := by
  have hparse := AddressRemovalRecord.fromProtoBytes_marshal runtime removal
  rw [records_retired, storedRemovalAny_putRemoval hparse (by decide)]
  exact if_pos rfl

theorem not_rootSigned :
    removalIsRootSigned runtime (.fromProto authority) (.fromProto removal) = false := by
  have hunsigned : (AddressRemovalRecord.fromProto removal).verify runtime (keyOf 1) = false :=
    verifyCtx_mark 1 2 _ _
  rw [Bool.eq_false_iff, Ne, removalIsRootSigned_iff]
  rintro ⟨pub, hpub, hverify⟩
  have hroot : pub = keyOf 1 := List.mem_singleton.mp hpub
  rw [hroot, hunsigned] at hverify
  cases hverify

end Recovery

theorem wellFormed_alice : WellFormed "alice@example.org" := ⟨by decide, by decide⟩

/-- Alice's key has published a removal of its own at revision 5. The operator, with the root key,
cannot tombstone it: the push is refused and the daemon is left as it was. -/
theorem ceremony_blocked_by_incumbent :
    (Recovery.retired.Reachable Recovery.runtime none ∧
      Recovery.retired.records.getIdentity Recovery.runtime "alice@example.org" =
        some (.ofMessage Recovery.record []) ∧
      Recovery.retired.records.getDAR Recovery.runtime (domainOf "alice@example.org") =
        some (.fromProto Recovery.authority) ∧
      AddressRemovalRecord.SignsFor Recovery.runtime (keyOf 1)
        (DomainAuthorityRecord.fromProto Recovery.authority).authorityEd25519) ∧
    cmdRemoveAddress Recovery.runtime none Recovery.retired (.fromProto Recovery.authority)
      (keyOf 1) (Time.ofUnix 100) "alice@example.org" (keyOf 2) =
      (.notPublished, Recovery.retired) := by
  have hrm := Recovery.storedRemovalAny_retired
  refine ⟨⟨Recovery.reachable_published.push _, ?_, Recovery.getDAR_retired, Recovery.signsFor 1⟩,
    ?_⟩
  · rw [Recovery.records_retired]
    exact (getIdentity_put_of_ne (by decide)).trans Recovery.getIdentity_published
  have hunion : fetchRemovalUnion Recovery.runtime none
      [handleGetRemoval (some Recovery.retired.records) "alice@example.org"]
      (.fromProto Recovery.authority) "alice@example.org" (Time.ofUnix 100) = none := by
    rw [union_eq wellFormed_alice hrm rfl (by decide), Recovery.not_rootSigned]
    rfl
  have hnext : nextRemoval (fetchRemovalUnion Recovery.runtime none
      [handleGetRemoval (some Recovery.retired.records) "alice@example.org"]
      (.fromProto Recovery.authority) "alice@example.org" (Time.ofUnix 100)) (Time.ofUnix 100)
      "alice@example.org" (IdentityRecord.ofMessage Recovery.record []).ed25519Public = .ok {
        version := 1, domain := domainOf "alice@example.org", address := "alice@example.org"
        removedBindings := [⟨keyOf 2, Time.ofUnix 100⟩], revision := 1
        createdAt := Time.ofUnix 100, selfSignature := Fixed.zero 64 } := by
    rw [hunion]
    simp only [nextRemoval_none, new_eq_some wellFormed_alice, List.nil_append]
    rfl
  refine (cmdRemoveAddress_of_next wellFormed_alice Recovery.getDAR_retired (Recovery.signsFor 1)
    hnext rfl
    rfl).2 ?_
  intro hfollows
  have hstale := (hfollows _ hrm).1
  revert hstale
  decide

theorem ceremony_works_for_alice :
    CeremonyWorks Recovery.runtime none Recovery.published (.fromProto Recovery.authority) (keyOf 1)
      (Time.ofUnix 100) "alice@example.org" (.ofMessage Recovery.record []) := by
  refine (recovery_ceremony_works_iff (Time.ofUnix 100) (.ofMessage Recovery.record [])
    Recovery.reachable_published Recovery.getDAR_published (Recovery.signsFor 1)).mpr
      ⟨wellFormed_alice, ?_⟩
  intro rm hrm
  cases Recovery.storedRemovalAny_published.symm.trans hrm

end Dmcn
