import OpenDmcn.Lib.Interleave
import OpenDmcn.Relay.AntiRollback
import OpenDmcn.Relay.RemovalStore

/-! Pushes served at the same time. Each stream has its own handler, nothing is locked, and a push
is the datastore reads of its handler in their order followed by one `Put`. The handlers below are
those of `Relay.AcceptRecord` with every read of the store made explicit. -/

namespace Dmcn

open Go Guard Interleave RecordStore

abbrev Reading (α : Type) := ExceptT Refusal (Reads (Prefix × String) Bytes) α

/-- A push, with the answer the rotation limiter gives should the handler come to ask it. The
limiter has a lock of its own. -/
structure Submission where
  push : Push
  allowed : Bool

namespace Reading

variable (rt : Runtime)

def getIdentity (address : String) : Reading (Option IdentityRecord) := do
  let data ← read (.identity, address)
  return data.bind (IdentityRecord.fromProtoBytes rt)

def getDAR (domain : String) : Reading (Option DomainAuthorityRecord) := do
  let data ← read (.dar, domain)
  return data.bind (DomainAuthorityRecord.fromProtoBytes rt)

def storedRemovalAny (address : String) : Reading (Option AddressRemovalRecord) := do
  let data ← read (.removal, address)
  return data.bind fun data =>
    if data.isEmpty then none else AddressRemovalRecord.fromProtoBytes rt data

def storedRemoval (dar : DomainAuthorityRecord) (address : String) :
    Reading (Option AddressRemovalRecord) := do
  let rm ← storedRemovalAny rt address
  return rm.filter (removalIsRootSigned rt dar)

def storedBlocklist (dar : DomainAuthorityRecord) (domain : String) :
    Reading (Option CredentialBlockList) := do
  let data ← read (.blocklist, domain)
  return data.bind fun data =>
    if data.isEmpty then none
    else (CredentialBlockList.fromProtoBytes rt data).filter (blocklistIsRootSigned rt dar)

def getHistory (address : String) : Reading (Option AddressHistoryRecord) := do
  let data ← read (.history, address)
  return data.bind fun data =>
    (rt.addressHistoryRecord.unmarshal data).bind AddressHistoryRecord.fromProto

def checkReservedLocalPart (rec : IdentityRecord) (dar : Option DomainAuthorityRecord)
    (now : Time) :
    Reading Unit :=
  match dar with
  | none => pure ()
  | some dar =>
    if !dar.reservesLocalPart rt (localPartOf rec.address) then pure ()
    else do
      let cred ← check (need rec.addressCredential .reservedNeedsCredential)
      check (require (cred.address = rec.address ∧ cred.hasRole roleAddress ∧
        cred.subject = rec.ed25519Public) .reservedMismatch)
      let blocks ← storedBlocklist rt dar dar.domain
      check (wrap .reservedCredential (verifyCredential rt cred (some dar) blocks now))

def gateRemoval (dar : Option DomainAuthorityRecord) (address : String) :
    Reading (Option AddressRemovalRecord) :=
  match dar with
  | none => pure none
  | some dar => storedRemoval rt dar address

def checkKeyContinuity (allowed : Bool) (rec : IdentityRecord) (dar : Option DomainAuthorityRecord)
    (now : Time) : Reading Unit := do
  match ← getIdentity rt rec.address with
  | none => pure ()
  | some prev =>
    let rm ← gateRemoval rt dar rec.address
    check <| match authorizeRebind rt (some prev) rec rm dar now with
      | .ok .ownerRotation => require allowed .tooManyRotations
      | .ok _ => .ok ()
      | .error .unverifiable => .ok ()
      | .error e =>
        .error (if rec.rotationChain.isEmpty then .rebindNeedsRemoval e else .rebindChainRejected e)

def checkDomainGates (allowed : Bool) (rec : IdentityRecord) (now : Time) : Reading Unit :=
  if isEphemeralAddress rec.address then pure ()
  else do
    let dar ← getDAR rt (domainOf rec.address)
    checkReservedLocalPart rt rec dar now
    checkKeyContinuity rt allowed rec dar now

def checkRollback (rec : IdentityRecord) : Reading Unit := do
  match ← getIdentity rt rec.address with
  | none => pure ()
  | some existing =>
    check (refuse (rec.revision < existing.revision)
      (.staleRevision rec.revision existing.revision))
    check (refuse (rec.revision = existing.revision ∧
      (operatorFieldIssuedAt rec).before (operatorFieldIssuedAt existing)) .staleOperatorCredential)

def acceptIdentity (allowed : Bool) (now : Time) (data : Bytes) :
    Reading (Option ((Prefix × String) × Bytes)) := do
  let rec ← check (openIdentity rt now data)
  checkDomainGates rt allowed rec now
  checkRollback rt rec
  return some ((.identity, rec.address), rt.identityRecord.marshal rec.toProto)

def checkDARSuccession (anchor : DarAnchor) (now : Time) (data : Bytes)
    (dar : DomainAuthorityRecord) :
    Reading Unit := do
  match ← getDAR rt dar.domain with
  | some existing =>
    check (require (darAcknowledges dar existing.authorityEd25519) .notAcknowledged)
    check (refuse (dar.revision < existing.revision)
      (.staleRevision dar.revision existing.revision))
    if dar.revision = existing.revision then
      let prior ← read (.dar, dar.domain)
      check (refuse (prior ≠ some data) (.conflictingDAR dar.revision))
  | none =>
    check <| match anchor with
      | some anchor => require (anchor now dar.domain (dar.fingerprint rt)) .darNotAnchored
      | none => .ok ()

def acceptDAR (anchor : DarAnchor) (now : Time) (data : Bytes) :
    Reading (Option ((Prefix × String) × Bytes)) := do
  let dar ← check (need (DomainAuthorityRecord.fromProtoBytes rt data) .parse)
  check (require (dar.verify rt) .selfSignature)
  checkDARSuccession rt anchor now data dar
  return some ((.dar, dar.domain), rt.domainAuthorityRecord.marshal dar.toProto)

def checkRemovalSigner (dar : DomainAuthorityRecord) (rm : AddressRemovalRecord) : Reading Unit :=
  if removalIsRootSigned rt dar rm then pure ()
  else do
    let rec ← getIdentity rt rm.address
    check (require (rec.elim false fun rec => removalIsOwnerSigned rt rec rm) .removalSigner)

def checkRemovalSuccession (dar : DomainAuthorityRecord) (rm : AddressRemovalRecord) :
    Reading Unit := do
  match ← storedRemovalAny rt rm.address with
  | none => pure ()
  | some existing =>
    check (refuse (removalIsRootSigned rt dar rm = false ∧ removalIsRootSigned rt dar existing)
      .ownerDisplacesRoot)
    check (refuse (rm.revision < existing.revision) (.staleRevision rm.revision existing.revision))
    check (require (removalDrops rm existing = 0) (.dropsBindings (removalDrops rm existing)))

def acceptRemoval (data : Bytes) : Reading (Option ((Prefix × String) × Bytes)) := do
  let rm ← check (need (AddressRemovalRecord.fromProtoBytes rt data) .parse)
  check (refuse (rm.address = "" ∨ rm.domain = "") .removalUnnamed)
  check (require (Strings.equalFold rt.unicode rm.domain (domainOf rm.address)) .removalDomain)
  let dar ← getDAR rt rm.domain
  let dar ← check (need dar (.noAuthority rm.domain))
  checkRemovalSigner rt dar rm
  checkRemovalSuccession rt dar rm
  return some ((.removal, rm.address), rt.addressRemovalRecord.marshal rm.toProto)

def acceptBlocklist (data : Bytes) : Reading (Option ((Prefix × String) × Bytes)) := do
  let bl ← check (need (CredentialBlockList.fromProtoBytes rt data) .parse)
  let dar ← getDAR rt bl.domain
  let dar ← check (need dar (.noAuthority bl.domain))
  check (require (blocklistIsRootSigned rt dar bl) .blocklistSigner)
  let existing ← storedBlocklist rt dar bl.domain
  check <| match existing with
    | some existing =>
      refuse (bl.revision < existing.revision) (.staleRevision bl.revision existing.revision)
    | none => .ok ()
  return some ((.blocklist, bl.domain), rt.credentialBlockList.marshal bl.toProto)

def acceptRoster (data : Bytes) : Reading (Option ((Prefix × String) × Bytes)) := do
  let roster ← check (need (FleetRoster.fromProtoBytes rt data) .parse)
  return some ((.roster, roster.fleetDomain), rt.fleetRoster.marshal roster.toProto)

def acceptHistory (data : Bytes) : Reading (Option ((Prefix × String) × Bytes)) := do
  let pb ← check (need (rt.addressHistoryRecord.unmarshal data) .parse)
  let rec ← check (need (AddressHistoryRecord.fromProto pb) .parse)
  check (refuse (rec.address = "" ∨ rec.domain = "") .historyUnnamed)
  let dar ← getDAR rt rec.domain
  check (require dar.isSome (.noAuthority rec.domain))
  let live ← getIdentity rt rec.address
  let live ← check (need live .historyNoIdentity)
  check (wrap .historyInvalid (rec.verify rt))
  let held ← getHistory rt rec.address
  let prior := held.filter fun h => !h.chain.isEmpty
  if (prior.elim false fun p => chainsEqual p.chain rec.chain) then return none
  else
    check (require (prior.elim true fun p => rec.extends_ (some p)) .historyNotExtended)
    check (require (rec.terminal.elim true fun last => last.nextEd25519Public == live.ed25519Public)
      .historyDisagrees)
    return some ((.history, rec.address), rt.addressHistoryRecord.marshal rec.toProto)

def acceptRecord (anchor : DarAnchor) (q : Submission) :
    Reading (Option ((Prefix × String) × Bytes)) :=
  match q.push.kind with
  | .identity => acceptIdentity rt q.allowed q.push.now q.push.data
  | .dar => acceptDAR rt anchor q.push.now q.push.data
  | .removal => acceptRemoval rt q.push.data
  | .history => acceptHistory rt q.push.data
  | .blocklist => acceptBlocklist rt q.push.data
  | .roster => acceptRoster rt q.push.data
  | .unknown => check (.error .unknownKind)

end Reading

/-! Run alone, the handlers are the ones of `Relay.AcceptRecord`. -/

def limiterAnswering (allowed : Bool) : RateLimiter :=
  { RateLimiter.newRotationLimiter with maxPerHour := if allowed then 4 else 0 }

theorem allow_limiterAnswering (allowed : Bool) (now : Time) (sender : String) :
    ((limiterAnswering allowed).allow now sender).2 = allowed := by
  cases allowed with
  | true => rfl
  | false => rfl

def written (rs : RecordStore) : Option ((Prefix × String) × Bytes) → RecordStore
  | none => rs
  | some ((p, id), data) => rs.put p id data

variable {rt : Runtime} {anchor : DarAnchor} {rs : RecordStore}

theorem atomically_getIdentity (a : String) :
    atomically rs.entries (Reading.getIdentity rt a) = .ok (rs.getIdentity rt a) := rfl

theorem atomically_getDAR (d : String) :
    atomically rs.entries (Reading.getDAR rt d) = .ok (rs.getDAR rt d) := rfl

theorem atomically_storedRemovalAny (a : String) :
    atomically rs.entries (Reading.storedRemovalAny rt a) = .ok (rs.storedRemovalAny rt a) := rfl

theorem atomically_storedBlocklist (dar : DomainAuthorityRecord) :
    atomically rs.entries (Reading.storedBlocklist rt dar dar.domain) =
      .ok (rs.storedBlocklist rt dar) := rfl

theorem atomically_checkReservedLocalPart (rec : IdentityRecord)
    (dar : Option DomainAuthorityRecord) (now : Time) :
    atomically rs.entries (Reading.checkReservedLocalPart rt rec dar now) =
      checkReservedLocalPart rt rs rec dar now := by
  cases dar with
  | none => rfl
  | some dar =>
    unfold Reading.checkReservedLocalPart checkReservedLocalPart
    dsimp only
    split
    · rfl
    · simp only [atomically_bind, atomically_check, atomically_storedBlocklist]
      rfl

theorem atomically_checkKeyContinuity (allowed : Bool) (rec : IdentityRecord)
    (dar : Option DomainAuthorityRecord) (now : Time) :
    atomically rs.entries (Reading.checkKeyContinuity rt allowed rec dar now) =
      (checkKeyContinuity rt ⟨rs, limiterAnswering allowed⟩ rec dar now).2 := by
  unfold Reading.checkKeyContinuity checkKeyContinuity
  simp only [atomically_bind, atomically_getIdentity, ok_bind]
  cases rs.getIdentity rt rec.address with
  | none => rfl
  | some prev =>
    have hremoval : atomically rs.entries (Reading.gateRemoval rt dar rec.address) =
        .ok (dar.bind fun dar => rs.storedRemoval rt dar rec.address) := by
      cases dar with
      | none => rfl
      | some dar => rfl
    simp only [atomically_bind, atomically_check, hremoval, ok_bind]
    cases authorizeRebind rt (some prev) rec
      (dar.bind fun dar => rs.storedRemoval rt dar rec.address)
        dar now with
    | ok arm =>
      cases arm with
      | genesis => rfl
      | sameKey => rfl
      | rootTombstone => rfl
      | ownerRotation => simp only [allow_limiterAnswering]
    | error e =>
      cases e with
      | unverifiable => rfl
      | tombstoneRequired why => rfl
      | rotationNotAllowed => rfl
      | chain err => rfl

theorem atomically_checkDomainGates (allowed : Bool) (rec : IdentityRecord) (now : Time) :
    atomically rs.entries (Reading.checkDomainGates rt allowed rec now) =
      (checkDomainGates rt ⟨rs, limiterAnswering allowed⟩ rec now).2 := by
  unfold Reading.checkDomainGates checkDomainGates
  split
  · rfl
  · simp only [atomically_bind, atomically_getDAR, atomically_checkReservedLocalPart,
      atomically_checkKeyContinuity, ok_bind]
    cases checkReservedLocalPart rt rs rec (rs.getDAR rt (domainOf rec.address)) now with
    | ok u => rfl
    | error e => rfl

theorem atomically_checkRollback (rec : IdentityRecord) :
    atomically rs.entries (Reading.checkRollback rt rec) = checkRollback rt rs rec := by
  unfold Reading.checkRollback checkRollback
  simp only [atomically_bind, atomically_getIdentity, ok_bind]
  cases rs.getIdentity rt rec.address with
  | none => rfl
  | some existing => simp only [atomically_bind, atomically_check]

theorem acceptIdentity_eq (allowed : Bool) (now : Time) (data : Bytes) :
    (acceptIdentity rt ⟨rs, limiterAnswering allowed⟩ now data).2 =
      (atomically rs.entries (Reading.acceptIdentity rt allowed now data)).map (written rs) := by
  unfold Reading.acceptIdentity acceptIdentity
  simp only [atomically_bind, atomically_check, atomically_checkDomainGates,
    atomically_checkRollback, atomically_pure]
  cases openIdentity rt now data with
  | error e => rfl
  | ok rec =>
    simp only [ok_bind, map_bind]
    rfl

theorem atomically_checkDARSuccession (now : Time) (data : Bytes) (dar : DomainAuthorityRecord) :
    atomically rs.entries (Reading.checkDARSuccession rt anchor now data dar) =
      checkDARSuccession rt anchor rs now data dar := by
  unfold Reading.checkDARSuccession checkDARSuccession
  simp only [atomically_bind, atomically_getDAR, ok_bind]
  cases rs.getDAR rt dar.domain with
  | none => rfl
  | some existing =>
    simp only [atomically_bind, atomically_check]
    congr 1
    funext _
    congr 1
    funext _
    split
    · next hrev =>
      simp only [atomically_bind, atomically_check, atomically_read, ok_bind, hrev, true_and]
      rfl
    · next hrev =>
      simp only [hrev, false_and]
      rfl

theorem acceptDAR_eq (now : Time) (data : Bytes) : acceptDAR rt anchor rs now data =
    (atomically rs.entries (Reading.acceptDAR rt anchor now data)).map (written rs) := by
  unfold Reading.acceptDAR acceptDAR
  simp only [atomically_bind, atomically_check, atomically_checkDARSuccession, atomically_pure,
    map_bind]
  rfl

theorem atomically_checkRemovalSigner (dar : DomainAuthorityRecord) (rm : AddressRemovalRecord) :
    atomically rs.entries (Reading.checkRemovalSigner rt dar rm) =
      require (removalIsRootSigned rt dar rm ∨ ownerSignedBy rt rs rm) .removalSigner := by
  unfold Reading.checkRemovalSigner ownerSignedBy
  split
  · next hroot => simp [require, hroot]
  · next hroot =>
    simp only [atomically_bind, atomically_check, atomically_getIdentity, ok_bind]
    cases rs.getIdentity rt rm.address with
    | none => simp [require, hroot]
    | some rec =>
      by_cases howner : removalIsOwnerSigned rt rec rm = true
      · simp [require, hroot, howner]
      · simp [require, hroot, howner]

theorem atomically_checkRemovalSuccession (dar : DomainAuthorityRecord)
    (rm : AddressRemovalRecord) :
    atomically rs.entries (Reading.checkRemovalSuccession rt dar rm) =
      checkRemovalSuccession rt rs dar rm := by
  unfold Reading.checkRemovalSuccession checkRemovalSuccession
  simp only [atomically_bind, atomically_storedRemovalAny, ok_bind]
  cases rs.storedRemovalAny rt rm.address with
  | none => rfl
  | some existing => simp only [atomically_bind, atomically_check]

theorem acceptRemoval_eq (data : Bytes) : acceptRemoval rt rs data =
    (atomically rs.entries (Reading.acceptRemoval rt data)).map (written rs) := by
  unfold Reading.acceptRemoval acceptRemoval
  simp only [atomically_bind, atomically_check, atomically_getDAR, atomically_checkRemovalSigner,
    atomically_checkRemovalSuccession, atomically_pure, map_bind, ok_bind]
  rfl

theorem acceptBlocklist_eq (data : Bytes) : acceptBlocklist rt rs data =
    (atomically rs.entries (Reading.acceptBlocklist rt data)).map (written rs) := by
  unfold Reading.acceptBlocklist acceptBlocklist Reading.storedBlocklist
  simp only [atomically_bind, atomically_check, atomically_getDAR, atomically_read, atomically_pure,
    map_bind, ok_bind]
  rfl

theorem acceptRoster_eq (data : Bytes) : acceptRoster rt rs data =
    (atomically rs.entries (Reading.acceptRoster rt data)).map (written rs) := by
  unfold Reading.acceptRoster acceptRoster
  simp only [atomically_bind, atomically_check, atomically_pure, map_bind]
  rfl

theorem acceptHistory_eq (data : Bytes) : acceptHistory rt rs data =
    (atomically rs.entries (Reading.acceptHistory rt data)).map (written rs) := by
  unfold Reading.acceptHistory acceptHistory Reading.getHistory
  simp only [atomically_bind, atomically_check, atomically_getDAR, atomically_getIdentity,
    atomically_read, atomically_pure, map_bind, ok_bind, apply_ite (atomically rs.entries),
    apply_ite (Except.map (written rs))]
  rfl

def handlers (rt : Runtime) (anchor : DarAnchor) (subs : ℕ → Submission) (i : ℕ) :
    Reads (Prefix × String) Bytes (Outcome (Prefix × String) Bytes Refusal) :=
  (Reading.acceptRecord rt anchor (subs i)).run

def sequentially (rt : Runtime) (anchor : DarAnchor) (subs : ℕ → Submission) (rs : RecordStore)
    (i : ℕ) : Relay × Except Refusal Unit :=
  acceptRecord rt anchor ⟨rs, limiterAnswering (subs i).allowed⟩ (subs i).push

def afterwards (rt : Runtime) (anchor : DarAnchor) (subs : ℕ → Submission) (rs : RecordStore)
    (i : ℕ) :
    RecordStore :=
  (sequentially rt anchor subs rs i).1.records

/-- The store is the one the pushes of `order` lead to one after the other; they are the accepted
pushes, and each is accepted when its turn comes. -/
structure SequentialBy (rt : Runtime) (anchor : DarAnchor) (subs : ℕ → Submission)
    (rs : RecordStore) (order : List ℕ) (c : Pool (Prefix × String) Bytes Refusal) : Prop where
  nodup : order.Nodup
  accepted : ∀ i, i ∈ order ↔ ∃ w, c.threads i = .finished (.ok w)
  store : c.store = (Machine.run (afterwards rt anchor subs) rs order).entries
  verdict : ∀ before i after, order = before ++ i :: after →
    (sequentially rt anchor subs (Machine.run (afterwards rt anchor subs) rs before) i).2 = .ok ()

def SequentiallyExplained (rt : Runtime) (anchor : DarAnchor) (subs : ℕ → Submission)
    (rs : RecordStore) (sched : List ℕ) : Prop :=
  ∃ order, ∀ js, js <+: sched → ∃ done, done <+: order ∧ SequentialBy rt anchor subs rs done
    (Machine.run Pool.step (Pool.start rs.entries (handlers rt anchor subs)) js)

/-- No record held is dropped, or replaced by a lower revision; no tombstone loses a binding. -/
structure Succession (rt : Runtime) (old new : RecordStore) : Prop where
  identity : ∀ a rec, old.getIdentity rt a = some rec →
    ∃ rec', new.getIdentity rt a = some rec' ∧ standing rec ≤ standing rec'
  dar : ∀ d dar, old.getDAR rt d = some dar →
    ∃ dar', new.getDAR rt d = some dar' ∧ dar.revision ≤ dar'.revision
  removal : ∀ a rm, old.storedRemovalAny rt a = some rm →
    ∃ rm', new.storedRemovalAny rt a = some rm' ∧ rm.revision ≤ rm'.revision ∧ rm.keys ⊆ rm'.keys

theorem Succession.refl (rs : RecordStore) : Succession rt rs rs where
  identity _ rec h := ⟨rec, h, le_rfl⟩
  dar _ dar h := ⟨dar, h, UInt64.le_refl _⟩
  removal _ rm h := ⟨rm, h, UInt64.le_refl _, List.Subset.refl _⟩

theorem succession_push (r : Relay) (p : Push) :
    Succession rt r.records (r.push rt anchor p).records where
  identity := by
    intro a rec hrec
    rcases getIdentity_push rt anchor r p a with hkeep | ⟨rec', -, hadm, rfl, hnew⟩
    · exact ⟨rec, hkeep.trans hrec, le_rfl⟩
    · have hfresh := checkRollback_iff_notOlder.mp hadm.fresh rec hrec
      exact ⟨rec', hnew, notOlder_iff_standing_le.mp hfresh⟩
  dar := by
    intro d dar hdar
    rcases getDAR_push rt anchor r p d with hkeep | ⟨dar', -, hadm, rfl, hnew⟩
    · exact ⟨dar, hkeep.trans hdar, UInt64.le_refl _⟩
    · exact ⟨dar', hnew, (hadm.succeeds dar hdar).2.1⟩
  removal := by
    intro a rm hrm
    rcases storedRemovalAny_push rt anchor r p a with hkeep | ⟨rm', dar, -, hadm, rfl, hnew⟩
    · exact ⟨rm, hkeep.trans hrm, UInt64.le_refl _, List.Subset.refl _⟩
    · exact ⟨rm', hnew, (hadm.succeeds rm hrm).2⟩

theorem commit_written (limiter : RateLimiter) (rs : RecordStore)
    (outcome : Outcome (Prefix × String) Bytes Refusal) :
    ((⟨rs, limiter⟩ : Relay).commit (outcome.map (written rs))).1.records.entries =
        apply rs.entries outcome ∧
      ((⟨rs, limiter⟩ : Relay).commit (outcome.map (written rs))).2 = outcome.map fun _ => () := by
  match outcome with
  | .error e => exact ⟨rfl, rfl⟩
  | .ok none => exact ⟨rfl, rfl⟩
  | .ok (some ((p, id), data)) => exact ⟨rfl, rfl⟩

theorem sequentially_eq (subs : ℕ → Submission) (rs : RecordStore) (i : ℕ) :
    (sequentially rt anchor subs rs i).1.records.entries =
        apply rs.entries ((handlers rt anchor subs i).run rs.entries) ∧
      (sequentially rt anchor subs rs i).2 =
        ((handlers rt anchor subs i).run rs.entries).map fun _ => () := by
  unfold sequentially acceptRecord
  change _ = apply rs.entries (atomically rs.entries (Reading.acceptRecord rt anchor (subs i))) ∧
    _ = Except.map (fun _ => ()) (atomically rs.entries (Reading.acceptRecord rt anchor (subs i)))
  unfold Reading.acceptRecord
  cases (subs i).push.kind with
  | identity =>
    dsimp only
    rw [acceptIdentity_eq]
    exact commit_written _ rs _
  | dar =>
    dsimp only
    rw [acceptDAR_eq]
    exact commit_written _ rs _
  | removal =>
    dsimp only
    rw [acceptRemoval_eq]
    exact commit_written _ rs _
  | history =>
    dsimp only
    rw [acceptHistory_eq]
    exact commit_written _ rs _
  | blocklist =>
    dsimp only
    rw [acceptBlocklist_eq]
    exact commit_written _ rs _
  | roster =>
    dsimp only
    rw [acceptRoster_eq]
    exact commit_written _ rs _
  | unknown => exact ⟨rfl, rfl⟩

theorem entries_run_afterwards (subs : ℕ → Submission) (rs : RecordStore) (order : List ℕ) :
    (Machine.run (afterwards rt anchor subs) rs order).entries =
      Machine.run (alone (handlers rt anchor subs)) rs.entries order :=
  Machine.map_run RecordStore.entries (fun rs i => (sequentially_eq subs rs i).1) rs order

theorem sequentialBy_of_linearizedBy {subs : ℕ → Submission} {order : List ℕ}
    {c : Pool (Prefix × String) Bytes Refusal}
    (h : LinearizedBy (handlers rt anchor subs) rs.entries order c) :
    SequentialBy rt anchor subs rs order c where
  nodup := h.nodup
  accepted := h.accepted
  store := by rw [h.store, entries_run_afterwards]
  verdict := by
    intro before i after heq
    have houtcome := h.outcome before i after heq
    rw [← entries_run_afterwards] at houtcome
    obtain ⟨w, hw⟩ := (h.accepted i).mp (by simp [heq])
    rw [hw] at houtcome
    have hok := Thread.finished.inj houtcome
    rw [(sequentially_eq subs _ i).2, ← hok]
    rfl

/-- In every run in which no push overwrites what another in flight has read, the pushes take
effect as if served one after the other, and no record goes back. -/
theorem concurrent_pushes_sequential (subs : ℕ → Submission) (rs : RecordStore) (sched : List ℕ)
    (h : Machine.Along Pool.step Pool.Undisturbing
      (Pool.start rs.entries (handlers rt anchor subs)) sched) :
    SequentiallyExplained rt anchor subs rs sched ∧
    Machine.Along Pool.step (fun c i => Succession rt ⟨c.store⟩ ⟨(c.step i).store⟩)
      (Pool.start rs.entries (handlers rt anchor subs)) sched := by
  constructor
  · obtain ⟨order, horder⟩ := linearizable_of_undisturbing h
    refine ⟨order, fun js hjs => ?_⟩
    obtain ⟨done, hdone, hlinear⟩ := horder js hjs
    exact ⟨done, hdone, sequentialBy_of_linearizedBy hlinear⟩
  · refine Machine.Along.of_throughout (consistent_throughout h) ?_
    intro c i hc
    rcases hc.store_step i with hkeep | hwrite
    · rw [hkeep]
      exact .refl _
    · have heq : (⟨(c.step i).store⟩ : RecordStore) = afterwards rt anchor subs ⟨c.store⟩ i := by
        rw [hwrite]
        exact congrArg RecordStore.mk (sequentially_eq subs ⟨c.store⟩ i).1.symm
      rw [heq]
      exact succession_push ⟨⟨c.store⟩, limiterAnswering (subs i).allowed⟩ (subs i).push

/-! Two pushes of first records, their reads over before either writes. -/
namespace Genesis

def write (rt : Runtime) (rec : IdentityRecord) : (Prefix × String) × Bytes :=
  ((.identity, rec.address), rt.identityRecord.marshal rec.toProto)

/-- On an empty store the handler of a parsed record reads the authority record and, twice, the
identity record, and then stores its own. -/
theorem handler_reads {now : Time} {data : Bytes} {rec : IdentityRecord} (allowed : Bool)
    (hopen : openIdentity rt now data = .ok rec) (heph : isEphemeralAddress rec.address = false) :
    ∃ c₁ c₂ c₃, (Reading.acceptIdentity rt allowed now data).run =
        .get (.dar, domainOf rec.address) c₁ ∧
      c₁ none = .get (.identity, rec.address) c₂ ∧ c₂ none = .get (.identity, rec.address) c₃ ∧
      c₃ none = .ret (.ok (some (write rt rec))) := by
  have hgates : Reading.checkDomainGates rt allowed rec now = (do
      let dar ← Reading.getDAR rt (domainOf rec.address)
      Reading.checkReservedLocalPart rt rec dar now
      Reading.checkKeyContinuity rt allowed rec dar now) := by
    unfold Reading.checkDomainGates
    rw [heph]
    rfl
  have hbody : Reading.acceptIdentity rt allowed now data = (do
      Reading.checkDomainGates rt allowed rec now
      Reading.checkRollback rt rec
      return some (write rt rec)) := by
    unfold Reading.acceptIdentity
    rw [hopen]
    rfl
  rw [hbody, hgates]
  exact ⟨_, _, _, rfl, rfl, rfl, rfl⟩

theorem three_reads {c : Pool (Prefix × String) Bytes Refusal} {i : ℕ} {k₁ k₂ k₃ : Prefix × String}
    {c₁ c₂ c₃ : Option Bytes →
      Reads (Prefix × String) Bytes (Outcome (Prefix × String) Bytes Refusal)}
    (hi : c.threads i = .running [] (.get k₁ c₁)) (h₁ : c₁ (c.store k₁) = .get k₂ c₂)
    (h₂ : c₂ (c.store k₂) = .get k₃ c₃) :
    Machine.run Pool.step c [i, i, i] = { c with
      threads := Function.update c.threads i (.running [k₃, k₂, k₁] (c₃ (c.store k₃))) } ∧
    Machine.Along Pool.step Pool.Undisturbing c [i, i, i] := by
  have hfirst := step_get hi
  rw [h₁] at hfirst
  have hi₂ : (c.step i).threads i = .running [k₁] (.get k₂ c₂) := by
    rw [hfirst]
    exact Function.update_self ..
  have hsecond := step_get hi₂
  have hstore : (c.step i).store = c.store := by rw [hfirst]
  rw [hstore, h₂] at hsecond
  have hi₃ : ((c.step i).step i).threads i = .running [k₂, k₁] (.get k₃ c₃) := by
    rw [hsecond]
    exact Function.update_self ..
  have hthird := step_get hi₃
  constructor
  · change ((c.step i).step i).step i = _
    rw [hthird, hsecond, hfirst]
    simp only [Function.update_idem]
  · exact ⟨undisturbing_of_get hi, undisturbing_of_get hi₂, undisturbing_of_get hi₃, trivial⟩

noncomputable def runtime : Runtime := idealRuntime [keyOf 2] []

def message (address : String) (revision : UInt64) : Pb.IdentityRecord :=
  { plainRecord address 2 with revision := revision }

def record (address : String) (revision : UInt64) : IdentityRecord :=
  .ofMessage (message address revision) []

noncomputable def submit (address : String) (revision : UInt64) : Submission :=
  ⟨⟨Time.ofUnix 200, .identity, runtime.identityRecord.marshal (message address revision)⟩, true⟩

theorem open_submit (address : String) (revision : UInt64) :
    openIdentity runtime (submit address revision).push.now (submit address revision).push.data =
      .ok (record address revision) :=
  openIdentity_eq_ok.mpr ⟨IdentityRecord.fromProtoBytes_plain rfl rfl rfl,
    IdentityRecord.verify_idealRuntime (List.mem_singleton.mpr rfl) rfl,
    IdentityRecord.not_expired_of_unset rfl⟩

noncomputable def pair (first second : Submission) (i : ℕ) : Submission :=
  if i = 0 then first else second

def readKeys (address : String) : List (Prefix × String) :=
  [(.identity, address), (.identity, address), (.dar, domainOf address)]

structure Ready (a b : String) (m n : UInt64) (c : Pool (Prefix × String) Bytes Refusal) :
    Prop where
  store : c.store = RecordStore.empty.entries
  first : c.threads 0 = .running (readKeys a) (.ret (.ok (some (write runtime (record a m)))))
  second : c.threads 1 = .running (readKeys b) (.ret (.ok (some (write runtime (record b n)))))
  others : ∀ j, j ≠ 0 → j ≠ 1 → ∃ todo, c.threads j = .running [] todo

theorem ready {a b : String} {m n : UInt64} (ha : isEphemeralAddress a = false)
    (hb : isEphemeralAddress b = false) :
    Ready a b m n (Machine.run Pool.step (Pool.start RecordStore.empty.entries
      (handlers runtime none (pair (submit a m) (submit b n)))) [0, 0, 0, 1, 1, 1]) ∧
    Machine.Along Pool.step Pool.Undisturbing (Pool.start RecordStore.empty.entries
      (handlers runtime none (pair (submit a m) (submit b n)))) [0, 0, 0, 1, 1, 1] := by
  obtain ⟨c₁, c₂, c₃, hread, h₁, h₂, h₃⟩ := handler_reads true (open_submit a m) ha
  obtain ⟨d₁, d₂, d₃, hread', h₁', h₂', h₃'⟩ := handler_reads true (open_submit b n) hb
  generalize hc : Pool.start RecordStore.empty.entries
    (handlers runtime none (pair (submit a m) (submit b n))) = c
  have hstore : c.store = RecordStore.empty.entries := by
    rw [← hc]
    rfl
  have hothers : ∀ j, ∃ todo, c.threads j = .running [] todo := by
    intro j
    rw [← hc]
    exact ⟨_, rfl⟩
  have hzero : c.threads 0 = .running [] (.get (.dar, domainOf a) c₁) := by
    rw [← hc]
    exact congrArg (Thread.running []) hread
  have hone : c.threads 1 = .running [] (.get (.dar, domainOf b) d₁) := by
    rw [← hc]
    exact congrArg (Thread.running []) hread'
  -- the first handler reads, and the second one finds the store as it was
  obtain ⟨hrun, halong⟩ := three_reads hzero (by rw [hstore]; exact h₁) (by rw [hstore]; exact h₂)
  have hone' : (Machine.run Pool.step c [0, 0, 0]).threads 1 =
      .running [] (.get (.dar, domainOf b) d₁) := by
    rw [hrun]
    exact hone
  have hstore' : (Machine.run Pool.step c [0, 0, 0]).store = RecordStore.empty.entries := by
    rw [hrun]
    exact hstore
  obtain ⟨hrun', halong'⟩ :=
    three_reads hone' (by rw [hstore']; exact h₁') (by rw [hstore']; exact h₂')
  have hsplit : ([0, 0, 0, 1, 1, 1] : List ℕ) = [0, 0, 0] ++ [1, 1, 1] := rfl
  rw [hsplit, Machine.run_append, Machine.along_append]
  refine ⟨?_, halong, halong'⟩
  rw [hrun']
  refine ⟨hstore', ?_, ?_, ?_⟩
  · dsimp only
    rw [Function.update_of_ne (by decide), hrun]
    dsimp only
    rw [Function.update_self, hstore]
    exact congrArg (Thread.running _) h₃
  · dsimp only
    rw [Function.update_self, hstore']
    exact congrArg (Thread.running _) h₃'
  · intro j hj hj'
    dsimp only
    rw [Function.update_of_ne hj', hrun]
    dsimp only
    rw [Function.update_of_ne hj]
    exact hothers j

def schedule : List ℕ := [0, 0, 0, 1, 1, 1] ++ [0, 1]

variable {a b : String} {m n : UInt64} {c : Pool (Prefix × String) Bytes Refusal}

theorem Ready.step_first (h : Ready a b m n c) :
    (c.step 0).store = (RecordStore.empty.putIdentity runtime (record a m)).entries ∧
      (c.step 0).threads = Function.update c.threads 0
        (.finished (.ok (some (write runtime (record a m))))) := by
  rw [step_ret h.first]
  refine ⟨?_, rfl⟩
  dsimp only
  rw [h.store]
  rfl

theorem Ready.step_second (h : Ready a b m n c) : ((c.step 0).step 1).store =
      ((RecordStore.empty.putIdentity runtime (record a m)).putIdentity runtime
        (record b n)).entries ∧
    ∃ w, ((c.step 0).step 1).threads 0 = .finished (.ok w) := by
  have hfirst := h.step_first
  have hone : (c.step 0).threads 1 =
      .running (readKeys b) (.ret (.ok (some (write runtime (record b n))))) := by
    rw [hfirst.2, Function.update_of_ne (by decide)]
    exact h.second
  rw [step_ret hone]
  constructor
  · dsimp only
    rw [hfirst.1]
    rfl
  · refine ⟨some (write runtime (record a m)), ?_⟩
    dsimp only
    rw [Function.update_of_ne (by decide), hfirst.2, Function.update_self]

noncomputable def apart : ℕ → Submission :=
  pair (submit "alice@example.org" 1) (submit "bob@example.org" 1)

theorem apart_undisturbing : Machine.Along Pool.step Pool.Undisturbing
    (Pool.start RecordStore.empty.entries (handlers runtime none apart)) schedule := by
  have heph : isEphemeralAddress "alice@example.org" = false := by decide
  have heph' : isEphemeralAddress "bob@example.org" = false := by decide
  have hready : Ready "alice@example.org" "bob@example.org" 1 1 (Machine.run Pool.step
      (Pool.start RecordStore.empty.entries (handlers runtime none apart)) [0, 0, 0, 1, 1, 1]) :=
    (ready heph heph').1
  unfold schedule
  rw [Machine.along_append]
  refine ⟨(ready heph heph').2, ?_, ?_, trivial⟩
  · intro seen k x hzero _ j hj seen' hpending hk
    rw [hready.first] at hzero
    cases hzero
    obtain ⟨todo, hj', -⟩ := hpending
    by_cases hone : j = 1
    · subst hone
      rw [hready.second] at hj'
      cases hj'
      revert hk
      decide
    · obtain ⟨todo', htodo⟩ := hready.others j hj hone
      rw [htodo] at hj'
      cases hj'
      cases hk
  · intro seen k x hone _ j hj seen' hpending hk
    obtain ⟨todo, hj', -⟩ := hpending
    rw [hready.step_first.2] at hj'
    by_cases hzero : j = 0
    · subst hzero
      rw [Function.update_self] at hj'
      cases hj'
    · obtain ⟨todo', htodo⟩ := hready.others j hzero hj
      rw [Function.update_of_ne hzero, htodo] at hj'
      cases hj'
      cases hk

theorem apart_sequential : SequentiallyExplained runtime none apart .empty schedule ∧
    Machine.Along Pool.step (fun c i => Succession runtime ⟨c.store⟩ ⟨(c.step i).store⟩)
      (Pool.start RecordStore.empty.entries (handlers runtime none apart)) schedule :=
  concurrent_pushes_sequential apart .empty schedule apart_undisturbing

theorem parse_submit (address : String) (revision : UInt64) :
    IdentityRecord.fromProtoBytes runtime (submit address revision).push.data =
      some (record address revision) := IdentityRecord.fromProtoBytes_plain rfl rfl rfl

theorem getIdentity_after_accepted {subs : ℕ → Submission} {i : ℕ} (hsub : subs i = submit a m)
    (h : (sequentially runtime none subs rs i).2 = .ok ()) :
    (afterwards runtime none subs rs i).getIdentity runtime a = some (record a m) := by
  unfold afterwards
  unfold sequentially at h ⊢
  rw [hsub] at h ⊢
  obtain ⟨rec, hadm⟩ := (acceptRecord_identity_iff rfl).mp h
  have hrec : rec = record a m := Option.some.inj (hadm.parsed.symm.trans (parse_submit a m))
  have hstored : (acceptRecord runtime none ⟨rs, limiterAnswering (submit a m).allowed⟩
      (submit a m).push).1.records = rs.putIdentity runtime rec :=
        (acceptRecord_identity rfl hadm).2
  rw [hstored, hrec, getIdentity_putIdentity (parse_submit a m)]
  exact if_pos rfl

theorem heldStanding_run_afterwards (a : String) (subs : ℕ → Submission) (rs : RecordStore)
    (limiter : RateLimiter) (is : List ℕ) : heldStanding rt a ⟨rs, limiter⟩ ≤
      heldStanding rt a ⟨Machine.run (afterwards rt anchor subs) rs is, limiter⟩ := by
  have hstep : ∀ rs i, heldStanding rt a ⟨rs, limiter⟩ ≤
      heldStanding rt a ⟨afterwards rt anchor subs rs i, limiter⟩ := by
    intro rs i
    exact heldStanding_push a ⟨rs, limiterAnswering (subs i).allowed⟩ (subs i).push
  exact Machine.le_run hstep rs is

noncomputable def racing : ℕ → Submission :=
  pair (submit "alice@example.org" 2) (submit "alice@example.org" 1)

noncomputable def raced (sched : List ℕ) : Option IdentityRecord :=
  RecordStore.getIdentity runtime ⟨(Machine.run Pool.step
    (Pool.start RecordStore.empty.entries (handlers runtime none racing)) sched).store⟩
    "alice@example.org"

theorem racing_ready : Ready "alice@example.org" "alice@example.org" 2 1 (Machine.run Pool.step
    (Pool.start RecordStore.empty.entries (handlers runtime none racing)) [0, 0, 0, 1, 1, 1]) := by
  have heph : isEphemeralAddress "alice@example.org" = false := by decide
  exact (ready heph heph).1

theorem raced_first : raced ([0, 0, 0, 1, 1, 1] ++ [0]) = some (record "alice@example.org" 2) := by
  have hstore := racing_ready.step_first.1
  unfold raced
  rw [Machine.run_append, Machine.run_cons, Machine.run_nil, hstore]
  exact (getIdentity_putIdentity (parse_submit _ _) _).trans (if_pos rfl)

theorem raced_second : raced schedule = some (record "alice@example.org" 1) := by
  have hstore := racing_ready.step_second.1
  unfold raced schedule
  rw [Machine.run_append, Machine.run_cons, Machine.run_cons, Machine.run_nil, hstore]
  exact (getIdentity_putIdentity (parse_submit _ _) _).trans (if_pos rfl)

/-- Two pushes for one address are both accepted, the one of the lower revision last: no sequential
order accepts both and ends with it. -/
theorem racing_not_sequential :
    raced ([0, 0, 0, 1, 1, 1] ++ [0]) = some (record "alice@example.org" 2) ∧
    raced schedule = some (record "alice@example.org" 1) ∧
    ¬ SequentiallyExplained runtime none racing .empty schedule := by
  refine ⟨raced_first, raced_second, ?_⟩
  rintro ⟨order, horder⟩
  obtain ⟨done, -, hby⟩ := horder schedule (List.prefix_refl _)
  have hzero : 0 ∈ done := by
    rw [hby.accepted 0]
    unfold schedule
    rw [Machine.run_append]
    exact racing_ready.step_second.2
  obtain ⟨before, after, hdone⟩ := List.append_of_mem hzero
  -- from its turn on, the standing held is at least that of the higher revision
  have haccepted := getIdentity_after_accepted rfl (hby.verdict before 0 after hdone)
  have hgrows : heldStanding runtime "alice@example.org" ⟨afterwards runtime none racing
        (Machine.run (afterwards runtime none racing) .empty before) 0, .newRotationLimiter⟩ ≤
      heldStanding runtime "alice@example.org"
        ⟨Machine.run (afterwards runtime none racing) .empty done, .newRotationLimiter⟩ := by
    rw [hdone, Machine.run_append, Machine.run_cons]
    exact heldStanding_run_afterwards _ _ _ _ _
  have hend : (Machine.run (afterwards runtime none racing) .empty done).getIdentity runtime
      "alice@example.org" = some (record "alice@example.org" 1) := by
    rw [← raced_second]
    unfold raced
    rw [hby.store]
  unfold heldStanding at hgrows
  rw [haccepted, hend] at hgrows
  exact absurd (WithBot.coe_le_coe.mp hgrows) (by decide)

end Genesis

end Dmcn
