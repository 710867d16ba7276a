import OpenDmcn.Identity.Record

/-! The verification rules of `verify.go`: the tier of a record under a supplied authority record,
who may sign a removal, and when one key may take an address over from another. -/

namespace Dmcn

open Go Guard

inductive ManagedError where
  | selfSignature | otherDomain | routingMismatch | routingHints | routing (e : CredentialError)
  | addressMismatch | address (e : CredentialError) | bindingRemoved
  deriving DecidableEq

def Credential.matchesRecord (c : Credential) (domain : String) (rec : IdentityRecord)
    (role : String) :
    Bool :=
  c.domain == domain && c.address == rec.address && c.hasRole role && c.subject == rec.ed25519Public

def removalIsOwnerSigned (rt : Runtime) (rec : IdentityRecord) (rm : AddressRemovalRecord) : Bool :=
  !rec.ed25519Public.isEmpty && Strings.equalFold rt.unicode rm.address rec.address &&
    rm.verify rt rec.ed25519Public

def removalSuppresses (rt : Runtime) (rec : IdentityRecord) (dar : DomainAuthorityRecord)
    (rm : AddressRemovalRecord) : Bool :=
  removalIsRootSigned rt dar rm || removalIsOwnerSigned rt rec rm

/-- The routing half of `VerifyManagedRecord`, when the record carries a routing credential. -/
def checkRouting (rt : Runtime) (rec : IdentityRecord) (dar : DomainAuthorityRecord)
    (blocks : Option CredentialBlockList) (now : Time) : Except ManagedError Unit :=
  match rec.routingCredential with
  | none => .ok ()
  | some rc => do
    require (rc.matchesRecord dar.domain rec roleRouting) .routingMismatch
    require (rec.relayHints = rc.relayHints) .routingHints
    wrap .routing (verifyCredential rt rc (some dar) blocks now)

def bindingRemoved (rt : Runtime) (rec : IdentityRecord) (dar : DomainAuthorityRecord)
    (removal : Option AddressRemovalRecord) : Bool :=
  match removal with
  | none => false
  | some rm => removalSuppresses rt rec dar rm && (rm.removed rec.ed25519Public).isSome

/-- `VerifyManagedRecord` on a record and an authority record that are there. Every error comes
with `TierUnverified`. -/
def verifyManagedRecord (rt : Runtime) (rec : IdentityRecord) (dar : DomainAuthorityRecord)
    (blocks : Option CredentialBlockList) (removal : Option AddressRemovalRecord) (now : Time) :
    Except ManagedError VerificationTier := do
  require (rec.verify rt) .selfSignature
  refuse (domainOf rec.address = "" ∨
    Strings.equalFold rt.unicode (domainOf rec.address) dar.domain = false) .otherDomain
  checkRouting rt rec dar blocks now
  match rec.addressCredential with
  -- the removal is not looked at on this way out
  | none => return rec.verificationTier
  | some cred =>
    require (cred.matchesRecord dar.domain rec roleAddress) .addressMismatch
    wrap .address (verifyCredential rt cred (some dar) blocks now)
    refuse (bindingRemoved rt rec dar removal) .bindingRemoved
    return tierDomainDNS

variable {rt : Runtime} {dar : DomainAuthorityRecord} {now : Time}

theorem verifyManagedRecord_uncredentialed {rec : IdentityRecord}
    {blocks : Option CredentialBlockList} {removal : Option AddressRemovalRecord}
    (hverify : rec.verify rt = true) (hdomain : domainOf rec.address = dar.domain)
    (hne : dar.domain ≠ "") (hrouting : rec.routingCredential = none)
    (haddress : rec.addressCredential = none) :
    verifyManagedRecord rt rec dar blocks removal now = .ok rec.verificationTier := by
  have hcheck : checkRouting rt rec dar blocks now = .ok () := by
    unfold checkRouting
    rw [hrouting]
  simp only [verifyManagedRecord, unit_bind, require_eq_ok, refuse_eq_ok, hdomain, haddress]
  exact ⟨hverify, by simp [hne], hcheck, rfl⟩

theorem Credential.matchesRecord_iff {cred : Credential} {domain role : String}
    {rec : IdentityRecord} :
    cred.matchesRecord domain rec role = true ↔ cred.domain = domain ∧ cred.address = rec.address ∧
      cred.hasRole role = true ∧ cred.subject = rec.ed25519Public := by
  simp [Credential.matchesRecord, and_assoc]

theorem verifyManagedRecord_credential {rec : IdentityRecord} {blocks : Option CredentialBlockList}
    {removal : Option AddressRemovalRecord} {t : VerificationTier} {cred : Credential}
    (h : verifyManagedRecord rt rec dar blocks removal now = .ok t)
    (hcred : rec.addressCredential = some cred) :
    cred.matchesRecord dar.domain rec roleAddress = true ∧
      verifyCredential rt cred (some dar) blocks now = .ok () ∧
      bindingRemoved rt rec dar removal = false := by
  simp only [verifyManagedRecord, unit_bind, hcred, require_eq_ok, wrap_eq_ok, refuse_eq_ok] at h
  obtain ⟨-, -, -, hmatch, hchain, hkept, -⟩ := h
  exact ⟨hmatch, hchain, by simpa using hkept⟩

def tierOf {ε : Type} : Except ε VerificationTier → VerificationTier
  | .error _ => tierUnverified
  | .ok t => t

inductive RebindArm where
  | genesis | sameKey | rootTombstone | ownerRotation
  deriving DecidableEq

inductive Missing where
  | incumbentNotTombstoned | removalNames (address : String) | removalDomain (domain : String)
  | removalNotRootSigned | retiresOtherKey | authorizedElsewhere | revisionNotAdvanced | noDevice
  | notDeviceCredential | deviceForOtherAddress | deviceCredential (e : CredentialError)
  | aheadOfClock | tenureTooShort | incomingTombstoned
  deriving DecidableEq

inductive RebindError where
  | unverifiable
  | tombstoneRequired (why : Missing)
  | rotationNotAllowed
  | chain (e : RotationError)
  deriving DecidableEq

def rebindTombstoneFrees (rt : Runtime) (prev next : IdentityRecord) (rm : AddressRemovalRecord)
    (dar : DomainAuthorityRecord) : Except Missing Unit := do
  require (Strings.equalFold rt.unicode rm.address next.address) (.removalNames rm.address)
  require (Strings.equalFold rt.unicode rm.domain dar.domain) (.removalDomain rm.domain)
  require (removalIsRootSigned rt dar rm) .removalNotRootSigned
  require ((rm.removed prev.ed25519Public).isSome) .incumbentNotTombstoned

def rotationSkew : Duration := 2 * Duration.minute

def authorizeRotationDevice (rt : Runtime) (e : RotationEntry) (dar : DomainAuthorityRecord)
    (now : Time) : Except Missing Unit := do
  let cred ← need e.deviceCredential .noDevice
  require (cred.hasRole roleDevice) .notDeviceCredential
  require (Strings.equalFold rt.unicode cred.address e.address) .deviceForOtherAddress
  wrap .deviceCredential (verifyCredential rt cred (some dar) none e.rotatedAt)
  refuse (e.rotatedAt.sub now > rotationSkew) .aheadOfClock
  refuse (e.rotatedAt.sub cred.issuedAt < dar.rotationMinDeviceAge) .tenureTooShort

def incomingTombstoned (rt : Runtime) (next : IdentityRecord) (rm : Option AddressRemovalRecord)
    (dar : DomainAuthorityRecord) : Bool :=
  match rm with
  | none => false
  | some rm =>
    removalIsRootSigned rt dar rm && Strings.equalFold rt.unicode rm.address next.address &&
      (rm.removed next.ed25519Public).isSome

def authorizeOwnerRotation (rt : Runtime) (prev next : IdentityRecord) (last : RotationEntry)
    (rm : Option AddressRemovalRecord) (dar : DomainAuthorityRecord) (now : Time) :
    Except RebindError RebindArm := do
  require dar.allowKeyRotation .rotationNotAllowed
  wrap .chain (verifyRotationChain rt next)
  require (last.retiredEd25519Public = prev.ed25519Public ∧
    last.retiredX25519Public = prev.x25519Public) (.tombstoneRequired .retiresOtherKey)
  require (last.authorizingEd25519Public = prev.ed25519Public ∨
    last.authorizingEd25519Public = prev.recoveryEd25519Public)
    (.tombstoneRequired .authorizedElsewhere)
  refuse (next.revision ≤ prev.revision) (.tombstoneRequired .revisionNotAdvanced)
  wrap .tombstoneRequired (authorizeRotationDevice rt last dar now)
  refuse (incomingTombstoned rt next rm dar) (.tombstoneRequired .incomingTombstoned)
  return .ownerRotation

def authorizeRebind (rt : Runtime) (prev : Option IdentityRecord) (next : IdentityRecord)
    (rm : Option AddressRemovalRecord) (dar : Option DomainAuthorityRecord) (now : Time) :
    Except RebindError RebindArm :=
  match prev with
  | none => .ok .genesis
  | some prev =>
    if prev.ed25519Public = next.ed25519Public then .ok .sameKey
    else
      match dar with
      | none => .error .unverifiable
      | some dar =>
        -- the operator's arm is tried first, so that a root tombstone outranks any chain
        match rm.elim (.error .incumbentNotTombstoned) (rebindTombstoneFrees rt prev next · dar)
          with
        | .ok () => .ok .rootTombstone
        | .error why =>
          match next.rotationChain.getLast? with
          | some last => authorizeOwnerRotation rt prev next last rm dar now
          | none => .error (.tombstoneRequired why)

theorem rebindTombstoneFrees_iff {prev next : IdentityRecord} {rm : AddressRemovalRecord} :
    rebindTombstoneFrees rt prev next rm dar = .ok () ↔
      Strings.equalFold rt.unicode rm.address next.address = true ∧
      Strings.equalFold rt.unicode rm.domain dar.domain = true ∧
      removalIsRootSigned rt dar rm = true ∧ prev.ed25519Public ∈ rm.keys := by
  simp only [rebindTombstoneFrees, unit_bind, require_eq_ok, AddressRemovalRecord.removed_isSome]

structure DeviceAuthorized (rt : Runtime) (e : RotationEntry) (cred : Credential)
    (dar : DomainAuthorityRecord) (now : Time) : Prop where
  named : e.deviceCredential = some cred
  role : cred.hasRole roleDevice = true
  address : Strings.equalFold rt.unicode cred.address e.address = true
  chain : verifyCredential rt cred (some dar) none e.rotatedAt = .ok ()
  notAhead : e.rotatedAt.sub now ≤ rotationSkew
  tenure : dar.rotationMinDeviceAge ≤ e.rotatedAt.sub cred.issuedAt

theorem authorizeRotationDevice_eq_ok {e : RotationEntry} :
    authorizeRotationDevice rt e dar now = .ok () ↔
      ∃ cred, DeviceAuthorized rt e cred dar now := by
  simp only [authorizeRotationDevice, need_bind, unit_bind, require_eq_ok, refuse_eq_ok, wrap_eq_ok]
  constructor
  · rintro ⟨cred, hcred, hrole, haddr, hchain, hahead, htenure⟩
    exact ⟨cred, hcred, hrole, haddr, hchain, Int64.not_lt.mp hahead, Int64.not_lt.mp htenure⟩
  · rintro ⟨cred, hcred, hrole, haddr, hchain, hahead, htenure⟩
    exact ⟨cred, hcred, hrole, haddr, hchain, Int64.not_lt.mpr hahead, Int64.not_lt.mpr htenure⟩

structure OwnerRotation (rt : Runtime) (prev next : IdentityRecord) (last : RotationEntry)
    (rm : Option AddressRemovalRecord) (dar : DomainAuthorityRecord) (now : Time) : Prop where
  allowed : dar.allowKeyRotation = true
  chain : verifyRotationChain rt next = .ok ()
  retiresKey : last.retiredEd25519Public = prev.ed25519Public
  retiresMailboxKey : last.retiredX25519Public = prev.x25519Public
  authorized : last.authorizingEd25519Public = prev.ed25519Public ∨
    last.authorizingEd25519Public = prev.recoveryEd25519Public
  advances : prev.revision < next.revision
  device : ∃ cred, DeviceAuthorized rt last cred dar now
  notTombstoned : incomingTombstoned rt next rm dar = false

variable {rm : Option AddressRemovalRecord}

theorem authorizeOwnerRotation_eq_ok {prev next : IdentityRecord} {last : RotationEntry}
    {arm : RebindArm} :
    authorizeOwnerRotation rt prev next last rm dar now = .ok arm ↔
      arm = .ownerRotation ∧ OwnerRotation rt prev next last rm dar now := by
  simp only [authorizeOwnerRotation, unit_bind, require_eq_ok, refuse_eq_ok, wrap_eq_ok, pure_eq_ok,
    authorizeRotationDevice_eq_ok, Bool.not_eq_true]
  constructor
  · rintro ⟨hallow, hchain, ⟨hed, hx⟩, hauth, hrev, hdevice, htomb, rfl⟩
    exact ⟨rfl, hallow, hchain, hed, hx, hauth, UInt64.not_le.mp hrev, hdevice, htomb⟩
  · rintro ⟨rfl, hallow, hchain, hed, hx, hauth, hrev, hdevice, htomb⟩
    exact ⟨hallow, hchain, ⟨hed, hx⟩, hauth, UInt64.not_le.mpr hrev, hdevice, htomb, rfl⟩

theorem authorizeOwnerRotation_ne_unverifiable {prev next : IdentityRecord} {last : RotationEntry}
    : authorizeOwnerRotation rt prev next last rm dar now ≠ .error .unverifiable := by
  intro h
  simp [authorizeOwnerRotation, bind_eq_error, require_eq_error, refuse_eq_error, wrap_eq_error,
    pure, Except.pure] at h

theorem authorizeRebind_ne_unverifiable {prev next : IdentityRecord} :
    authorizeRebind rt (some prev) next rm (some dar) now ≠ .error .unverifiable := by
  intro h
  simp only [authorizeRebind] at h
  split at h
  · cases h
  · split at h
    · cases h
    · split at h
      · exact authorizeOwnerRotation_ne_unverifiable h
      · cases h

theorem authorizeRebind_cases {prev next : IdentityRecord} {dar : Option DomainAuthorityRecord}
    {arm : RebindArm} (h : authorizeRebind rt (some prev) next rm dar now = .ok arm) :
    (arm = .sameKey ∧ prev.ed25519Public = next.ed25519Public) ∨
    (arm = .rootTombstone ∧ ∃ d r, dar = some d ∧ rm = some r ∧
      rebindTombstoneFrees rt prev next r d = .ok ()) ∨
    (arm = .ownerRotation ∧ ∃ d last, dar = some d ∧ next.rotationChain.getLast? = some last ∧
      OwnerRotation rt prev next last rm d now) := by
  unfold authorizeRebind at h
  simp only at h
  split at h
  · next hkey =>
    cases h
    exact .inl ⟨rfl, hkey⟩
  · split at h
    · cases h
    · next d =>
      split at h
      · next hfree =>
        cases h
        cases rm with
        | none => cases hfree
        | some r => exact .inr (.inl ⟨rfl, d, r, rfl, rfl, hfree⟩)
      · split at h
        · next last hlast =>
          obtain ⟨harm, hrot⟩ := authorizeOwnerRotation_eq_ok.mp h
          exact .inr (.inr ⟨harm, d, last, rfl, hlast, hrot⟩)
        · cases h

theorem authorizeRebind_ownerRotation {prev next : IdentityRecord} {last : RotationEntry}
    (hkey : prev.ed25519Public ≠ next.ed25519Public)
    (hlast : next.rotationChain.getLast? = some last)
    (h : OwnerRotation rt prev next last none dar now) :
    authorizeRebind rt (some prev) next none (some dar) now = .ok .ownerRotation := by
  unfold authorizeRebind
  dsimp only
  rw [if_neg hkey, hlast]
  exact authorizeOwnerRotation_eq_ok.mpr ⟨rfl, h⟩

end Dmcn
