import Mathlib.Data.List.DropRight
import OpenDmcn.IdealRuntime

/-! The producer of rotations (`rotation.go`): an entry is built from the record it retires, signed
by the device, by the key that gives the address up and by the key that takes it over, and put at
the end of a chain that keeps the latest entries only. -/

namespace Dmcn

open Go Guard

structure IdentityKeyPair where
  ed25519Public : Bytes
  ed25519Private : Bytes
  x25519Public : Fixed 32

inductive ProducerError where
  | revisionNotAdvanced | authorizingUnset | notAuthorizingKey | consentFirst
  deriving DecidableEq

def newRotationEntry (rt : Runtime) (prev : IdentityRecord) (nextEd : Bytes) (nextX : Fixed 32)
    (nextRevision : UInt64) (at_ : Time) : Except ProducerError RotationEntry := do
  refuse (nextRevision ≤ prev.revision) .revisionNotAdvanced
  return {
    version := 1
    address := prev.address
    retiredEd25519Public := prev.ed25519Public
    retiredX25519Public := prev.x25519Public
    nextEd25519Public := nextEd
    nextX25519Public := nextX
    rotatedAt := at_
    nextRevision := nextRevision
    prevSignatureHash := prev.rotationChain.getLast?.elim [] fun last => rt.sha256 last.signature
    authorizingEd25519Public := prev.ed25519Public
    deviceCredential := none
    deviceSignature := []
    signature := []
    nextSignature := [] }

namespace RotationEntry

def signDevice (rt : Runtime) (devicePriv : Bytes) (e : RotationEntry) :
    Except ProducerError RotationEntry := do
  refuse (e.authorizingEd25519Public.length = 0) .authorizingUnset
  return { e with
    deviceSignature := signCtx rt devicePriv .identityRotationDevice (e.deviceBytes rt) }

def signConsent (rt : Runtime) (kp : IdentityKeyPair) (e : RotationEntry) :
    Except ProducerError RotationEntry := do
  require (e.authorizingEd25519Public = kp.ed25519Public) .notAuthorizingKey
  return { e with signature := signCtx rt kp.ed25519Private .identityRotation (e.consentBytes rt) }

def signAcceptance (rt : Runtime) (kp : IdentityKeyPair) (e : RotationEntry) :
    Except ProducerError RotationEntry := do
  refuse (e.signature.length = 0) .consentFirst
  return { e with
    nextSignature := signCtx rt kp.ed25519Private .identityRotationAccept (e.acceptBytes rt) }

end RotationEntry

def appendRotation (prev : IdentityRecord) (e : RotationEntry) : List RotationEntry :=
  let chain := prev.rotationChain ++ [e]
  if chain.length > maxRotationChain then chain.drop (chain.length - maxRotationChain) else chain

def rotatedFrom (rec : IdentityRecord) (pub : Bytes) : Option Time :=
  if pub.isEmpty then none
  else (rec.rotationChain.find? fun e => e.retiredEd25519Public == pub).map RotationEntry.rotatedAt

/-- What the owner decides for one rotation. The key that consents is the one retired or, when that
one is lost, the recovery key; the device comes with its credential. -/
structure Rotation where
  next : IdentityKeyPair
  nextRevision : UInt64
  at_ : Time
  consent : IdentityKeyPair
  device : Option (Credential × Bytes)

def attestDevice (rt : Runtime) (device : Option (Credential × Bytes)) (e : RotationEntry) :
    Except ProducerError RotationEntry :=
  match device with
  | none => return e
  | some (cred, priv) => { e with deviceCredential := some cred }.signDevice rt priv

/-- The steps of a caller: the entry is built, its authorizing key declared, then signed. -/
def buildRotation (rt : Runtime) (prev : IdentityRecord) (rot : Rotation) :
    Except ProducerError RotationEntry := do
  let e ← newRotationEntry rt prev rot.next.ed25519Public rot.next.x25519Public rot.nextRevision
      rot.at_
  let e ← attestDevice rt rot.device
      { e with authorizingEd25519Public := rot.consent.ed25519Public }
  let e ← e.signConsent rt rot.consent
  e.signAcceptance rt rot.next

structure Rotation.Ready (rt : Runtime) (prev : IdentityRecord) (rot : Rotation) : Prop where
  next : AddressRemovalRecord.SignsFor rt rot.next.ed25519Private rot.next.ed25519Public
  consent : AddressRemovalRecord.SignsFor rt rot.consent.ed25519Private rot.consent.ed25519Public
  device : ∀ cred priv, rot.device = some (cred, priv) →
    AddressRemovalRecord.SignsFor rt priv cred.subject
  newKey : prev.ed25519Public ≠ rot.next.ed25519Public
  newMailboxKey : prev.x25519Public ≠ rot.next.x25519Public

variable {rt : Runtime}

theorem length_of_signsFor {priv pub : Bytes} (h : AddressRemovalRecord.SignsFor rt priv pub) :
    pub.length = 32 ∧ ∀ message, (rt.ed25519Sign priv message).length = 64 := by
  have hsizes : ∀ message, pub.length = 32 ∧ (rt.ed25519Sign priv message).length = 64 := by
    intro message
    have hsig := h message
    simp only [Crypto.verify, Crypto.ed25519PublicKeySize, Crypto.ed25519SignatureSize,
      Bool.and_eq_true, beq_iff_eq] at hsig
    exact hsig.1
  exact ⟨(hsizes []).1, fun message => (hsizes message).2⟩

structure Built (rt : Runtime) (prev : IdentityRecord) (rot : Rotation) (e : RotationEntry) :
    Prop where
  version : e.version = 1
  address : e.address = prev.address
  retiredKey : e.retiredEd25519Public = prev.ed25519Public
  retiredMailboxKey : e.retiredX25519Public = prev.x25519Public
  nextKey : e.nextEd25519Public = rot.next.ed25519Public
  nextMailboxKey : e.nextX25519Public = rot.next.x25519Public
  rotatedAt : e.rotatedAt = rot.at_
  nextRevision : e.nextRevision = rot.nextRevision
  advances : prev.revision < rot.nextRevision
  prevHash : e.prevSignatureHash =
    prev.rotationChain.getLast?.elim [] fun last => rt.sha256 last.signature
  authorizing : e.authorizingEd25519Public = rot.consent.ed25519Public
  deviceCredential : e.deviceCredential = rot.device.map Prod.fst
  consented : verifyCtx rt e.authorizingEd25519Public .identityRotation (e.consentBytes rt)
    e.signature = true
  attested : e.checkDevice rt = .ok ()
  accepted : verifyCtx rt e.nextEd25519Public .identityRotationAccept (e.acceptBytes rt)
    e.nextSignature = true

theorem checkDevice_of_attestDevice {device : Option (Credential × Bytes)} {e e' : RotationEntry}
    (hdevice : ∀ cred priv, device = some (cred, priv) →
      AddressRemovalRecord.SignsFor rt priv cred.subject)
    (hcred : e.deviceCredential = none) (hsig : e.deviceSignature = [])
    (h : attestDevice rt device e = .ok e') :
    ∃ sig, e' = { e with deviceCredential := device.map Prod.fst, deviceSignature := sig } ∧
      e'.checkDevice rt = .ok () := by
  cases device with
  | none =>
    simp only [attestDevice, pure_eq_ok] at h
    subst h
    refine ⟨[], ?_, ?_⟩
    · rw [Option.map_none, ← hcred, ← hsig]
    · simp [RotationEntry.checkDevice, hcred, hsig]
  | some pair =>
    obtain ⟨cred, priv⟩ := pair
    simp only [attestDevice, RotationEntry.signDevice, unit_bind, pure_eq_ok] at h
    obtain ⟨-, rfl⟩ := h
    refine ⟨_, rfl, ?_⟩
    simp only [RotationEntry.checkDevice, require_eq_ok]
    exact hdevice cred priv rfl _

variable {prev : IdentityRecord} {rot : Rotation} {e : RotationEntry}

theorem built_of_buildRotation (hready : rot.Ready rt prev) (h : buildRotation rt prev rot = .ok e)
    : Built rt prev rot e := by
  simp only [buildRotation, newRotationEntry, RotationEntry.signConsent,
    RotationEntry.signAcceptance, bind_eq_ok, refuse_eq_ok, require_eq_ok, pure_eq_ok] at h
  obtain ⟨e₀, ⟨-, hrev, rfl⟩, e₁, hattest, e₂, ⟨-, -, rfl⟩, -, -, rfl⟩ := h
  obtain ⟨deviceSignature, rfl, hchecked⟩ :=
    checkDevice_of_attestDevice hready.device rfl rfl hattest
  -- each signature is over bytes that leave out the ones made after it
  exact ⟨rfl, rfl, rfl, rfl, rfl, rfl, rfl, rfl, UInt64.not_le.mp hrev, rfl, rfl, rfl,
    hready.consent _, hchecked, hready.next _⟩

theorem exists_buildRotation (hready : rot.Ready rt prev) (hrev : prev.revision < rot.nextRevision)
    : ∃ e, buildRotation rt prev rot = .ok e := by
  obtain ⟨hkey, hsize⟩ := length_of_signsFor hready.consent
  have hattest : ∀ e : RotationEntry, e.authorizingEd25519Public = rot.consent.ed25519Public →
      ∃ e', attestDevice rt rot.device e = .ok e' ∧
        e'.authorizingEd25519Public = rot.consent.ed25519Public := by
    intro e he
    have hset : ¬ e.authorizingEd25519Public.length = 0 := by
      rw [he, hkey]
      decide
    cases rot.device with
    | none => exact ⟨e, rfl, he⟩
    | some pair =>
      refine ⟨{ e with
        deviceCredential := some pair.1
        deviceSignature := signCtx rt pair.2 .identityRotationDevice
          ({ e with deviceCredential := some pair.1 }.deviceBytes rt) }, ?_, he⟩
      simp only [attestDevice, RotationEntry.signDevice, unit_bind, refuse_eq_ok, pure_eq_ok,
        and_true]
      exact hset
  obtain ⟨e₀, he₀⟩ : ∃ e₀, newRotationEntry rt prev rot.next.ed25519Public rot.next.x25519Public
      rot.nextRevision rot.at_ = .ok e₀ := by
    simp only [newRotationEntry, unit_bind, refuse_eq_ok, pure_eq_ok]
    exact ⟨_, UInt64.not_le.mpr hrev, rfl⟩
  obtain ⟨e₁, he₁, hauth⟩ :=
    hattest { e₀ with authorizingEd25519Public := rot.consent.ed25519Public } rfl
  have hconsent : e₁.signConsent rt rot.consent = .ok { e₁ with
      signature :=
        signCtx rt rot.consent.ed25519Private .identityRotation (e₁.consentBytes rt) } := by
    simp only [RotationEntry.signConsent, unit_bind, require_eq_ok, pure_eq_ok, and_true]
    exact hauth
  have hsigned : ¬ (signCtx rt rot.consent.ed25519Private .identityRotation
      (e₁.consentBytes rt)).length = 0 := by
    rw [signCtx, hsize]
    decide
  have haccept : ∃ e, ({ e₁ with
      signature := signCtx rt rot.consent.ed25519Private .identityRotation
        (e₁.consentBytes rt) } : RotationEntry).signAcceptance rt rot.next = .ok e := by
    simp only [RotationEntry.signAcceptance, unit_bind, refuse_eq_ok, pure_eq_ok]
    exact ⟨_, hsigned, rfl⟩
  obtain ⟨e, he⟩ := haccept
  exact ⟨e, bind_eq_ok.mpr ⟨e₀, he₀, bind_eq_ok.mpr ⟨e₁, he₁, bind_eq_ok.mpr ⟨_, hconsent, he⟩⟩⟩⟩

namespace RotationEntry

def reread (e : RotationEntry) : RotationEntry :=
  { e with
    rotatedAt := e.rotatedAt.wholeSecond
    deviceCredential := e.deviceCredential.map fun cred => .fromProto cred.toProto }

/-- Reading the entry back leaves a time of rotation, and encodes to the same bytes again. The one
time a second cut to whole seconds reads as unset is the first of the year 1. -/
structure Stable (e : RotationEntry) : Prop where
  rotatedAt : e.rotatedAt.wholeSecond.isZero = false
  device : ∀ cred, e.deviceCredential = some cred →
    (Credential.fromProto cred.toProto).toProto = cred.toProto

theorem fromProto_toProto_eq_reread (e : RotationEntry) : fromProto e.toProto = some e.reread := by
  simp [fromProto, toProto, reread, Time.ofUnix_unix, Option.map_map, Function.comp_def]

theorem reread_reread (e : RotationEntry) : e.reread.reread = e.reread := by
  have hread := fromProto_toProto (fromProto_toProto_eq_reread e)
  rw [fromProto_toProto_eq_reread] at hread
  exact Option.some.inj hread

theorem Stable.toProto_reread {e : RotationEntry} (h : e.Stable) :
    e.reread.toProto = e.toProto := by
  have hcred : (e.deviceCredential.map fun cred => Credential.fromProto cred.toProto).map
      Credential.toProto = e.deviceCredential.map Credential.toProto := by
    cases hdev : e.deviceCredential with
    | none => rfl
    | some cred =>
      rw [Option.map_some, Option.map_some, h.device cred hdev]
      rfl
  unfold toProto reread
  simp only [hcred, Time.unix_wholeSecond]

theorem checkShape_eq_ok {e : RotationEntry} : e.checkShape = .ok () ↔
    e.version ≠ 0 ∧ validateAddress e.address = true ∧
    (e.retiredEd25519Public.length = 32 ∧ e.nextEd25519Public.length = 32 ∧
      e.authorizingEd25519Public.length = 32) ∧
    e.retiredEd25519Public ≠ e.nextEd25519Public ∧ e.retiredX25519Public ≠ e.nextX25519Public ∧
    e.rotatedAt.isZero = false ∧ e.nextRevision ≠ 0 ∧
    (e.prevSignatureHash.length = 0 ∨ e.prevSignatureHash.length = 32) := by
  simp only [checkShape, unit_bind, require_eq_ok, refuse_eq_ok, not_and_or, not_not,
    Bool.not_eq_true]
  rfl

theorem verify_eq_ok {e : RotationEntry} : e.verify rt = .ok () ↔
    e.checkShape = .ok () ∧
    verifyCtx rt e.authorizingEd25519Public .identityRotation (e.consentBytes rt) e.signature =
      true ∧
    e.checkDevice rt = .ok () ∧
    verifyCtx rt e.nextEd25519Public .identityRotationAccept (e.acceptBytes rt) e.nextSignature =
      true := by
  simp only [verify, unit_bind, require_eq_ok]

theorem Stable.verify_reread {e : RotationEntry} (h : e.Stable) (hverify : e.verify rt = .ok ()) :
    e.reread.verify rt = .ok () := by
  have hdevice : e.checkDevice rt = .ok () → e.reread.checkDevice rt = .ok () := by
    intro hok
    have hread : e.reread.deviceCredential = e.deviceCredential.map fun cred =>
        .fromProto cred.toProto :=
      rfl
    cases hdev : e.deviceCredential with
    | none =>
      rw [hdev, Option.map_none] at hread
      rw [checkDevice, hdev, require_eq_ok] at hok
      rw [checkDevice, hread, require_eq_ok]
      exact hok
    | some cred =>
      have hbytes : e.reread.deviceBytes rt = e.deviceBytes rt := by
        unfold deviceBytes
        rw [h.toProto_reread]
      have hsubject : (Credential.fromProto cred.toProto).subject = cred.subject := by
        rw [Credential.fromProto, Credential.toProto]
      rw [hdev, Option.map_some] at hread
      rw [checkDevice, hdev, require_eq_ok] at hok
      rw [checkDevice, hread, require_eq_ok, hbytes, hsubject]
      exact hok
  have hconsent : e.reread.consentBytes rt = e.consentBytes rt := by
    unfold consentBytes
    rw [h.toProto_reread]
  have haccept : e.reread.acceptBytes rt = e.acceptBytes rt := by
    unfold acceptBytes
    rw [h.toProto_reread]
  obtain ⟨hshape, hconsented, hattested, haccepted⟩ := verify_eq_ok.mp hverify
  obtain ⟨hversion, haddress, hsizes, hkeys, hmailbox, -, hfields⟩ := checkShape_eq_ok.mp hshape
  rw [verify_eq_ok, hconsent, haccept, checkShape_eq_ok]
  exact ⟨⟨hversion, haddress, hsizes, hkeys, hmailbox, h.rotatedAt, hfields⟩, hconsented,
    hdevice hattested, haccepted⟩

theorem continues_of_reread {prev e : RotationEntry}
    (h : e.reread.continues rt prev.reread = .ok ()) : e.continues rt prev = .ok () := by
  simp only [continues, unit_bind, require_eq_ok, refuse_eq_ok] at h ⊢
  obtain ⟨hkeys, hhash, hlater, hrev⟩ := h
  exact ⟨hkeys, hhash, Time.after_of_wholeSecond hlater, hrev⟩

end RotationEntry

variable {chain : List RotationEntry}

theorem verifyLinksAfter_concat {address : String} {prev : Option RotationEntry} :
    verifyLinksAfter rt address prev (chain ++ [e]) = .ok () ↔
      verifyLinksAfter rt address prev chain = .ok () ∧
        verifyLink rt address (chain.getLast?.or prev) e = .ok () := by
  induction chain generalizing prev with
  | nil => simp [verifyLinksAfter]
  | cons x xs ih =>
    simp only [List.cons_append, verifyLinksAfter, unit_bind, ih]
    have hlast : xs.getLast?.or (some x) = (x :: xs).getLast?.or prev := by
      rw [List.getLast?_cons, Option.some_or]
      cases xs.getLast? with
      | none => rfl
      | some y => rfl
    rw [and_assoc, hlast]

theorem verifyLinksAfter_tail {address : String} {prev : Option RotationEntry}
    (h : verifyLinksAfter rt address prev (e :: chain) = .ok ()) :
    verifyLinksAfter rt address none chain = .ok () := by
  simp only [verifyLinksAfter, unit_bind] at h
  cases chain with
  | nil => rfl
  | cons x xs =>
    simp only [verifyLinksAfter, unit_bind] at h ⊢
    refine ⟨?_, h.2.2⟩
    obtain ⟨hverify, haddress⟩ := verifyLink_entry h.2.1
    simp only [verifyLink, unit_bind, require_eq_ok]
    exact ⟨hverify, haddress, rfl⟩

theorem verifyChainLinks_drop {address : String} (h : verifyChainLinks rt chain address = .ok ())
    (n : ℕ) :
    verifyChainLinks rt (chain.drop n) address = .ok () := by
  induction n generalizing chain with
  | zero => exact h
  | succ n ih =>
    cases chain with
    | nil => exact h
    | cons e chain => exact ih (verifyLinksAfter_tail h)

theorem verifyLinksAfter_of_reread {address : String} {prev : Option RotationEntry}
    (hverify : ∀ e ∈ chain, e.verify rt = .ok ())
    (h : verifyLinksAfter rt address (prev.map RotationEntry.reread)
      (chain.map RotationEntry.reread) =
      .ok ()) :
    verifyLinksAfter rt address prev chain = .ok () := by
  induction chain generalizing prev with
  | nil => rfl
  | cons e chain ih =>
    simp only [List.map_cons, verifyLinksAfter, unit_bind] at h ⊢
    refine ⟨?_, ih (fun e' he' => hverify e' (List.mem_cons_of_mem _ he')) h.2⟩
    have haddress : Strings.equalFold rt.unicode e.address address = true :=
      (verifyLink_entry h.1).2
    have hlink := h.1
    simp only [verifyLink, unit_bind, require_eq_ok] at hlink ⊢
    refine ⟨hverify e (List.mem_cons_self ..), haddress, ?_⟩
    cases prev with
    | none => rfl
    | some prev => exact RotationEntry.continues_of_reread hlink.2.2

theorem RotationEntry.Stable.reread (h : e.Stable) : e.reread.Stable := by
  constructor
  · rw [RotationEntry.reread, Time.wholeSecond_wholeSecond]
    exact h.rotatedAt
  · intro cred hcred
    obtain ⟨cred', -, rfl⟩ := Option.map_eq_some_iff.mp hcred
    rw [Credential.fromProto_toProto_fromProto]

theorem Built.verify (h : Built rt prev rot e) (hready : rot.Ready rt prev)
    (hsha : ∀ b, (rt.sha256 b).length = 32) (haddress : validateAddress prev.address = true)
    (hkey : prev.ed25519Public.length = 32) (hstable : e.Stable) : e.verify rt = .ok () := by
  refine RotationEntry.verify_eq_ok.mpr ⟨RotationEntry.checkShape_eq_ok.mpr ?_, h.consented,
    h.attested, h.accepted⟩
  refine ⟨?_, ?_, ⟨?_, ?_, ?_⟩, ?_, ?_, Time.isZero_of_wholeSecond hstable.rotatedAt, ?_, ?_⟩
  · rw [h.version]
    decide
  · rw [h.address]
    exact haddress
  · rw [h.retiredKey]
    exact hkey
  · rw [h.nextKey]
    exact (length_of_signsFor hready.next).1
  · rw [h.authorizing]
    exact (length_of_signsFor hready.consent).1
  · rw [h.retiredKey, h.nextKey]
    exact hready.newKey
  · rw [h.retiredMailboxKey, h.nextMailboxKey]
    exact hready.newMailboxKey
  · rw [h.nextRevision]
    intro hzero
    have hadvances := h.advances
    rw [hzero, UInt64.lt_iff_toNat_lt] at hadvances
    exact absurd hadvances (Nat.not_lt_zero _)
  · rw [h.prevHash]
    cases prev.rotationChain.getLast? with
    | none => exact .inl rfl
    | some last => exact .inr (hsha _)

/-- The chain of the record can be continued: it verifies as it is read back, and its last entry
hands over to the keys of the record. -/
structure Continuable (rt : Runtime) (rec : IdentityRecord) : Prop where
  address : validateAddress rec.address = true
  key : rec.ed25519Public.length = 32
  entries : ∀ e ∈ rec.rotationChain, e.verify rt = .ok () ∧ e.Stable
  linked : verifyChainLinks rt (rec.rotationChain.map RotationEntry.reread) rec.address = .ok ()
  lands : ∀ last, rec.rotationChain.getLast? = some last →
    last.nextEd25519Public = rec.ed25519Public ∧ last.nextX25519Public = rec.x25519Public ∧
    last.nextRevision ≤ rec.revision

theorem Continuable.link (h : Continuable rt prev) (hbuilt : Built rt prev rot e)
    (hverify : e.verify rt = .ok ()) (hstable : e.Stable)
    (hlater : ∀ last, prev.rotationChain.getLast? = some last →
      e.rotatedAt.wholeSecond.after last.rotatedAt.wholeSecond = true) :
    verifyLink rt prev.address (prev.rotationChain.map RotationEntry.reread).getLast? e.reread =
      .ok () := by
  simp only [verifyLink, unit_bind, require_eq_ok]
  refine ⟨hstable.verify_reread hverify, ?_, ?_⟩
  · change Strings.equalFold rt.unicode e.address prev.address = true
    rw [hbuilt.address]
    exact Strings.equalFold_refl _
  · rw [List.getLast?_map]
    cases hlast : prev.rotationChain.getLast? with
    | none => rfl
    | some last =>
      obtain ⟨hed, hx, hrev⟩ := h.lands last hlast
      have hhash := hbuilt.prevHash
      rw [hlast] at hhash
      simp only [Option.map_some, RotationEntry.continues, unit_bind, require_eq_ok, refuse_eq_ok]
      refine ⟨⟨hbuilt.retiredKey.trans hed.symm, hbuilt.retiredMailboxKey.trans hx.symm⟩, hhash,
        hlater last hlast, ?_⟩
      change ¬ e.nextRevision ≤ last.nextRevision
      rw [UInt64.not_le, hbuilt.nextRevision]
      exact UInt64.lt_of_le_of_lt hrev hbuilt.advances

theorem appendRotation_eq_rtake (prev : IdentityRecord) (e : RotationEntry) :
    appendRotation prev e = (prev.rotationChain ++ [e]).rtake maxRotationChain := by
  unfold appendRotation List.rtake
  dsimp only
  split
  · rfl
  · next h =>
    have hzero : (prev.rotationChain ++ [e]).length - maxRotationChain = 0 := by omega
    rw [hzero, List.drop_zero]

theorem appendRotation_eq (prev : IdentityRecord) (e : RotationEntry) :
    appendRotation prev e = prev.rotationChain.rtake 7 ++ [e] := by
  rw [appendRotation_eq_rtake, maxRotationChain, List.rtake_concat_succ]

/-- The record that takes the address over: the new keys, the revision of the entry, and the chain
extended by it. The rest of the record is the owner's to fill in. -/
structure Installs (prev : IdentityRecord) (rot : Rotation) (e : RotationEntry)
    (next : IdentityRecord) :
    Prop where
  address : next.address = prev.address
  key : next.ed25519Public = rot.next.ed25519Public
  mailboxKey : next.x25519Public = rot.next.x25519Public
  revision : next.revision = rot.nextRevision
  chain : next.rotationChain = appendRotation prev e

theorem Continuable.installs {prev next : IdentityRecord} (h : Continuable rt prev)
    (hready : rot.Ready rt prev) (hsha : ∀ b, (rt.sha256 b).length = 32)
    (hbuilt : Built rt prev rot e) (hstable : e.Stable)
    (hlater : ∀ last, prev.rotationChain.getLast? = some last →
      e.rotatedAt.wholeSecond.after last.rotatedAt.wholeSecond = true)
    (hnext : Installs prev rot e next) : Continuable rt next := by
  have hverify : e.verify rt = .ok () := hbuilt.verify hready hsha h.address h.key hstable
  have hchain := hnext.chain
  rw [appendRotation_eq] at hchain
  refine ⟨?_, ?_, ?_, ?_, ?_⟩
  · rw [hnext.address]
    exact h.address
  · rw [hnext.key]
    exact (length_of_signsFor hready.next).1
  · intro e' he'
    rw [hchain, List.mem_append, List.mem_singleton] at he'
    rcases he' with hold | rfl
    · exact h.entries e' (List.mem_of_mem_drop hold)
    · exact ⟨hverify, hstable⟩
  · have hlink := h.link hbuilt hverify hstable hlater
    have hwhole : verifyChainLinks rt ((prev.rotationChain ++ [e]).map RotationEntry.reread)
        prev.address = .ok () := by
      rw [List.map_append, List.map_singleton]
      refine verifyLinksAfter_concat.mpr ⟨h.linked, ?_⟩
      rw [Option.or_none]
      exact hlink
    rw [hnext.chain, appendRotation_eq_rtake, List.rtake, List.map_drop, hnext.address]
    exact verifyChainLinks_drop hwhole _
  · intro last hlast
    rw [hchain, List.getLast?_concat] at hlast
    cases hlast
    refine ⟨hbuilt.nextKey.trans hnext.key.symm, hbuilt.nextMailboxKey.trans hnext.mailboxKey.symm,
      ?_⟩
    rw [hbuilt.nextRevision, hnext.revision]
    exact UInt64.le_refl _

theorem rotationChainFromProto_eq_reread (chain : List RotationEntry) :
    rotationChainFromProto (chain.map RotationEntry.toProto) =
      some (chain.map RotationEntry.reread) := by
  unfold rotationChainFromProto
  induction chain with
  | nil => rfl
  | cons e chain ih =>
    rw [List.map_cons, List.mapM_cons, RotationEntry.fromProto_toProto_eq_reread, ih]
    rfl

structure Reloaded (rec rec' : IdentityRecord) : Prop where
  address : rec'.address = rec.address
  key : rec'.ed25519Public = rec.ed25519Public
  mailboxKey : rec'.x25519Public = rec.x25519Public
  revision : rec'.revision = rec.revision
  chain : rec'.rotationChain = rec.rotationChain.map RotationEntry.reread

theorem reloaded_of_fromProtoBytes {rec rec' : IdentityRecord}
    (h : IdentityRecord.fromProtoBytes rt (rt.identityRecord.marshal rec.toProto) = some rec') :
    Reloaded rec rec' := by
  unfold IdentityRecord.fromProtoBytes at h
  rw [Codec.unmarshal_marshal, Option.bind_some] at h
  obtain ⟨-, -, chain, hchain, rfl⟩ := IdentityRecord.fromProto_eq_some.mp h
  have hread : chain = rec.rotationChain.map RotationEntry.reread := by
    change rotationChainFromProto (rec.rotationChain.map RotationEntry.toProto) =
      some chain at hchain
    rw [rotationChainFromProto_eq_reread] at hchain
    exact (Option.some.inj hchain).symm
  subst hread
  exact ⟨rfl, rfl, Fixed.copy_val _, rfl, rfl⟩

variable {rec : IdentityRecord}

theorem reread_of_fromProtoBytes {data : Bytes}
    (h : IdentityRecord.fromProtoBytes rt data = some rec) :
    rec.rotationChain.map RotationEntry.reread = rec.rotationChain := by
  have hreload := reloaded_of_fromProtoBytes (IdentityRecord.fromProtoBytes_marshal h)
  exact hreload.chain.symm

theorem Continuable.reload {rec rec' : IdentityRecord} (h : Continuable rt rec)
    (hrec : Reloaded rec rec') : Continuable rt rec' := by
  have hagain : (rec.rotationChain.map RotationEntry.reread).map RotationEntry.reread =
      rec.rotationChain.map RotationEntry.reread := by
    rw [List.map_map]
    exact List.map_congr_left fun e _ => e.reread_reread
  refine ⟨?_, ?_, ?_, ?_, ?_⟩
  · rw [hrec.address]
    exact h.address
  · rw [hrec.key]
    exact h.key
  · intro e he
    rw [hrec.chain] at he
    obtain ⟨e', he', rfl⟩ := List.mem_map.mp he
    obtain ⟨hverify, hstable⟩ := h.entries e' he'
    exact ⟨hstable.verify_reread hverify, hstable.reread⟩
  · rw [hrec.chain, hrec.address, hagain]
    exact h.linked
  · intro last hlast
    rw [hrec.chain, List.getLast?_map] at hlast
    obtain ⟨last', hlast', rfl⟩ := Option.map_eq_some_iff.mp hlast
    obtain ⟨hed, hx, hrev⟩ := h.lands last' hlast'
    rw [hrec.key, hrec.mailboxKey, hrec.revision]
    exact ⟨hed, hx, hrev⟩

/-- The records a run of rotations leads to, with the entries made on the way, oldest first. Between
rotations the record may be encoded and read back. -/
inductive Produced (rt : Runtime) (first : IdentityRecord) : List RotationEntry → IdentityRecord →
    Prop
  | first : Produced rt first [] first
  | reload {history : List RotationEntry} {rec rec' : IdentityRecord}
    (h : Produced rt first history rec)
      (hread : IdentityRecord.fromProtoBytes rt (rt.identityRecord.marshal rec.toProto) =
        some rec') :
      Produced rt first history rec'
  | rotate {history : List RotationEntry} {rec next : IdentityRecord} {rot : Rotation}
    {e : RotationEntry}
      (h : Produced rt first history rec) (hready : rot.Ready rt rec)
      (hlater : ∀ last, history.getLast? = some last →
        rot.at_.wholeSecond.after last.rotatedAt.wholeSecond = true)
      (hbuild : buildRotation rt rec rot = .ok e) (hnext : Installs rec rot e next) :
      Produced rt first (history ++ [e]) next

def retained (history : List RotationEntry) : List RotationEntry := history.rtake maxRotationChain

structure Kept (history : List RotationEntry) (rec : IdentityRecord) : Prop where
  retained : rec.rotationChain.map RotationEntry.reread =
    (retained history).map RotationEntry.reread
  genesis : ∀ e rest, history = e :: rest →
    e.prevSignatureHash = [] ∧ ∀ e' ∈ rest, e'.prevSignatureHash ≠ []
  revision : ∀ last, rec.rotationChain.getLast? = some last → last.nextRevision = rec.revision

theorem getLast?_rtake {α : Type} (l : List α) (n : ℕ) :
    (l.rtake (n + 1)).getLast? = l.getLast? := by
  induction l using List.reverseRecOn with
  | nil => simp
  | append_singleton l a ih =>
    rw [List.rtake_concat_succ, List.getLast?_concat, List.getLast?_concat]

theorem getLast?_retained (history : List RotationEntry) :
    (retained history).getLast? = history.getLast? := getLast?_rtake history 7

theorem rtake_retained (history : List RotationEntry) :
    (retained history).rtake 7 = history.rtake 7 := by
  rw [retained, List.rtake_eq_reverse_take_reverse, List.rtake_eq_reverse_take_reverse,
    List.reverse_reverse, List.take_take, List.rtake_eq_reverse_take_reverse]
  rfl

variable {history : List RotationEntry}

theorem Kept.getLast? (h : Kept history rec) :
    rec.rotationChain.getLast?.map RotationEntry.reread =
      history.getLast?.map RotationEntry.reread := by
  rw [← List.getLast?_map, h.retained, List.getLast?_map, getLast?_retained]

theorem Kept.length (h : Kept history rec) :
    rec.rotationChain.length = min history.length maxRotationChain := by
  have hlength := congrArg List.length h.retained
  rw [List.length_map, List.length_map, Dmcn.retained, List.rtake, List.length_drop] at hlength
  omega

theorem Kept.reload {rec rec' : IdentityRecord} (h : Kept history rec) (hrec : Reloaded rec rec')
    : Kept history rec' := by
  refine ⟨?_, h.genesis, ?_⟩
  · rw [hrec.chain, List.map_map, ← h.retained]
    exact List.map_congr_left fun e _ => e.reread_reread
  · intro last hlast
    rw [hrec.chain, List.getLast?_map] at hlast
    obtain ⟨last', hlast', rfl⟩ := Option.map_eq_some_iff.mp hlast
    rw [hrec.revision]
    exact h.revision last' hlast'

theorem Kept.rotate {rec next : IdentityRecord} (h : Kept history rec)
    (hsha : ∀ b, (rt.sha256 b).length = 32) (hbuilt : Built rt rec rot e)
    (hnext : Installs rec rot e next) :
    Kept (history ++ [e]) next := by
  have hmap : ∀ l : List RotationEntry, (l.rtake 7).map RotationEntry.reread =
      (l.map RotationEntry.reread).rtake 7 := by
    intro l
    rw [List.rtake, List.rtake, List.map_drop, List.length_map]
  refine ⟨?_, ?_, ?_⟩
  · rw [hnext.chain, appendRotation_eq, Dmcn.retained, maxRotationChain, List.rtake_concat_succ,
      List.map_append, List.map_append, hmap, h.retained, ← hmap, rtake_retained]
  · intro e₀ rest hsplit
    cases history with
    | nil =>
      obtain ⟨rfl, rfl⟩ := List.cons.inj hsplit
      have hnone : rec.rotationChain.getLast? = none := by
        have hlast := h.getLast?
        rwa [List.getLast?_nil, Option.map_none, Option.map_eq_none_iff] at hlast
      have hhash := hbuilt.prevHash
      rw [hnone] at hhash
      exact ⟨hhash, fun e' he' => absurd he' List.not_mem_nil⟩
    | cons x xs =>
      obtain ⟨rfl, rfl⟩ := List.cons.inj hsplit
      obtain ⟨hfirst, hrest⟩ := h.genesis x xs rfl
      refine ⟨hfirst, ?_⟩
      intro e' he'
      rcases List.mem_append.mp he' with hold | hnew
      · exact hrest e' hold
      · cases List.mem_singleton.mp hnew
        -- there is an entry to chain to, so the hash is there
        have hlast := h.getLast?
        rw [List.getLast?_cons, Option.map_some] at hlast
        obtain ⟨last, hlast', -⟩ := Option.map_eq_some_iff.mp hlast
        rw [hbuilt.prevHash, hlast']
        intro hnil
        have hsize := hsha last.signature
        rw [show rt.sha256 last.signature = [] from hnil] at hsize
        cases hsize
  · intro last hlast
    rw [hnext.chain, appendRotation_eq, List.getLast?_concat] at hlast
    cases hlast
    rw [hbuilt.nextRevision, hnext.revision]

theorem produced_invariant {first rec : IdentityRecord} (hsha : ∀ b, (rt.sha256 b).length = 32)
    (hself : first.verify rt = true) (hempty : first.rotationChain = [])
    (haddress : validateAddress first.address = true) (h : Produced rt first history rec)
    (hstable : ∀ e ∈ history, e.Stable) :
    Continuable rt rec ∧ Kept history rec := by
  induction h with
  | first =>
    refine ⟨⟨haddress, (verifyCtx_ed25519 hself).1, ?_, ?_, ?_⟩, ?_, ?_, ?_⟩
    · simp [hempty]
    · rw [hempty]
      rfl
    · simp [hempty]
    · rw [hempty]
      rfl
    · intro e rest hsplit
      cases hsplit
    · simp [hempty]
  | reload h hread ih =>
    obtain ⟨hcont, hkept⟩ := ih hstable
    have hrec := reloaded_of_fromProtoBytes hread
    exact ⟨hcont.reload hrec, hkept.reload hrec⟩
  | @rotate history rec next rot e h hready hlater hbuild hnext ih =>
    obtain ⟨hcont, hkept⟩ := ih fun e' he' => hstable e' (List.mem_append_left _ he')
    have hbuilt := built_of_buildRotation hready hbuild
    have hnew : e.Stable := hstable e (List.mem_append_right _ (List.mem_singleton.mpr rfl))
    refine ⟨hcont.installs hready hsha hbuilt hnew ?_ hnext, hkept.rotate hsha hbuilt hnext⟩
    intro last hlast
    have hsame := hkept.getLast?
    rw [hlast, Option.map_some] at hsame
    obtain ⟨old, hold, hread⟩ := Option.map_eq_some_iff.mp hsame.symm
    have htime : old.rotatedAt.wholeSecond = last.rotatedAt.wholeSecond :=
      congrArg RotationEntry.rotatedAt hread
    rw [hbuilt.rotatedAt, ← htime]
    exact hlater old hold

theorem verifyRotationChain_of_continuable (h : Continuable rt rec)
    (hlength : rec.rotationChain.length ≤ maxRotationChain)
    (hrevision : ∀ last, rec.rotationChain.getLast? = some last →
      last.nextRevision = rec.revision) :
    verifyRotationChain rt rec = .ok () := by
  unfold verifyRotationChain
  cases hlast : rec.rotationChain.getLast? with
  | none => rfl
  | some last =>
    obtain ⟨hed, hx, -⟩ := h.lands last hlast
    simp only [unit_bind, require_eq_ok, refuse_eq_ok, Nat.not_lt]
    refine ⟨hlength, ?_, ⟨hed, hx⟩, hrevision last hlast⟩
    exact verifyLinksAfter_of_reread (fun e he => (h.entries e he).1) h.linked

theorem Kept.truncated_iff (h : Kept history rec) :
    chainTruncated rec.rotationChain = true ↔ maxRotationChain < history.length := by
  have hhead : chainTruncated rec.rotationChain = chainTruncated (Dmcn.retained history) := by
    have hmap : ∀ l : List RotationEntry,
        chainTruncated (l.map RotationEntry.reread) = chainTruncated l := by
      intro l
      cases l with
      | nil => rfl
      | cons e l => rfl
    rw [← hmap, h.retained, hmap]
  rw [hhead, Dmcn.retained, List.rtake]
  cases history with
  | nil => simp [chainTruncated]
  | cons e rest =>
    obtain ⟨hfirst, hrest⟩ := h.genesis e rest rfl
    by_cases hlong : maxRotationChain < (e :: rest).length
    · obtain ⟨k, hk⟩ : ∃ k, (e :: rest).length - maxRotationChain = k + 1 :=
        ⟨(e :: rest).length - maxRotationChain - 1, by omega⟩
      rw [hk, List.drop_succ_cons]
      refine iff_of_true ?_ hlong
      cases hdrop : rest.drop k with
      | nil =>
        have hshort := congrArg List.length hdrop
        simp only [List.length_drop, List.length_nil, List.length_cons,
          maxRotationChain] at hshort hk
        omega
      | cons x xs =>
        have hmem : x ∈ rest := List.mem_of_mem_drop (hdrop ▸ List.mem_cons_self ..)
        simp [chainTruncated, hrest x hmem]
    · have hzero : (e :: rest).length - maxRotationChain = 0 := by omega
      rw [hzero, List.drop_zero]
      refine iff_of_false ?_ hlong
      simp [chainTruncated, hfirst]

theorem rotatedFrom_isSome {pub : Bytes}
    (hkeys : ∀ e ∈ rec.rotationChain, e.retiredEd25519Public.length = 32) :
    (rotatedFrom rec pub).isSome = true ↔
      pub ∈ rec.rotationChain.map RotationEntry.retiredEd25519Public := by
  unfold rotatedFrom
  constructor
  · intro hsome
    split at hsome
    · cases hsome
    · rw [Option.isSome_map, List.find?_isSome] at hsome
      obtain ⟨e, he, hpub⟩ := hsome
      exact List.mem_map.mpr ⟨e, he, eq_of_beq hpub⟩
  · intro hmem
    obtain ⟨e, he, rfl⟩ := List.mem_map.mp hmem
    have hne : ¬ e.retiredEd25519Public.isEmpty = true := by
      intro hempty
      have hsize := hkeys e he
      rw [List.isEmpty_iff.mp hempty] at hsize
      cases hsize
    rw [if_neg hne, Option.isSome_map, List.find?_isSome]
    exact ⟨e, he, beq_self_eq_true _⟩

/-- Over every run of rotations from a self-signed record at a well-formed address, with the record
encoded and read back at will: the chain verifies, it has the latest entries and no more than the
limit, it tells whether any are missing, and it names the keys retired by the entries it has. A
further rotation to a higher revision can always be built. -/
theorem produced_chain_verifies {first rec : IdentityRecord} {history : List RotationEntry}
    (hsha : ∀ b, (rt.sha256 b).length = 32) (hself : first.verify rt = true)
    (hempty : first.rotationChain = []) (haddress : validateAddress first.address = true)
    (h : Produced rt first history rec) (hstable : ∀ e ∈ history, e.Stable) :
    verifyRotationChain rt rec = .ok () ∧
    rec.rotationChain.length = min history.length maxRotationChain ∧
    (chainTruncated rec.rotationChain = true ↔ maxRotationChain < history.length) ∧
    (∀ pub, (rotatedFrom rec pub).isSome = true ↔
      pub ∈ (retained history).map RotationEntry.retiredEd25519Public) ∧
    ∀ rot : Rotation, rot.Ready rt rec → rec.revision < rot.nextRevision →
      ∃ e, buildRotation rt rec rot = .ok e := by
  obtain ⟨hcont, hkept⟩ := produced_invariant hsha hself hempty haddress h hstable
  have hlength := hkept.length
  refine ⟨verifyRotationChain_of_continuable hcont (by omega) hkept.revision, hlength,
    hkept.truncated_iff, ?_, fun rot hready hrev => exists_buildRotation hready hrev⟩
  intro pub
  have hkeys : ∀ e ∈ rec.rotationChain, e.retiredEd25519Public.length = 32 := by
    intro e he
    have hshape := (RotationEntry.verify_eq_ok.mp (hcont.entries e he).1).1
    exact (RotationEntry.checkShape_eq_ok.mp hshape).2.2.1.1
  have hretired : rec.rotationChain.map RotationEntry.retiredEd25519Public =
      (retained history).map RotationEntry.retiredEd25519Public := by
    have hmap := congrArg (List.map RotationEntry.retiredEd25519Public) hkept.retained
    rw [List.map_map, List.map_map] at hmap
    exact hmap
  rw [rotatedFrom_isSome hkeys, hretired]

/-! One rotation, from key 2 to key 3. -/
namespace Rotated

def keys (b : UInt8) : IdentityKeyPair := ⟨keyOf b, [], Fixed.copy 32 (keyOf b)⟩

def record (address : String) : IdentityRecord :=
  .ofMessage { plainRecord address 2 with x25519PublicKey := keyOf 2 } []

def rotation (at_ : Time) (device : Option (Credential × Bytes)) : Rotation :=
  ⟨keys 3, 2, at_, keys 2, device⟩

def successor (prev : IdentityRecord) (rot : Rotation) (e : RotationEntry) : IdentityRecord :=
  { prev with
    ed25519Public := rot.next.ed25519Public, x25519Public := rot.next.x25519Public
    revision := rot.nextRevision, rotationChain := appendRotation prev e }

theorem produced (rt : Runtime) (address : String) (at_ : Time)
    (device : Option (Credential × Bytes))
    (hsigns : ∀ key, AddressRemovalRecord.SignsFor rt [] (keyOf key))
    (hdevice : ∀ cred priv, device = some (cred, priv) →
      AddressRemovalRecord.SignsFor rt priv cred.subject) :
    ∃ e, Built rt (record address) (rotation at_ device) e ∧
      Produced rt (record address) [e] (successor (record address) (rotation at_ device) e) := by
  have hmailbox : (record address).x25519Public ≠ (rotation at_ device).next.x25519Public := by
    change Fixed.copy 32 (keyOf 2) ≠ Fixed.copy 32 (keyOf 3)
    decide
  have hready : (rotation at_ device).Ready rt (record address) := by
    refine ⟨hsigns 3, hsigns 2, hdevice, ?_, hmailbox⟩
    change keyOf 2 ≠ keyOf 3
    decide
  obtain ⟨e, he⟩ := exists_buildRotation hready (show (1 : UInt64) < 2 by decide)
  refine ⟨e, built_of_buildRotation hready he, ?_⟩
  change Produced rt (record address) ([] ++ [e]) _
  refine .rotate .first hready ?_ he ⟨rfl, rfl, rfl, rfl, rfl⟩
  intro last hlast
  cases hlast

theorem getLast?_successor (address : String) (rot : Rotation) (e : RotationEntry) :
    (successor (record address) rot e).rotationChain.getLast? = some e := by
  change (appendRotation (record address) e).getLast? = some e
  rw [appendRotation_eq, List.getLast?_concat]

noncomputable def runtime (stamp : Bytes → Bytes) : Runtime :=
  { idealRuntime [] [] with
    ed25519Sign := fun _ message => stamp message
    ed25519Verify := fun _ message sig => sig == stamp message }

theorem signsFor {stamp : Bytes → Bytes} (hstamp : ∀ message, (stamp message).length = 64)
    (priv : Bytes) (key : UInt8) : AddressRemovalRecord.SignsFor (runtime stamp) priv
    (keyOf key) := by
  intro message
  simp [Crypto.verify, runtime, Crypto.ed25519PublicKeySize, Crypto.ed25519SignatureSize, hstamp]

def zeros : Bytes := List.replicate 64 0

theorem verify_of_zeros {stamp : Bytes → Bytes} {rec : IdentityRecord}
    (hstamp : ∀ data, stamp (Ctx.identitySelf.tag ++ data) = zeros)
    (hkey : rec.ed25519Public.length = 32) (hsig : rec.selfSignature.val = zeros) :
    rec.verify (runtime stamp) = true := by
  unfold IdentityRecord.verify verifyCtx Crypto.verify
  rw [hsig, hkey]
  change (true && true && zeros == stamp _) = true
  rw [hstamp]
  rfl

theorem verify_record {stamp : Bytes → Bytes} (address : String)
    (hstamp : ∀ data, stamp (Ctx.identitySelf.tag ++ data) = zeros) :
    (record address).verify (runtime stamp) = true := by
  refine verify_of_zeros hstamp (length_keyOf 2) ?_
  change (Fixed.copy 64 []).val = zeros
  decide

theorem stable_of_plain {prev : IdentityRecord} {e : RotationEntry}
    (h : Built rt prev (rotation (Time.ofUnix 100) none) e) : e.Stable := by
  constructor
  · rw [h.rotatedAt, rotation, Time.wholeSecond_ofUnix]
    decide
  · intro cred hcred
    cases h.deviceCredential.symm.trans hcred

theorem one_rotation_verifies :
    ∃ e next, Produced (runtime fun _ => zeros) (record "alice@example.org") [e] next ∧
      verifyRotationChain (runtime fun _ => zeros) next = .ok () ∧ next.rotationChain.length =
      1 := by
  obtain ⟨e, hbuilt, hproduced⟩ :=
    produced (runtime fun _ => zeros) "alice@example.org" (Time.ofUnix 100)
    none (signsFor (fun _ => by decide) []) (by simp)
  have hstable : ∀ e' ∈ [e], e'.Stable := by
    intro e' he'
    cases List.mem_singleton.mp he'
    exact stable_of_plain hbuilt
  have hall :=
    produced_chain_verifies (fun b => Fixed.length_val _) (verify_record _ fun _ => rfl) rfl
    (by decide)
    hproduced hstable
  exact ⟨e, _, hproduced, hall.1, hall.2.1⟩

theorem not_ok_of_last {rt : Runtime} {rec : IdentityRecord} {last : RotationEntry}
    (hlast : rec.rotationChain.getLast? = some last) (h : last.verify rt ≠ .ok ()) :
    verifyRotationChain rt rec ≠ .ok () := by
  intro hok
  exact h (verifyRotationChain_last hok hlast).1

theorem unnamed_device_refused (rt : Runtime)
    (hsigns : ∀ key, AddressRemovalRecord.SignsFor rt [] (keyOf key)) :
    ∃ e₀ e₁ e₂ e, newRotationEntry rt (record "alice@example.org") (keys 3).ed25519Public
        (keys 3).x25519Public 2 (Time.ofUnix 100) = .ok e₀ ∧
      e₀.signDevice rt [] = .ok e₁ ∧ e₁.signConsent rt (keys 2) = .ok e₂ ∧
      e₂.signAcceptance rt (keys 3) = .ok e ∧
      verifyRotationChain rt
      (successor (record "alice@example.org") (rotation (Time.ofUnix 100) none) e) ≠
        .ok () := by
  have hsize : ∀ message, (rt.ed25519Sign [] message).length = 64 :=
    (length_of_signsFor (hsigns 2)).2
  obtain ⟨e₀, he₀⟩ : ∃ e₀, newRotationEntry rt (record "alice@example.org") (keys 3).ed25519Public
      (keys 3).x25519Public 2 (Time.ofUnix 100) = .ok e₀ := by
    simp only [newRotationEntry, unit_bind, refuse_eq_ok, pure_eq_ok]
    exact ⟨_, by decide, rfl⟩
  have hauth : e₀.authorizingEd25519Public = keyOf 2 ∧ e₀.deviceCredential = none := by
    simp only [newRotationEntry, unit_bind, pure_eq_ok] at he₀
    obtain ⟨-, rfl⟩ := he₀
    exact ⟨rfl, rfl⟩
  obtain ⟨e₁, he₁⟩ : ∃ e₁, e₀.signDevice rt [] = .ok e₁ := by
    simp only [RotationEntry.signDevice, unit_bind, refuse_eq_ok, pure_eq_ok]
    refine ⟨_, ?_, rfl⟩
    rw [hauth.1]
    decide
  have hdevice : e₁.authorizingEd25519Public = keyOf 2 ∧ e₁.deviceCredential = none ∧
      e₁.deviceSignature.length = 64 := by
    simp only [RotationEntry.signDevice, unit_bind, pure_eq_ok] at he₁
    obtain ⟨-, rfl⟩ := he₁
    exact ⟨hauth.1, hauth.2, hsize _⟩
  obtain ⟨e₂, he₂⟩ : ∃ e₂, e₁.signConsent rt (keys 2) = .ok e₂ := by
    simp only [RotationEntry.signConsent, unit_bind, require_eq_ok, pure_eq_ok]
    exact ⟨_, hdevice.1, rfl⟩
  have hconsent : e₂.deviceCredential = none ∧ e₂.deviceSignature.length = 64 ∧
      e₂.signature.length = 64 := by
    simp only [RotationEntry.signConsent, unit_bind, pure_eq_ok] at he₂
    obtain ⟨-, rfl⟩ := he₂
    exact ⟨hdevice.2.1, hdevice.2.2, hsize _⟩
  obtain ⟨e, he⟩ : ∃ e, e₂.signAcceptance rt (keys 3) = .ok e := by
    simp only [RotationEntry.signAcceptance, unit_bind, refuse_eq_ok, pure_eq_ok]
    refine ⟨_, ?_, rfl⟩
    rw [hconsent.2.2]
    decide
  refine ⟨e₀, e₁, e₂, e, he₀, he₁, he₂, he, not_ok_of_last (getLast?_successor _ _ e) ?_⟩
  simp only [RotationEntry.signAcceptance, unit_bind, pure_eq_ok] at he
  obtain ⟨-, rfl⟩ := he
  intro hverify
  have hchecked := (RotationEntry.verify_eq_ok.mp hverify).2.2.1
  simp only [RotationEntry.checkDevice, hconsent.1, require_eq_ok, List.isEmpty_iff] at hchecked
  have hnone := hconsent.2.1
  rw [hchecked] at hnone
  cases hnone

/-- A signature of consent that changes when the end of the device's credential is left out. -/
noncomputable def stampEnd (message : Bytes) : Bytes :=
  open Classical in
  if ∃ pb : Pb.RotationEntry, message = Ctx.identityRotation.tag ++
      (someCodec Pb.RotationEntry).marshalDeterministic pb ∧
      pb.deviceCredential.map Pb.Credential.notAfter = some 0
  then List.replicate 64 1 else zeros

theorem length_stampEnd (message : Bytes) : (stampEnd message).length = 64 := by
  unfold stampEnd
  split
  · rfl
  · rfl

theorem stampEnd_consent (pb : Pb.RotationEntry) :
    stampEnd (Ctx.identityRotation.tag ++ (someCodec Pb.RotationEntry).marshalDeterministic pb) =
      zeros ↔
      pb.deviceCredential.map Pb.Credential.notAfter ≠ some 0 := by
  unfold stampEnd
  have hones : List.replicate 64 (1 : UInt8) ≠ zeros := by decide
  split
  · next h =>
    obtain ⟨pb', heq, hend⟩ := h
    have hsame :=
      (someCodec Pb.RotationEntry).marshalDeterministic_injective (List.append_cancel_left heq)
    rw [hsame]
    exact iff_of_false hones (not_not.mpr hend)
  · next h =>
    exact iff_of_true rfl fun hend => h ⟨pb, rfl, hend⟩

def firstSecond : Time := ⟨0, ⟨1, Time.one_lt_nanos⟩⟩

def device : Credential :=
  { (default : Credential) with subject := keyOf 4, notAfter := firstSecond }

theorem toProto_device : device.toProto.notAfter = -62135596800 := by decide

theorem toProto_reread_device : (Credential.fromProto device.toProto).toProto.notAfter = 0 := by
  decide

theorem stampEnd_self (data : Bytes) : stampEnd (Ctx.identitySelf.tag ++ data) = zeros := by
  unfold stampEnd
  refine if_neg ?_
  rintro ⟨pb, heq, -⟩
  cases (Ctx.tag_append_inj heq).1

def Refused (address : String) (at_ : Time) (cred : Option Credential) : Prop :=
  (record address).verify (runtime stampEnd) = true ∧ (record address).rotationChain = [] ∧
  ∃ e next, Produced (runtime stampEnd) (record address) [e] next ∧ e.rotatedAt = at_ ∧
    e.deviceCredential = cred ∧ verifyRotationChain (runtime stampEnd) next ≠ .ok ()

theorem refused_bare_address : Refused "alice" (Time.ofUnix 100) none := by
  obtain ⟨e, hbuilt, hproduced⟩ := produced (runtime stampEnd) "alice" (Time.ofUnix 100) none
    (signsFor length_stampEnd []) (by simp)
  refine ⟨verify_record _ stampEnd_self, rfl, e, _, hproduced, hbuilt.rotatedAt,
    hbuilt.deviceCredential, not_ok_of_last (getLast?_successor _ _ e) ?_⟩
  intro hverify
  have hshape := (RotationEntry.verify_eq_ok.mp hverify).1
  have haddress := (RotationEntry.checkShape_eq_ok.mp hshape).2.1
  rw [hbuilt.address] at haddress
  revert haddress
  change validateAddress "alice" = true → False
  decide

theorem refused_zero_time : Refused "alice@example.org" default none := by
  obtain ⟨e, hbuilt, hproduced⟩ := produced (runtime stampEnd) "alice@example.org" default none
    (signsFor length_stampEnd []) (by simp)
  refine ⟨verify_record _ stampEnd_self, rfl, e, _, hproduced, hbuilt.rotatedAt,
    hbuilt.deviceCredential, not_ok_of_last (getLast?_successor _ _ e) ?_⟩
  intro hverify
  have hshape := (RotationEntry.verify_eq_ok.mp hverify).1
  have htime := (RotationEntry.checkShape_eq_ok.mp hshape).2.2.2.2.2.1
  rw [hbuilt.rotatedAt] at htime
  revert htime
  change ¬ (default : Time).isZero = false
  decide

theorem exists_reload (rt : Runtime) (address : String) (rot : Rotation) (e : RotationEntry) :
    ∃ rec', IdentityRecord.fromProtoBytes rt
      (rt.identityRecord.marshal (successor (record address) rot e).toProto) = some rec' := by
  unfold IdentityRecord.fromProtoBytes
  rw [Codec.unmarshal_marshal, Option.bind_some]
  refine ⟨_, IdentityRecord.fromProto_eq_some.mpr ⟨.inl rfl, ?_, _,
    rotationChainFromProto_eq_reread _, rfl⟩⟩
  change validateForwardTo rt address "" = true
  simp [validateForwardTo]

theorem refused_reread_device :
    Refused "alice@example.org" (Time.ofUnix 100) (some device) := by
  obtain ⟨e, hbuilt, hproduced⟩ := produced (runtime stampEnd) "alice@example.org" (Time.ofUnix 100)
    (some (device, [])) (signsFor length_stampEnd [])
    (by
      intro cred priv hdevice
      cases hdevice
      exact signsFor length_stampEnd [] 4)
  obtain ⟨next, hread⟩ := exists_reload (runtime stampEnd) "alice@example.org" _ e
  have hreload := reloaded_of_fromProtoBytes hread
  have hlast : next.rotationChain.getLast? = some e.reread := by
    rw [hreload.chain, List.getLast?_map, getLast?_successor, Option.map_some]
  refine ⟨verify_record _ stampEnd_self, rfl, e, next, .reload hproduced hread, hbuilt.rotatedAt,
    hbuilt.deviceCredential, not_ok_of_last hlast ?_⟩
  intro hverify
  have hsigned : e.signature = zeros := by
    have hsig := (verifyCtx_ed25519 hbuilt.consented).2.2
    rw [eq_of_beq hsig]
    refine (stampEnd_consent _).mpr ?_
    change (e.deviceCredential.map Credential.toProto).map Pb.Credential.notAfter ≠ some 0
    rw [hbuilt.deviceCredential]
    change some device.toProto.notAfter ≠ some 0
    rw [toProto_device]
    decide
  have hreread := (verifyCtx_ed25519 (RotationEntry.verify_eq_ok.mp hverify).2.1).2.2
  have hzeros := (eq_of_beq hreread).symm.trans hsigned
  refine (stampEnd_consent _).mp hzeros ?_
  change (e.reread.deviceCredential.map Credential.toProto).map Pb.Credential.notAfter = some 0
  have hcred : e.reread.deviceCredential = some (.fromProto device.toProto) := by
    change e.deviceCredential.map _ = _
    rw [hbuilt.deviceCredential]
    rfl
  rw [hcred, Option.map_some, Option.map_some, toProto_reread_device]

/-- Four rotations of a self-signed record after which the chain does not verify: at an address that
is not well formed, at the time that counts as unset, by a device whose credential is read back
without its end, and by a device the entry does not name. -/
theorem one_rotation_refused :
    Refused "alice" (Time.ofUnix 100) none ∧ Refused "alice@example.org" default none ∧
    Refused "alice@example.org" (Time.ofUnix 100) (some device) ∧
    ∃ e₀ e₁ e₂ e, newRotationEntry (runtime stampEnd) (record "alice@example.org")
      (keys 3).ed25519Public
        (keys 3).x25519Public 2 (Time.ofUnix 100) = .ok e₀ ∧
      e₀.signDevice (runtime stampEnd) [] = .ok e₁ ∧ e₁.signConsent (runtime stampEnd) (keys 2) =
      .ok e₂ ∧
      e₂.signAcceptance (runtime stampEnd) (keys 3) = .ok e ∧
      verifyRotationChain (runtime stampEnd)
        (successor (record "alice@example.org") (rotation (Time.ofUnix 100) none) e) ≠ .ok () := by
  exact ⟨refused_bare_address, refused_zero_time, refused_reread_device,
    unnamed_device_refused _ (signsFor length_stampEnd [])⟩

end Rotated

end Dmcn
