import OpenDmcn.IdealRuntime
import OpenDmcn.Identity.Blocklist

/-! The device that attests a rotation (`authorizeRotationDevice` of `verify.go`,
`RotationMinDeviceAge` of `dar.go`): how long it must have been enrolled, and what becomes of one
that is revoked. -/

namespace Go.Time

theorem le_of_le_sub {t u : Time} {d : Duration} (hd : 0 ≤ d.toInt) (h : d ≤ t.sub u) :
    d.toInt ≤ t.nanos - u.nanos := by
  have hle : d.toInt ≤ (t.sub u).toInt := Int64.le_iff_toInt_le.mp h
  have hmax : (9223372036854775807 : Int64).toInt = 9223372036854775807 := rfl
  have hmin : (-9223372036854775808 : Int64).toInt = -9223372036854775808 := rfl
  unfold sub at hle
  split at hle
  · rw [hmax] at hle
    omega
  · split at hle
    · rw [hmin] at hle
      omega
    · rwa [Int64.toInt_ofInt_of_le (by omega) (by omega)] at hle

theorem sub_of_far {t u : Time} (h : 9223372036854775807 < t.nanos - u.nanos) :
    t.sub u = 9223372036854775807 := by
  unfold sub
  rw [if_pos h]

theorem le_sub_of_far {t u : Time} (h : 9223372036854775807 < t.nanos - u.nanos) (d : Duration) :
    d ≤ t.sub u := by
  rw [sub_of_far h, Int64.le_iff_toInt_le]
  exact Int64.toInt_le d

end Go.Time

namespace Dmcn

open Go Guard

section Tenure

def tenureDays (d : UInt32) : ℕ := if d = 0 then 30 else if d = rotationMinDeviceAgeNone then 0
    else d.toNat

def dayNanos : ℤ := 24 * 60 * 60 * 1000000000

/-- Under this policy value no rotation is authorized by a device that has been enrolled for
less. -/
def TenureEnforced (d : UInt32) : Prop :=
  ∀ (rt : Runtime) (e : RotationEntry) (dar : DomainAuthorityRecord) (now : Time),
    dar.rotationMinDeviceAgeDays = d →
    authorizeRotationDevice rt e dar now = .ok () → ∀ cred, e.deviceCredential = some cred →
      tenureDays d * dayNanos ≤ e.rotatedAt.nanos - cred.issuedAt.nanos

def maxTenureDays : ℕ := 106751

theorem toInt_rotationMinDeviceAge {dar : DomainAuthorityRecord}
    (h : dar.rotationMinDeviceAgeDays = rotationMinDeviceAgeNone ∨
      dar.rotationMinDeviceAgeDays.toNat ≤ maxTenureDays) :
    dar.rotationMinDeviceAge.toInt = tenureDays dar.rotationMinDeviceAgeDays * dayNanos := by
  unfold DomainAuthorityRecord.rotationMinDeviceAge tenureDays
  split
  · rfl
  · split
    · rfl
    · next hnone =>
      have hle : dar.rotationMinDeviceAgeDays.toNat ≤ 106751 := h.resolve_left hnone
      have hday : (24 * Duration.hour : Int64).toInt = 86400000000000 := rfl
      have hdays : (Int64.ofNat dar.rotationMinDeviceAgeDays.toNat).toInt =
          dar.rotationMinDeviceAgeDays.toNat :=
        Int64.toInt_ofNat_of_lt (by omega)
      rw [Int64.mul_assoc, Int64.toInt_mul, hdays, hday, Int.bmod_eq_of_le (by omega) (by omega)]
      rfl

theorem tenureEnforced_of_fits {d : UInt32}
    (h : d = rotationMinDeviceAgeNone ∨ d.toNat ≤ maxTenureDays) :
    TenureEnforced d := by
  intro rt e dar now hd hok cred hcred
  obtain ⟨cred', hdevice⟩ := authorizeRotationDevice_eq_ok.mp hok
  obtain rfl : cred = cred' := Option.some.inj (hcred.symm.trans hdevice.named)
  have hfits : dar.rotationMinDeviceAgeDays = rotationMinDeviceAgeNone ∨
      dar.rotationMinDeviceAgeDays.toNat ≤ maxTenureDays := by rwa [hd]
  have hage := toInt_rotationMinDeviceAge hfits
  have hnonneg : 0 ≤ dar.rotationMinDeviceAge.toInt := by
    rw [hage]
    exact Int.mul_nonneg (Int.natCast_nonneg _) (by decide)
  have hle := Time.le_of_le_sub hnonneg hdevice.tenure
  rwa [hage, hd] at hle

end Tenure

/-! A device of the account that the root enrolled itself, at second 100. -/
namespace Enrolled

def account : String := "alice@example.org"

noncomputable def rt₁ : Runtime := idealRuntime [keyOf 1] []

def dar (days : UInt32) : DomainAuthorityRecord :=
  { DomainAuthorityRecord.fromProto (plainAuthority "example.org" 1) with
    rotationMinDeviceAgeDays := days }

def device : Credential := .fromProto (plainCredential "example.org" account roleDevice 1 9)

def entry (rotatedAt : Time) : RotationEntry :=
  ⟨1, account, keyOf 2, .zero 32, keyOf 3, .zero 32, rotatedAt, 2, [], keyOf 2, some device, [], [],
    []⟩

theorem verify_device (days : UInt32) (now : Time) : verifyCredential rt₁ device
    (some (dar days)) none now = .ok () := by
  have hsig : device.verifySignature rt₁ = true := Credential.verifySignature_idealRuntime.mpr
    ⟨length_keyOf 1, List.length_replicate, .inl (List.mem_singleton.mpr rfl)⟩
  have hroot : (dar days).rootKeyAt device.issuedAt = some device.issuerPub :=
    rootKeyAt_plainAuthority "example.org" 1
  have hgranted : roleDevice ∈ rootGrants := by decide
  have htarget : device.target = "example.org" := by decide
  exact verifyCredential_of_root hsig rfl rfl rfl hroot rfl (by decide) hgranted rfl htarget

theorem authorized_of {days : UInt32} {rotatedAt now : Time}
    (hahead : rotatedAt.sub now ≤ rotationSkew)
    (htenure : (dar days).rotationMinDeviceAge ≤ rotatedAt.sub device.issuedAt) :
    authorizeRotationDevice rt₁ (entry rotatedAt) (dar days) now = .ok () := by
  refine authorizeRotationDevice_eq_ok.mpr
    ⟨device, rfl, by decide, ?_, verify_device days rotatedAt, hahead, htenure⟩
  exact Strings.equalFold_refl _

/-- With 106752 days asked for, a device enrolled in the same second authorizes a rotation. -/
theorem wrapped_at_once : authorizeRotationDevice rt₁ (entry (Time.ofUnix 100)) (dar 106752)
    (Time.ofUnix 100) = .ok () ∧
    ¬ TenureEnforced 106752 := by
  have hok : authorizeRotationDevice rt₁ (entry (Time.ofUnix 100)) (dar 106752) (Time.ofUnix 100) =
      .ok () :=
    authorized_of (by decide) (by decide)
  refine ⟨hok, fun h => ?_⟩
  have hage := h rt₁ (entry (Time.ofUnix 100)) (dar 106752) (Time.ofUnix 100) rfl hok device rfl
  exact absurd hage (by decide)

end Enrolled

/-- The minimum is enforced exactly for the values whose days fit, and for the one that asks for
none. -/
theorem tenureEnforced_iff (d : UInt32) :
    TenureEnforced d ↔ d = rotationMinDeviceAgeNone ∨ d.toNat ≤ maxTenureDays := by
  refine ⟨fun h => ?_, tenureEnforced_of_fits⟩
  by_contra hnot
  obtain ⟨hnone, hmany⟩ := not_or.mp hnot
  -- at an age past the range of a duration the difference is cut to the largest one, which no
  -- minimum exceeds
  have hfar : (Time.ofUnix 9223372137).nanos - Enrolled.device.issuedAt.nanos =
      9223372037000000000 := by decide
  have hok : authorizeRotationDevice Enrolled.rt₁ (Enrolled.entry (Time.ofUnix 9223372137))
      (Enrolled.dar d)
      (Time.ofUnix 9223372137) = .ok () :=
    Enrolled.authorized_of (by decide) (Time.le_sub_of_far (by rw [hfar]; decide) _)
  have hage := h Enrolled.rt₁ _ (Enrolled.dar d) _ rfl hok Enrolled.device rfl
  change _ ≤ (Time.ofUnix 9223372137).nanos - Enrolled.device.issuedAt.nanos at hage
  have hzero : d ≠ 0 := by
    rintro rfl
    exact hmany (by decide)
  rw [hfar, tenureDays, if_neg hzero, if_neg hnone, dayNanos] at hage
  unfold maxTenureDays at hmany
  omega

section Revoked

variable {rt : Runtime} {e : RotationEntry} {dar : DomainAuthorityRecord} {now : Time}
  {cred : Credential}
  {blocks : Option CredentialBlockList}

def RevokedBy (blocks : Option CredentialBlockList) (cred : Credential) : Prop :=
  blocked blocks cred.subject cred.issuedAt = true ∨ blocked blocks cred.issuerPub cred.issuedAt =
    true

theorem verifyCredential_revoked (h : RevokedBy blocks cred) (at_ : Time) :
    verifyCredential rt cred (some dar) blocks at_ ≠ .ok () := by
  intro hok
  rw [verifyCredential_some] at hok
  simp only [maxChainDepth, verifyChain, unit_bind] at hok
  have hlink := hok.1
  simp only [checkLink, unit_bind, refuse_eq_ok, Bool.or_eq_true] at hlink
  exact hlink.2.2.2 h

structure OtherwiseAuthorized (rt : Runtime) (e : RotationEntry) (cred : Credential)
    (dar : DomainAuthorityRecord) (now : Time) : Prop where
  role : cred.hasRole roleDevice = true
  address : Strings.equalFold rt.unicode cred.address e.address = true
  chain : verifyCredential rt cred (some dar) none e.rotatedAt = .ok ()
  notAhead : e.rotatedAt.sub now ≤ rotationSkew
  tenure : dar.rotationMinDeviceAge ≤ e.rotatedAt.sub cred.issuedAt

theorem authorizeRotationDevice_iff (hcred : e.deviceCredential = some cred) :
    authorizeRotationDevice rt e dar now = .ok () ↔ OtherwiseAuthorized rt e cred dar now := by
  rw [authorizeRotationDevice_eq_ok]
  constructor
  · rintro ⟨cred', h⟩
    obtain rfl : cred = cred' := Option.some.inj (hcred.symm.trans h.named)
    exact ⟨h.role, h.address, h.chain, h.notAhead, h.tenure⟩
  · intro h
    exact ⟨cred, hcred, h.role, h.address, h.chain, h.notAhead, h.tenure⟩

/-- The rotation that a revoked device attests is refused only if something else is wrong with it,
though the list, had it been asked, refuses the credential at every time. -/
theorem revoked_device_refused_iff (rt : Runtime) (dar : DomainAuthorityRecord)
    (blocks : Option CredentialBlockList) (e : RotationEntry) (now : Time) :
    ((∀ cred, e.deviceCredential = some cred → RevokedBy blocks cred →
      authorizeRotationDevice rt e dar now ≠ .ok ()) ↔
      ∀ cred, e.deviceCredential = some cred → RevokedBy blocks cred →
        ¬ OtherwiseAuthorized rt e cred dar now) ∧
    ∀ cred, RevokedBy blocks cred → ∀ at_, verifyCredential rt cred (some dar) blocks at_ ≠
      .ok () := by
  refine ⟨?_, fun cred h => verifyCredential_revoked h⟩
  constructor
  · intro h cred hcred hrevoked hother
    exact h cred hcred hrevoked ((authorizeRotationDevice_iff hcred).mpr hother)
  · intro h cred hcred hrevoked hok
    exact h cred hcred hrevoked ((authorizeRotationDevice_iff hcred).mp hok)

end Revoked

namespace Enrolled

def revocation : CredentialBlockList :=
  ⟨"example.org", [⟨device.subject, Time.ofUnix 50, true, default, Time.ofUnix 200⟩], 1, .zero 64⟩

/-- A device declared stolen authorizes a rotation, forty days after it was enrolled. -/
theorem stolen_device_authorizes : RevokedBy (some revocation) device ∧
    authorizeRotationDevice rt₁ (entry (Time.ofUnix 3456100)) (dar 0) (Time.ofUnix 3456100) =
      .ok () :=
  ⟨.inl (by decide), authorized_of (by decide) (by decide)⟩

end Enrolled

end Dmcn
