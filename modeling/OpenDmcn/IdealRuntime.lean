import OpenDmcn.Identity.Verify
import OpenDmcn.Lib.Signature

/-! A runtime whose signatures are ideal: a signature verifies under a key exactly when the key is
one of the corrupted ones or its holder has signed the message. The message codecs are any that
meet their laws, so the records of concrete runs are messages whose encoding is never looked at. -/

namespace Dmcn

open Go

def asciiUnicode : Unicode where
  fold := Char.toLower
  lower := Char.toLower
  space := Char.isWhitespace

noncomputable def someCodec (α : Type) [Inhabited α] [Countable α] : Codec α :=
  Classical.choice (Codec.nonempty α)

/-- The ideal runtime over the corrupted keys `held` and the log of what honest holders signed. -/
noncomputable def idealRuntime (held : List Bytes) (log : List (Bytes × Bytes)) : Runtime where
  ed25519Verify := Ideal.tableVerify held log
  ed25519Sign := fun _ _ => List.replicate 64 0
  sha256 := fun b => (Fixed.copy 32 b).val
  unicode := asciiUnicode
  parseAddress := fun s => some ("", s)
  credential := someCodec _
  rotationEntry := someCodec _
  identityRecord := someCodec _
  domainAuthorityRecord := someCodec _
  addressRemovalRecord := someCodec _
  addressHistoryRecord := someCodec _
  credentialBlockList := someCodec _
  fleetRoster := someCodec _

variable {held : List Bytes} {log : List (Bytes × Bytes)}

theorem idealRuntime_unforgeable :
    Ideal.Unforgeable (idealRuntime held log).ed25519Verify (Ideal.tableParty held log) :=
  Ideal.tableVerify_unforgeable held log

theorem verifyCtx_idealRuntime {pub data sig : Bytes} {ctx : Ctx} :
    verifyCtx (idealRuntime held log) pub ctx data sig = true ↔
      pub.length = 32 ∧ sig.length = 64 ∧ (pub ∈ held ∨ (pub, ctx.tag ++ data) ∈ log) := by
  simp [verifyCtx, Crypto.verify, Crypto.ed25519PublicKeySize, Crypto.ed25519SignatureSize,
    idealRuntime, Ideal.tableVerify, and_assoc]

def keyOf (b : UInt8) : Bytes := List.replicate 32 b

@[simp] theorem length_keyOf (b : UInt8) : (keyOf b).length = 32 := by simp [keyOf]

theorem keyOf_injective : Function.Injective keyOf := by
  intro a b h
  simpa [keyOf] using h

theorem DomainAuthorityRecord.verify_idealRuntime {dar : DomainAuthorityRecord}
    (h : dar.authorityEd25519 ∈ held) (hlen : dar.authorityEd25519.length = 32) :
    dar.verify (idealRuntime held log) = true :=
  verifyCtx_idealRuntime.mpr ⟨hlen, by simp, .inl h⟩

theorem IdentityRecord.verify_idealRuntime {rec : IdentityRecord}
    (h : rec.ed25519Public ∈ held) (hlen : rec.ed25519Public.length = 32) :
    rec.verify (idealRuntime held log) = true :=
  verifyCtx_idealRuntime.mpr ⟨hlen, by simp, .inl h⟩

theorem AddressRemovalRecord.verify_idealRuntime {rm : AddressRemovalRecord} {pub : Bytes} :
    rm.verify (idealRuntime held log) pub = true ↔ pub.length = 32 ∧
      (pub ∈ held ∨ (pub, Ctx.addressRemoval.tag ++ rm.signableBytes (idealRuntime held log)) ∈
        log) := by
  unfold AddressRemovalRecord.verify
  rw [verifyCtx_idealRuntime]
  simp

theorem Credential.verifySignature_idealRuntime {c : Credential} :
    c.verifySignature (idealRuntime held log) = true ↔ c.issuerPub.length = 32 ∧
      c.signature.length = 64 ∧ (c.issuerPub ∈ held ∨
        (c.issuerPub, Ctx.credential.tag ++ c.signableBytes (idealRuntime held log)) ∈ log) := by
  unfold Credential.verifySignature
  rw [Bool.and_eq_true, verifyCtx_idealRuntime, beq_iff_eq, Crypto.ed25519PublicKeySize]
  exact ⟨fun h => h.2, fun h => ⟨h.1, h⟩⟩

theorem signsFor_held {pub : Bytes} (priv : Bytes)
    (h : pub ∈ held) (hlen : pub.length = 32) :
    AddressRemovalRecord.SignsFor (idealRuntime held log) priv pub := by
  intro message
  simp [Crypto.verify, Crypto.ed25519PublicKeySize, Crypto.ed25519SignatureSize, idealRuntime,
    Ideal.tableVerify, h, hlen]

theorem IdentityRecord.fromProtoBytes_plain {rt : Runtime} {pb : Pb.IdentityRecord}
    (hchain : pb.rotationChain = []) (hrecovery : pb.recoveryEd25519PublicKey = [])
    (hforward : pb.forwardTo = "") :
    IdentityRecord.fromProtoBytes rt (rt.identityRecord.marshal pb) = some (.ofMessage pb []) := by
  unfold IdentityRecord.fromProtoBytes
  rw [Codec.unmarshal_marshal, Option.bind_some]
  refine IdentityRecord.fromProto_eq_some.mpr ⟨.inl (by simp [hrecovery]), ?_, [], ?_, rfl⟩
  · simp [validateForwardTo, hforward]
  · simp [hchain, rotationChainFromProto]

theorem IdentityRecord.not_expired_of_unset {pb : Pb.IdentityRecord} {chain : List RotationEntry}
    {now : Time} (h : pb.expiresAt = 0) : (IdentityRecord.ofMessage pb chain).expired now =
    false := by
  simp [IdentityRecord.expired, IdentityRecord.ofMessage, h, timeOrZero, Time.isZero, default]

def plainAuthority (domain : String) (root : UInt8) : Pb.DomainAuthorityRecord :=
  { (default : Pb.DomainAuthorityRecord) with
    version := 1, domain := domain, authorityEd25519PublicKey := keyOf root, revision := 1 }

def plainRecord (address : String) (key : UInt8) : Pb.IdentityRecord :=
  { (default : Pb.IdentityRecord) with
    version := 1, address := address, ed25519PublicKey := keyOf key, revision := 1 }

def plainCredential (domain address role : String) (root key : UInt8) : Pb.Credential :=
  { (default : Pb.Credential) with
    version := 1, subject := keyOf key, domain := domain, address := address, roles := [role]
    issuedAt := 100, issuerPub := keyOf root, signature := List.replicate 64 0 }

def plainRemoval (domain address : String) (keys : List UInt8) (revision : UInt64) :
    Pb.AddressRemovalRecord :=
  { (default : Pb.AddressRemovalRecord) with
    version := 1, domain := domain, address := address, revision := revision
    removedBindings := keys.map fun key => ⟨keyOf key, 0⟩ }

noncomputable def issuance (c : Pb.Credential) : Bytes × Bytes :=
  (c.issuerPub, Ctx.credential.tag ++ (Credential.fromProto c).signableBytes (idealRuntime [] []))

theorem rootKeyAt_plainAuthority (domain : String) (root : UInt8) :
    (DomainAuthorityRecord.fromProto (plainAuthority domain root)).rootKeyAt (Time.ofUnix 100) =
      some (keyOf root) := by
  have hold : (Time.ofUnix 0).after (Time.ofUnix 100) = false := by decide
  simp only [DomainAuthorityRecord.rootKeyAt, DomainAuthorityRecord.timeline,
    DomainAuthorityRecord.fromProto, plainAuthority]
  change Option.map Prod.fst (if (Time.ofUnix 0).after (Time.ofUnix 100) = true then none
    else some (keyOf root, Time.ofUnix 0)) = _
  rw [hold]
  rfl

theorem verifyCredential_plain {domain address role : String} {root key : UInt8} {now : Time}
    (hlog : issuance (plainCredential domain address role root key) ∈ log)
    (hplain : isAuthorityRole role = false) (hgranted : role ∈ rootGrants)
    (htarget : (Credential.fromProto (plainCredential domain address role root key)).target =
      domain) :
    verifyCredential (idealRuntime held log)
      (.fromProto (plainCredential domain address role root key))
      (some (.fromProto (plainAuthority domain root))) none now = .ok () := by
  have hsig : (Credential.fromProto (plainCredential domain address role root key)).verifySignature
      (idealRuntime held log) = true :=
    Credential.verifySignature_idealRuntime.mpr ⟨length_keyOf root, List.length_replicate,
      .inr hlog⟩
  exact verifyCredential_of_root hsig rfl rfl rfl (rootKeyAt_plainAuthority domain root) rfl hplain
    hgranted rfl htarget

end Dmcn
