import OpenDmcn.Wire
import OpenDmcn.Lib.Strings
import OpenDmcn.Lib.Time

/-! What the identity packages take from outside the repository: Ed25519, SHA-256, the Unicode
tables, `net/mail` and the protobuf library; and the signing convention built on them. -/

namespace Dmcn

open Go

structure Runtime where
  ed25519Verify : Bytes → Bytes → Bytes → Bool
  ed25519Sign : Bytes → Bytes → Bytes
  sha256 : Bytes → Bytes
  unicode : Unicode
  /-- `mail.ParseAddress`: the display name and the address. -/
  parseAddress : String → Option (String × String)
  credential : Codec Pb.Credential
  rotationEntry : Codec Pb.RotationEntry
  identityRecord : Codec Pb.IdentityRecord
  domainAuthorityRecord : Codec Pb.DomainAuthorityRecord
  addressRemovalRecord : Codec Pb.AddressRemovalRecord
  addressHistoryRecord : Codec Pb.AddressHistoryRecord
  credentialBlockList : Codec Pb.CredentialBlockList
  fleetRoster : Codec Pb.FleetRoster

namespace Crypto

def ed25519PublicKeySize : ℕ := 32
def ed25519SignatureSize : ℕ := 64

def verify (rt : Runtime) (publicKey message signature : Bytes) : Bool :=
  publicKey.length == ed25519PublicKeySize && signature.length == ed25519SignatureSize &&
    rt.ed25519Verify publicKey message signature

end Crypto

inductive Ctx where
  | identitySelf | darSelf | addressRemoval | identityRotation | identityRotationAccept
  | identityRotationDevice | keyCompromise | fleetRoster | credential | subAuthorityRequest
  deriving DecidableEq

def Ctx.text : Ctx → String
  | .identitySelf => "dmcn-identity-self-v1"
  | .darSelf => "dmcn-dar-self-v1"
  | .addressRemoval => "dmcn-address-removal-v1"
  | .identityRotation => "dmcn-identity-rotation-v1"
  | .identityRotationAccept => "dmcn-identity-rotation-accept-v1"
  | .identityRotationDevice => "dmcn-identity-rotation-device-v1"
  | .keyCompromise => "dmcn-key-compromise-v1"
  | .fleetRoster => "dmcn-fleet-roster-v1"
  | .credential => "dmcn-credential-v1"
  | .subAuthorityRequest => "dmcn-subauthority-request-v1"

def Ctx.tag (c : Ctx) : Bytes := c.text.toList.map (fun ch => UInt8.ofNat ch.toNat) ++ [0]

theorem Ctx.tag_append_inj {c c' : Ctx} {x y : Bytes} (h : c.tag ++ x = c'.tag ++ y) :
    c = c' ∧ x = y := by
  have hfree : c ≠ c' → ¬ c.tag <+: c'.tag ∧ ¬ c'.tag <+: c.tag := by
    cases c <;> cases c' <;> decide
  have hc : c = c' := by
    by_contra hne
    have hleft : c.tag <+: c'.tag ++ y := ⟨x, h⟩
    rcases List.prefix_or_prefix_of_prefix hleft ⟨y, rfl⟩ with hpre | hpre
    · exact (hfree hne).1 hpre
    · exact (hfree hne).2 hpre
  subst hc
  exact ⟨rfl, List.append_cancel_left h⟩

def verifyCtx (rt : Runtime) (pub : Bytes) (ctx : Ctx) (data sig : Bytes) : Bool :=
  Crypto.verify rt pub (ctx.tag ++ data) sig

def signCtx (rt : Runtime) (priv : Bytes) (ctx : Ctx) (data : Bytes) : Bytes :=
  rt.ed25519Sign priv (ctx.tag ++ data)

def upperHexDigit (n : ℕ) : Char := "0123456789ABCDEF".toList.getD n '0'

def upperHex (b : Bytes) : String :=
  String.ofList (b.flatMap fun x => [upperHexDigit (x.toNat / 16), upperHexDigit (x.toNat % 16)])

def fingerprintOf (rt : Runtime) (ed : Bytes) (x : Fixed 32) : String :=
  upperHex ((rt.sha256 (ed ++ x.val)).take 20)

theorem verifyCtx_ed25519 {rt : Runtime} {pub data sig : Bytes} {ctx : Ctx}
    (h : verifyCtx rt pub ctx data sig = true) :
    pub.length = 32 ∧ sig.length = 64 ∧ rt.ed25519Verify pub (ctx.tag ++ data) sig = true := by
  simpa [verifyCtx, Crypto.verify, Crypto.ed25519PublicKeySize, Crypto.ed25519SignatureSize,
    and_assoc] using h

end Dmcn
