import OpenDmcn.Identity.Authority
import OpenDmcn.Lib.Guard

/-! Credential chains (`VerifyCredential` of `credential.go`): each credential of a chain is
signed by a root of the domain's timeline or by the subject of an authority credential in the
domain's record, which is checked in turn. -/

namespace Dmcn

open Go Guard

inductive CredentialError where
  | nilDAR | tooDeep | signature | expired | notYetEffective | blocked | issuerNotAuthorised
  | predatesIssuer | roleNotGranted (role : String) | lacksDelegate | grantNotHeld (grant : String)
  | outsideScope | outsideDomain
  deriving DecidableEq

def scopeCovers (rt : Runtime) (scope target : String) : Bool :=
  let scope := Strings.toLower rt.unicode scope
  let target := Strings.toLower rt.unicode target
  target == scope || Strings.hasSuffix target ("." ++ scope)

def isAuthorityRole (r : String) : Bool := r == roleAuthority || r == roleSubAuthority

def Credential.target (c : Credential) : String :=
  if c.address != "" then domainOf c.address else c.domain

def authorizes (rt : Runtime) (issuerGrants : List String) (issuerScope domain : String)
    (c : Credential) : Except CredentialError Unit := do
  if let some r := c.roles.find? (fun r => !isAuthorityRole r && !Strings.contains issuerGrants r)
    then
    throw (.roleNotGranted r)
  refuse ((!c.grants.isEmpty || c.roles.any isAuthorityRole) &&
    !Strings.contains issuerGrants grantDelegate) .lacksDelegate
  if let some g := c.grants.find? (fun g => !Strings.contains issuerGrants g) then
    throw (.grantNotHeld g)
  refuse (issuerScope != "" && !scopeCovers rt issuerScope c.target) .outsideScope
  require (scopeCovers rt domain c.target) .outsideDomain

def checkLink (rt : Runtime) (c : Credential) (blocks : Option CredentialBlockList) (now : Time) :
    Except CredentialError Unit := do
  require (c.verifySignature rt) .signature
  refuse (!c.notAfter.isZero && now.after (c.notAfter.add credSkew)) .expired
  refuse (!c.effectiveFrom.isZero && (now.add credSkew).before c.effectiveFrom) .notYetEffective
  refuse (blocked blocks c.subject c.issuedAt || blocked blocks c.issuerPub c.issuedAt) .blocked

def maxChainDepth : ℕ := 8

/-- `verifyChain`, with the links still allowed in place of the depth reached: the source refuses
once the depth passes `maxChainDepth`. -/
def verifyChain (rt : Runtime) (dar : DomainAuthorityRecord) (blocks : Option CredentialBlockList)
    (now : Time) : ℕ → Credential → Except CredentialError Unit
  | 0, _ => .error .tooDeep
  | remaining + 1, c => do
    checkLink rt c blocks now
    if dar.rootKeyAt c.issuedAt = some c.issuerPub then authorizes rt rootGrants "" dar.domain c
    else
      let issuer ← need (dar.resolveAuthority c.issuerPub) .issuerNotAuthorised
      refuse ((c.issuedAt.add credSkew).before issuer.issuedAt) .predatesIssuer
      verifyChain rt dar blocks now remaining issuer
      authorizes rt issuer.grants issuer.scope dar.domain c

def verifyCredential (rt : Runtime) (leaf : Credential) (dar : Option DomainAuthorityRecord)
    (blocks : Option CredentialBlockList) (now : Time) : Except CredentialError Unit := do
  let dar ← need dar .nilDAR
  verifyChain rt dar blocks now (maxChainDepth + 1) leaf

/-- A credential whose signature verifies and whose issuer is a root of the timeline, or the
subject of an authority credential of the record of which the same holds. -/
inductive Anchored (rt : Runtime) (dar : DomainAuthorityRecord) : Credential → Prop
  | root {c : Credential} (hsig : c.verifySignature rt = true)
    (hroot : c.issuerPub ∈ dar.rootKeys) :
      Anchored rt dar c
  | issued {c issuer : Credential} (hsig : c.verifySignature rt = true)
      (hmem : issuer ∈ dar.authorityCredentials) (hsubject : issuer.subject = c.issuerPub)
      (hissuer : Anchored rt dar issuer) : Anchored rt dar c

variable {rt : Runtime} {blocks : Option CredentialBlockList}

theorem checkLink_signature {c : Credential} {now : Time} (h : checkLink rt c blocks now = .ok ())
    : c.verifySignature rt = true := by
  simp only [checkLink, unit_bind, require_eq_ok] at h
  exact h.1

variable {dar : DomainAuthorityRecord}

theorem anchored_of_verifyChain {now : Time} {n : ℕ} {c : Credential}
    (h : verifyChain rt dar blocks now n c = .ok ()) : Anchored rt dar c := by
  -- induction on the links still allowed
  induction n generalizing c with
  | zero => cases h
  | succ n ih =>
    simp only [verifyChain, unit_bind] at h
    obtain ⟨hlink, h⟩ := h
    have hsig := checkLink_signature hlink
    split at h
    · next hroot => exact .root hsig (DomainAuthorityRecord.rootKeyAt_mem hroot)
    · simp only [need_bind, unit_bind] at h
      obtain ⟨issuer, hissuer, -, hchain, -⟩ := h
      have hmem := List.mem_of_find?_eq_some hissuer
      have hsubject : issuer.subject = c.issuerPub := by
        simpa using List.find?_some hissuer
      exact .issued hsig hmem hsubject (ih hchain)

theorem verifyCredential_some {leaf : Credential} {now : Time} :
    verifyCredential rt leaf (some dar) blocks now =
      verifyChain rt dar blocks now (maxChainDepth + 1) leaf := rfl

theorem anchored_of_verifyCredential {leaf : Credential} {now : Time}
    (h : verifyCredential rt leaf (some dar) blocks now = .ok ()) : Anchored rt dar leaf := by
  rw [verifyCredential_some] at h
  exact anchored_of_verifyChain h

theorem scopeCovers_refl (scope : String) : scopeCovers rt scope scope = true := by
  simp [scopeCovers]

theorem verifyCredential_of_root {c : Credential} {now : Time} {role : String}
    (hsig : c.verifySignature rt = true) (hafter : c.notAfter = default)
    (hfrom : c.effectiveFrom = default)
    (hblocks : (blocked blocks c.subject c.issuedAt || blocked blocks c.issuerPub c.issuedAt) =
      false)
    (hroot : dar.rootKeyAt c.issuedAt = some c.issuerPub) (hroles : c.roles = [role])
    (hplain : isAuthorityRole role = false) (hgranted : role ∈ rootGrants) (hgrants : c.grants = [])
    (htarget : c.target = dar.domain) : verifyCredential rt c (some dar) blocks now = .ok () := by
  have hlink : checkLink rt c blocks now = .ok () := by
    simp [checkLink, hsig, hafter, hfrom, hblocks, Time.isZero_iff.mpr rfl]
  have hauth : authorizes rt rootGrants "" dar.domain c = .ok () := by
    simp [authorizes, hroles, hplain, hgrants, htarget, scopeCovers_refl,
      Strings.contains_iff.mpr hgranted]
  rw [verifyCredential_some]
  simp only [verifyChain, unit_bind]
  exact ⟨hlink, by rw [if_pos hroot]; exact hauth⟩

def issuerKeys (dar : DomainAuthorityRecord) : List Bytes :=
  dar.rootKeys ++ dar.authorityCredentials.map Credential.subject

theorem Anchored.issuer_mem {c : Credential} (h : Anchored rt dar c)
    : c.issuerPub ∈ issuerKeys dar ∧ c.verifySignature rt = true := by
  cases h with
  | root hsig hroot => exact ⟨List.mem_append_left _ hroot, hsig⟩
  | issued hsig hmem hsubject _ =>
    exact ⟨List.mem_append_right _ (List.mem_map.mpr ⟨_, hmem, hsubject⟩), hsig⟩

end Dmcn
