import OpenDmcn.Identity.ChainSound

/-! Scopes along a credential chain. `authorizes` compares one name, the domain of the address or
else the `Domain`, with the scope of the direct issuer and with the domain itself; what an
authority may issue for is then one domain, and nothing ties it to the scopes further up. -/

namespace Dmcn

open Go Guard

def Credential.sign (rt : Runtime) (priv pub : Bytes) (c : Credential) : Credential :=
  { c with
    issuerPub := pub
    signature := signCtx rt priv .credential ({ c with issuerPub := pub }.signableBytes rt) }

def WithinScope (rt : Runtime) (scope : String) (c : Credential) : Prop :=
  scope ≠ "" → scopeCovers rt scope c.domain = true ∧
    (c.address ≠ "" → scopeCovers rt scope (domainOf c.address) = true)

def ScopeNarrows (rt : Runtime) (dar : DomainAuthorityRecord) (c : Credential) : Prop :=
  ∀ a ∈ issuers dar maxChainDepth c, WithinScope rt a.scope c

/-- The largest domain an authority may issue for, if any: its scope and the domain cut each
other down to the narrower one. -/
def issuingDomain (rt : Runtime) (dar : DomainAuthorityRecord) (a : Credential) : Option String :=
  if a.scope = "" ∨ scopeCovers rt a.scope dar.domain = true then some dar.domain
  else if scopeCovers rt dar.domain a.scope = true then some a.scope
  else none

def InForce (rt : Runtime) (dar : DomainAuthorityRecord) (blocks : Option CredentialBlockList)
    (now : Time) (a : Credential) : Prop :=
  dar.resolveAuthority a.subject = some a ∧ verifyChain rt dar blocks now maxChainDepth a = .ok ()

/-- What each authority in force may issue for lies inside every scope above the authority. -/
def ScopesNest (rt : Runtime) (dar : DomainAuthorityRecord) (blocks : Option CredentialBlockList)
    (now : Time) : Prop :=
  ∀ a, InForce rt dar blocks now a → ∀ d ∈ issuingDomain rt dar a,
    ∀ b ∈ issuers dar (maxChainDepth - 1) a, b.scope ≠ "" → scopeCovers rt b.scope d = true

variable {rt : Runtime} {dar : DomainAuthorityRecord} {blocks : Option CredentialBlockList}
  {now : Time} {a b c leaf : Credential} {priv : Bytes} {s t v : String}

theorem scopeCovers_iff : scopeCovers rt s t = true ↔
    Under '.' (s.toList.map rt.unicode.lower) (t.toList.map rt.unicode.lower) := by
  simp [scopeCovers, Under, Strings.toLower, Strings.hasSuffix, ← String.toList_inj]

theorem scopeCovers_trans (hst : scopeCovers rt s t = true) (htv : scopeCovers rt t v = true) :
    scopeCovers rt s v = true :=
  scopeCovers_iff.mpr ((scopeCovers_iff.mp hst).trans (scopeCovers_iff.mp htv))

theorem scopeCovers_comparable (hsv : scopeCovers rt s v = true) (htv : scopeCovers rt t v = true) :
    scopeCovers rt s t = true ∨ scopeCovers rt t s = true := by
  simp only [scopeCovers_iff] at hsv htv ⊢
  exact hsv.comparable htv

theorem scopeCovers_empty (h : s ≠ "") : scopeCovers rt s "" = false := by
  rw [Bool.eq_false_iff, Ne, scopeCovers_iff]
  rintro (heq | hsuf)
  · simp at heq
    exact h heq
  · simp at hsuf

theorem mem_issuingDomain : ((a.scope ≠ "" → scopeCovers rt a.scope t = true) ∧
      scopeCovers rt dar.domain t = true) ↔
    ∃ d ∈ issuingDomain rt dar a, scopeCovers rt d t = true := by
  unfold issuingDomain
  split
  · next hwide =>
    constructor
    · rintro ⟨-, hdomain⟩
      exact ⟨_, rfl, hdomain⟩
    · rintro ⟨d, hd, ht⟩
      rw [← Option.some.inj hd] at ht
      exact ⟨fun hne => scopeCovers_trans (hwide.resolve_left hne) ht, ht⟩
  · next hwide =>
    obtain ⟨hne, hnarrow⟩ := not_or.mp hwide
    split
    · next hinside =>
      constructor
      · rintro ⟨hscope, -⟩
        exact ⟨_, rfl, hscope hne⟩
      · rintro ⟨d, hd, ht⟩
        rw [← Option.some.inj hd] at ht
        exact ⟨fun _ => ht, scopeCovers_trans hinside ht⟩
    · next houtside =>
      -- two names that do not meet have nothing under both
      constructor
      · rintro ⟨hscope, hdomain⟩
        rcases scopeCovers_comparable (hscope hne) hdomain with h | h
        · exact absurd h hnarrow
        · exact absurd h houtside
      · rintro ⟨d, hd, -⟩
        cases hd

theorem Credential.verifySignature_sign {pub : Bytes}
    (h : AddressRemovalRecord.SignsFor rt priv pub) (c : Credential) :
    (c.sign rt priv pub).verifySignature rt = true := by
  have hsig := h (Ctx.credential.tag ++ ({ c with issuerPub := pub }.signableBytes rt))
  have hlen : pub.length = Crypto.ed25519PublicKeySize := by
    simp only [Crypto.verify, Bool.and_eq_true, beq_iff_eq] at hsig
    exact hsig.1.1
  unfold verifySignature
  rw [Bool.and_eq_true, beq_iff_eq]
  exact ⟨hlen, hsig⟩

theorem le_nanos_add_credSkew (t : Time) : t.nanos ≤ (t.add credSkew).nanos := by
  have hskew : credSkew.toInt = 120 * 1000000000 := by decide
  have hrem : ((t.nsec.val : ℤ) + credSkew.toInt) / 1000000000 = 120 := by
    have := t.nsec.isLt
    omega
  have hsec : t.sec.toInt ≤ (t.add credSkew).sec.toInt := by
    change t.sec.toInt ≤
      (Time.addSec t.sec (((t.nsec.val : ℤ) + credSkew.toInt) / 1000000000)).toInt
    rw [hrem]
    have hlow := t.sec.le_toInt
    have hhigh := t.sec.toInt_lt
    have hmax : (9223372036854775807 : Int64).toInt = 9223372036854775807 := rfl
    unfold Time.addSec
    split
    · rw [hmax]
      omega
    · rw [if_neg (by omega), Int64.toInt_ofInt_of_le (by omega) (by omega)]
      omega
  have hnsec : ((t.add credSkew).nsec.val : ℤ) = t.nsec.val := by
    change ((((t.nsec.val : ℤ) + credSkew.toInt) % 1000000000).toNat : ℤ) = t.nsec.val
    have := t.nsec.isLt
    omega
  simp only [Time.nanos, hnsec]
  omega

def ownIssue (rt : Runtime) (priv : Bytes) (a : Credential) (domain : String) : Credential :=
  Credential.sign rt priv a.subject
    { (default : Credential) with subject := a.subject, domain := domain, issuedAt := a.issuedAt }

theorem verifyCredential_ownIssue (hsigns : AddressRemovalRecord.SignsFor rt priv a.subject)
    (hforce : InForce rt dar blocks now a) (hroot : dar.rootKeyAt a.issuedAt ≠ some a.subject)
    {d : String} (hd : d ∈ issuingDomain rt dar a) :
    verifyCredential rt (ownIssue rt priv a d) (some dar) blocks now = .ok () := by
  have hlink : checkLink rt (ownIssue rt priv a d) blocks now = .ok () := by
    have hsubject := (chainHolds_of_verifyChain hforce.2).links a (List.mem_cons_self ..)
    have hfree : blocked blocks a.subject a.issuedAt = false := hsubject.subjectUnblocked
    have hverify : (ownIssue rt priv a d).verifySignature rt = true :=
      Credential.verifySignature_sign hsigns _
    have hafter : (ownIssue rt priv a d).notAfter.isZero = true := Time.isZero_iff.mpr rfl
    have hfrom : (ownIssue rt priv a d).effectiveFrom.isZero = true := Time.isZero_iff.mpr rfl
    have hblocked :
        (blocked blocks (ownIssue rt priv a d).subject (ownIssue rt priv a d).issuedAt ||
        blocked blocks (ownIssue rt priv a d).issuerPub (ownIssue rt priv a d).issuedAt) =
          false := by
      rw [Bool.or_eq_false_iff]
      exact ⟨hfree, hfree⟩
    simp [checkLink, hverify, hafter, hfrom, hblocked]
  have hcovered : CoveredBy a.grants (ownIssue rt priv a d) := by
    refine ⟨fun r hr => absurd hr List.not_mem_nil, fun g hg => absurd hg List.not_mem_nil, ?_⟩
    rintro (h | ⟨r, hr, -⟩)
    · exact absurd rfl h
    · exact absurd hr List.not_mem_nil
  have htarget : (ownIssue rt priv a d).target = d := rfl
  have hauth : authorizes rt a.grants a.scope dar.domain (ownIssue rt priv a d) = .ok () := by
    refine authorizes_eq_ok.mpr ⟨hcovered, ?_⟩
    rw [htarget]
    exact mem_issuingDomain.mpr ⟨d, hd, scopeCovers_refl d⟩
  rw [verifyCredential_some]
  exact verifyChain_succ.mpr
    ⟨hlink, .inr ⟨hroot, a, hforce.1, le_nanos_add_credSkew _, hforce.2, hauth⟩⟩

theorem verifyCredential_issuer (h : verifyCredential rt leaf (some dar) blocks now = .ok ()) :
    issuers dar maxChainDepth leaf = [] ∨
      ∃ a, InForce rt dar blocks now a ∧ leaf.issuerPub = a.subject ∧
        dar.rootKeyAt leaf.issuedAt ≠ some leaf.issuerPub ∧
        issuers dar maxChainDepth leaf = a :: issuers dar (maxChainDepth - 1) a ∧
        authorizes rt a.grants a.scope dar.domain leaf = .ok () := by
  rw [verifyCredential_some] at h
  obtain ⟨-, ⟨hroot, -⟩ | ⟨hroot, a, hissuer, -, hchain, hauth⟩⟩ := verifyChain_succ.mp h
  · exact .inl (issuers_of_root hroot)
  · have hsubject := (resolveAuthority_mem hissuer).2
    exact .inr ⟨a, ⟨by rw [hsubject]; exact hissuer, hchain⟩, hsubject.symm, hroot,
      issuers_of_not_root hroot hissuer, hauth⟩

theorem scopeNarrows_of_nest (hnest : ScopesNest rt dar blocks now)
    (hdomain : scopeCovers rt leaf.target leaf.domain = true)
    (h : verifyCredential rt leaf (some dar) blocks now = .ok ()) : ScopeNarrows rt dar leaf := by
  rcases verifyCredential_issuer h with hnil | ⟨a, hforce, -, -, hchain, hauth⟩
  · intro b hb
    rw [hnil] at hb
    exact nomatch hb
  · obtain ⟨-, hscope, hinside⟩ := authorizes_eq_ok.mp hauth
    have htarget : ∀ b ∈ issuers dar maxChainDepth leaf, b.scope ≠ "" →
        scopeCovers rt b.scope leaf.target = true := by
      intro b hb hne
      rw [hchain] at hb
      rcases List.mem_cons.mp hb with rfl | hb
      · exact hscope hne
      · obtain ⟨d, hd, hcover⟩ := mem_issuingDomain.mp ⟨hscope, hinside⟩
        exact scopeCovers_trans (hnest a hforce d hd b hb hne) hcover
    intro b hb hne
    refine ⟨scopeCovers_trans (htarget b hb hne) hdomain, ?_⟩
    intro haddress
    have heq : leaf.target = domainOf leaf.address := by simp [Credential.target, haddress]
    rw [← heq]
    exact htarget b hb hne

theorem issuers_congr {n : ℕ} {c c' : Credential} (hpub : c.issuerPub = c'.issuerPub)
    (htime : c.issuedAt = c'.issuedAt) : issuers dar n c = issuers dar n c' := by
  cases n with
  | zero => rfl
  | succ n => rw [issuers, issuers, hpub, htime]

theorem verifyCredential_withDomain (hsigns : AddressRemovalRecord.SignsFor rt priv leaf.issuerPub)
    (haddress : leaf.address ≠ "") (h : verifyCredential rt leaf (some dar) blocks now = .ok ())
    (domain : String) :
    verifyCredential rt (Credential.sign rt priv leaf.issuerPub { leaf with domain := domain })
      (some dar) blocks now = .ok () := by
  have htarget : ({ leaf with domain := domain } : Credential).target = leaf.target := by
    simp [Credential.target, haddress]
  have hverify := Credential.verifySignature_sign hsigns { leaf with domain := domain }
  have hsame : ∀ held scope, authorizes rt held scope dar.domain leaf = .ok () →
      authorizes rt held scope dar.domain
        (Credential.sign rt priv leaf.issuerPub { leaf with domain := domain }) = .ok () := by
    intro held scope hauth
    obtain ⟨hcovered, hnames⟩ := authorizes_eq_ok.mp hauth
    rw [← htarget] at hnames
    exact authorizes_eq_ok.mpr ⟨⟨hcovered.roles, hcovered.grants, hcovered.delegation⟩, hnames⟩
  rw [verifyCredential_some] at h ⊢
  obtain ⟨hlink, hrest⟩ := verifyChain_succ.mp h
  have hlink' : checkLink rt (Credential.sign rt priv leaf.issuerPub { leaf with domain := domain })
      blocks now = .ok () := by
    simp only [checkLink, unit_bind, require_eq_ok] at hlink ⊢
    exact ⟨hverify, hlink.2⟩
  refine verifyChain_succ.mpr ⟨hlink', ?_⟩
  rcases hrest with ⟨hroot, hauth⟩ | ⟨hroot, a, hissuer, htime, hchain, hauth⟩
  · exact .inl ⟨hroot, hsame _ _ hauth⟩
  · exact .inr ⟨hroot, a, hissuer, htime, hchain, hsame _ _ hauth⟩

/-- Every credential whose `Domain` lies inside the name it is checked by keeps within the scopes
of its chain exactly when the scopes nest; a credential with an address is accepted whatever its
`Domain` says. -/
theorem scopeNarrows_iff_scopesNest
    (hkeys : ∀ a ∈ dar.authorityCredentials, ∃ priv,
      AddressRemovalRecord.SignsFor rt priv a.subject)
    (hroots : ∀ a ∈ dar.authorityCredentials, dar.rootKeyAt a.issuedAt ≠ some a.subject) :
    ((∀ leaf, scopeCovers rt leaf.target leaf.domain = true →
        verifyCredential rt leaf (some dar) blocks now = .ok () → ScopeNarrows rt dar leaf) ↔
      ScopesNest rt dar blocks now) ∧
    ∀ leaf, leaf.address ≠ "" → verifyCredential rt leaf (some dar) blocks now = .ok () →
      (∃ a ∈ issuers dar maxChainDepth leaf, a.scope ≠ "") →
      ∃ signature, verifyCredential rt { leaf with domain := "", signature := signature } (some dar)
          blocks now = .ok () ∧
        ¬ ScopeNarrows rt dar { leaf with domain := "", signature := signature } := by
  refine ⟨⟨?_, fun hnest leaf hdomain h => scopeNarrows_of_nest hnest hdomain h⟩, ?_⟩
  · intro hnarrows a hforce d hd b hb hne
    have hmem := (resolveAuthority_mem hforce.1).1
    obtain ⟨priv, hsigns⟩ := hkeys a hmem
    have haccepted := verifyCredential_ownIssue hsigns hforce (hroots a hmem) hd
    have hchain : issuers dar maxChainDepth (ownIssue rt priv a d) =
        a :: issuers dar (maxChainDepth - 1) a := issuers_of_not_root (hroots a hmem) hforce.1
    have hwithin := hnarrows (ownIssue rt priv a d) (scopeCovers_refl d) haccepted b
      (by rw [hchain]; exact List.mem_cons_of_mem _ hb)
    exact (hwithin hne).1
  · rintro leaf haddress h ⟨a, ha, hne⟩
    have hissuer : ∃ b ∈ dar.authorityCredentials, leaf.issuerPub = b.subject := by
      rcases verifyCredential_issuer h with hnil | ⟨b, hforce, hpub, -, -, -⟩
      · rw [hnil] at ha
        exact nomatch ha
      · exact ⟨b, (resolveAuthority_mem hforce.1).1, hpub⟩
    obtain ⟨b, hb, hpub⟩ := hissuer
    obtain ⟨priv, hsigns⟩ := hkeys b hb
    rw [← hpub] at hsigns
    refine ⟨_, verifyCredential_withDomain hsigns haddress h "", ?_⟩
    intro hnarrows
    have hmem : a ∈ issuers dar maxChainDepth
        (Credential.sign rt priv leaf.issuerPub { leaf with domain := "" }) := by
      rw [issuers_congr rfl rfl]
      exact ha
    have hwithin := (hnarrows a hmem hne).1
    rw [scopeCovers_empty hne] at hwithin
    exact nomatch hwithin

namespace Delegation

def confined : Pb.Credential := enrolment "sub.example.org" "sub.example.org" 1 2

def unconfined : Pb.Credential := enrolment "sub.example.org" "" 2 3

def insider : Credential := .fromProto (plainCredential "sub.example.org" "" roleNode 2 4)

/-- With the confined authority alone the scopes nest: nothing stands above it. -/
theorem confined_scopeNarrows :
    verifyCredential (idealRuntime [keyOf 1, keyOf 2] []) insider (some (authority [confined])) none
      (Time.ofUnix 200) = .ok () ∧
    ScopeNarrows (idealRuntime [keyOf 1, keyOf 2] []) (authority [confined]) insider := by
  have hroot := rootKeyAt_authority [confined]
  have honly : ∀ a ∈ (authority [confined]).authorityCredentials, a = .fromProto confined := by
    intro a ha
    simpa [authority, DomainAuthorityRecord.fromProto] using ha
  have hcovers : ∀ s t : String, Under '.' (s.toList.map Char.toLower) (t.toList.map Char.toLower) →
      scopeCovers (idealRuntime [keyOf 1, keyOf 2] []) s t = true :=
    fun s t h => scopeCovers_iff.mpr h
  have hconfined : verifyChain (idealRuntime [keyOf 1, keyOf 2] []) (authority [confined]) none
      (Time.ofUnix 200) 8 (.fromProto confined) = .ok () := by
    refine verifyChain_succ.mpr ⟨checkLink_held (by decide) rfl rfl rfl rfl, .inl ⟨hroot, ?_⟩⟩
    exact authorizes_eq_ok.mpr
      ⟨coveredBy_iff.mpr (by decide), fun h => absurd rfl h, hcovers _ _ (by decide)⟩
  have hinsider : (authority [confined]).rootKeyAt insider.issuedAt ≠ some insider.issuerPub :=
    fun h => absurd (hroot.symm.trans h) (by decide)
  have hverify : verifyCredential (idealRuntime [keyOf 1, keyOf 2] []) insider
      (some (authority [confined])) none (Time.ofUnix 200) = .ok () := by
    rw [verifyCredential_some]
    refine verifyChain_succ.mpr ⟨checkLink_held (by decide) rfl rfl rfl rfl, .inr ⟨hinsider, ?_⟩⟩
    refine ⟨.fromProto confined, rfl, by decide, hconfined, ?_⟩
    exact authorizes_eq_ok.mpr
      ⟨coveredBy_iff.mpr (by decide), fun _ => hcovers _ _ (by decide), hcovers _ _ (by decide)⟩
  refine ⟨hverify, (scopeNarrows_iff_scopesNest ?_ ?_).1.mpr ?_ insider (hcovers _ _ (by decide))
    hverify⟩
  · intro a ha
    rw [honly a ha]
    exact ⟨[], signsFor_held [] (by decide) rfl⟩
  · intro a ha
    rw [honly a ha]
    change (authority [confined]).rootKeyAt (Time.ofUnix 100) ≠ some (keyOf 2)
    rw [hroot]
    decide
  · intro a hforce d _ b hb
    rw [honly a (resolveAuthority_mem hforce.1).1, issuers_of_root (c := .fromProto confined) hroot]
      at hb
    exact absurd hb List.not_mem_nil

def escapee : Credential := .fromProto (plainCredential "other.example.org" "" roleNode 3 4)

/-- The credential is accepted through two authorities, the upper one confined to the subdomain. -/
theorem escapee_not_scopeNarrows :
    verifyCredential (idealRuntime [keyOf 1, keyOf 2, keyOf 3] []) escapee
      (some (authority [confined, unconfined])) none (Time.ofUnix 200) = .ok () ∧
    ¬ ScopeNarrows (idealRuntime [keyOf 1, keyOf 2, keyOf 3] []) (authority [confined, unconfined])
      escapee := by
  have hroot := rootKeyAt_authority [confined, unconfined]
  have hcovers : ∀ s t : String, Under '.' (s.toList.map Char.toLower) (t.toList.map Char.toLower) →
      scopeCovers (idealRuntime [keyOf 1, keyOf 2, keyOf 3] []) s t = true :=
    fun s t h => scopeCovers_iff.mpr h
  have hbelow :
      (authority [confined, unconfined]).rootKeyAt (Credential.fromProto unconfined).issuedAt
      ≠ some (Credential.fromProto unconfined).issuerPub :=
    fun h => absurd (hroot.symm.trans h) (by decide)
  have hescapee : (authority [confined, unconfined]).rootKeyAt escapee.issuedAt ≠
      some escapee.issuerPub := fun h => absurd (hroot.symm.trans h) (by decide)
  have hupper : (authority [confined, unconfined]).resolveAuthority
      (Credential.fromProto unconfined).issuerPub = some (.fromProto confined) := rfl
  have hlower : (authority [confined, unconfined]).resolveAuthority escapee.issuerPub =
      some (.fromProto unconfined) := rfl
  have hconfined : verifyChain (idealRuntime [keyOf 1, keyOf 2, keyOf 3] [])
      (authority [confined, unconfined]) none (Time.ofUnix 200) 7 (.fromProto confined) =
        .ok () := by
    refine verifyChain_succ.mpr ⟨checkLink_held (by decide) rfl rfl rfl rfl, .inl ⟨hroot, ?_⟩⟩
    exact authorizes_eq_ok.mpr
      ⟨coveredBy_iff.mpr (by decide), fun h => absurd rfl h, hcovers _ _ (by decide)⟩
  have hunconfined : verifyChain (idealRuntime [keyOf 1, keyOf 2, keyOf 3] [])
      (authority [confined, unconfined]) none (Time.ofUnix 200) 8 (.fromProto unconfined) =
        .ok () := by
    refine verifyChain_succ.mpr ⟨checkLink_held (by decide) rfl rfl rfl rfl, .inr ⟨hbelow, ?_⟩⟩
    refine ⟨.fromProto confined, hupper, by decide, hconfined, ?_⟩
    exact authorizes_eq_ok.mpr
      ⟨coveredBy_iff.mpr (by decide), fun _ => hcovers _ _ (by decide), hcovers _ _ (by decide)⟩
  constructor
  · rw [verifyCredential_some]
    refine verifyChain_succ.mpr ⟨checkLink_held (by decide) rfl rfl rfl rfl, .inr ⟨hescapee, ?_⟩⟩
    refine ⟨.fromProto unconfined, hlower, by decide, hunconfined, ?_⟩
    exact authorizes_eq_ok.mpr
      ⟨coveredBy_iff.mpr (by decide), fun h => absurd rfl h, hcovers _ _ (by decide)⟩
  · intro hnarrows
    have hlast : issuers (authority [confined, unconfined]) 7 (.fromProto unconfined) =
        .fromProto confined :: issuers (authority [confined, unconfined]) 6 (.fromProto confined) :=
      issuers_of_not_root hbelow hupper
    have hchain : issuers (authority [confined, unconfined]) 8 escapee =
        .fromProto unconfined :: issuers (authority [confined, unconfined]) 7
          (.fromProto unconfined) :=
      issuers_of_not_root hescapee hlower
    have hmem : Credential.fromProto confined ∈
        issuers (authority [confined, unconfined]) maxChainDepth escapee := by
      rw [maxChainDepth, hchain, hlast]
      exact List.mem_cons_of_mem _ (List.mem_cons_self ..)
    have hinside := scopeCovers_iff.mp (hnarrows _ hmem (by decide)).1
    exact absurd hinside (by decide)

end Delegation

end Dmcn
