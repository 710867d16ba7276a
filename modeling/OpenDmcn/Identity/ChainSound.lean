import OpenDmcn.IdealRuntime

/-! What an accepted credential rests on: a chain of authority credentials of the domain's record
that ends at the root effective when its last member was issued. The authority list is arbitrary,
so the chain is the one the walk itself takes. -/

namespace Dmcn

open Go Guard

def DomainAuthorityRecord.EffectiveAt (dar : DomainAuthorityRecord) (t : Time) (pub : Bytes) :
    Prop :=
  ∃ start : Time, (pub, start) ∈ dar.timeline ∧ start.nanos ≤ t.nanos ∧
    ∀ k ∈ dar.timeline, k.2.nanos ≤ t.nanos → k.2.nanos ≤ start.nanos

structure LinkHolds (rt : Runtime) (blocks : Option CredentialBlockList) (now : Time)
    (c : Credential) : Prop where
  signed : c.verifySignature rt = true
  unexpired : c.notAfter ≠ default → now.nanos ≤ c.notAfter.nanos + credSkew.toInt
  effective : c.effectiveFrom ≠ default → c.effectiveFrom.nanos ≤ now.nanos + credSkew.toInt
  subjectUnblocked : blocked blocks c.subject c.issuedAt = false
  issuerUnblocked : blocked blocks c.issuerPub c.issuedAt = false

structure CoveredBy (held : List String) (c : Credential) : Prop where
  roles : ∀ r ∈ c.roles, isAuthorityRole r = false → r ∈ held
  grants : c.grants ⊆ held
  delegation : (c.grants ≠ [] ∨ ∃ r ∈ c.roles, isAuthorityRole r = true) → grantDelegate ∈ held

def IssuedBy (c issuer : Credential) : Prop :=
  c.issuerPub = issuer.subject ∧ issuer.issuedAt.nanos ≤ c.issuedAt.nanos + credSkew.toInt

def issuers (dar : DomainAuthorityRecord) : ℕ → Credential → List Credential
  | 0, _ => []
  | remaining + 1, c =>
    if dar.rootKeyAt c.issuedAt = some c.issuerPub then []
    else
      match dar.resolveAuthority c.issuerPub with
      | none => []
      | some issuer => issuer :: issuers dar remaining issuer

structure ChainHolds (rt : Runtime) (dar : DomainAuthorityRecord)
    (blocks : Option CredentialBlockList) (now : Time) (chain : List Credential) : Prop where
  links : ∀ c ∈ chain, LinkHolds rt blocks now c
  authorities : ∀ c ∈ chain.tail, c ∈ dar.authorityCredentials
  issued : chain.IsChain IssuedBy
  anchored : ∀ c ∈ chain.getLast?,
    dar.rootKeyAt c.issuedAt = some c.issuerPub ∧ dar.EffectiveAt c.issuedAt c.issuerPub
  covered : chain.Pairwise (fun c later => CoveredBy later.grants c)
  coveredByRoot : ∀ c ∈ chain, CoveredBy rootGrants c

theorem DomainAuthorityRecord.foldl_consider_latest {t : Time} {ks : List (Bytes × Time)}
    {best : Option (Bytes × Time)} {k : Bytes × Time} (h : ks.foldl (consider t) best = some k)
    (hbest : ∀ b ∈ best, b.2.nanos ≤ t.nanos) : k.2.nanos ≤ t.nanos ∧
      (∀ b ∈ best, b.2.nanos ≤ k.2.nanos) ∧
      ∀ x ∈ ks, x.2.nanos ≤ t.nanos → x.2.nanos ≤ k.2.nanos := by
  -- induction on the timeline still to come, for every key found so far
  induction ks generalizing best with
  | nil =>
    subst h
    exact ⟨hbest k rfl, fun b hb => by rw [Option.some.inj hb], fun x hx => by simp at hx⟩
  | cons x ks ih =>
    have hnext : ∀ b ∈ consider t best x, b.2.nanos ≤ t.nanos := by
      intro b hb
      unfold consider at hb
      split at hb
      · exact hbest b hb
      · next hx =>
        have hxt : x.2.nanos ≤ t.nanos := Time.after_eq_false_iff.mp (by simpa using hx)
        split at hb
        · rw [← Option.some.inj hb]
          exact hxt
        · split at hb
          · rw [← Option.some.inj hb]
            exact hxt
          · exact hbest b hb
    obtain ⟨hk, hprev, hrest⟩ := ih h hnext
    have hmono : ∀ b ∈ best, b.2.nanos ≤ k.2.nanos := by
      intro b hb
      rw [Option.mem_def] at hb
      subst hb
      simp only [consider, Option.mem_def] at hprev
      split at hprev
      · exact hprev b rfl
      · split at hprev
        · next hlater => exact (Time.after_iff.mp hlater).le.trans (hprev x rfl)
        · exact hprev b rfl
    refine ⟨hk, hmono, ?_⟩
    intro y hy hyt
    rcases List.mem_cons.mp hy with rfl | hmem
    · have hstarted : y.2.after t = false := Time.after_eq_false_iff.mpr hyt
      simp only [consider, hstarted, Bool.false_eq_true, if_false, Option.mem_def] at hprev
      split at hprev
      · exact hprev y rfl
      · next b =>
        split at hprev
        · exact hprev y rfl
        · next hnot => exact (Time.after_eq_false_iff.mp (by simpa using hnot)).trans (hmono b rfl)
    · exact hrest y hmem hyt

theorem DomainAuthorityRecord.effectiveAt_of_rootKeyAt {dar : DomainAuthorityRecord} {t : Time}
    {pub : Bytes} (h : dar.rootKeyAt t = some pub) : dar.EffectiveAt t pub := by
  unfold rootKeyAt at h
  obtain ⟨⟨pub, start⟩, hk, rfl⟩ := Option.map_eq_some_iff.mp h
  have hmem : (pub, start) ∈ dar.timeline := (foldl_consider_mem hk).resolve_left (by simp)
  obtain ⟨hstart, -, hlatest⟩ := foldl_consider_latest hk (by simp)
  exact ⟨start, hmem, hstart, hlatest⟩

theorem linkHolds_of_checkLink {rt : Runtime} {c : Credential} {blocks : Option CredentialBlockList}
    {now : Time} (h : checkLink rt c blocks now = .ok ()) : LinkHolds rt blocks now c := by
  have hskew : 0 ≤ credSkew.toInt := by decide
  simp only [checkLink, unit_bind, require_eq_ok, refuse_eq_ok, Bool.and_eq_true, not_and,
    Bool.not_eq_true', Bool.not_eq_true, Bool.or_eq_false_iff, Bool.eq_false_iff.trans
    (not_congr Time.isZero_iff)] at h
  obtain ⟨hsig, hafter, hfrom, hsubject, hissuer⟩ := h
  refine ⟨hsig, ?_, ?_, hsubject, hissuer⟩
  · intro hset
    exact (Time.after_eq_false_iff.mp (hafter hset)).trans (Time.nanos_add_le hskew)
  · intro hset
    exact (Time.before_eq_false_iff.mp (hfrom hset)).trans (Time.nanos_add_le hskew)

theorem coveredBy_iff {held : List String} {c : Credential} : CoveredBy held c ↔
    c.roles.find? (fun r => !isAuthorityRole r && !Strings.contains held r) = none ∧
    ¬ ((!c.grants.isEmpty || c.roles.any isAuthorityRole) &&
      !Strings.contains held grantDelegate) = true ∧
    c.grants.find? (fun g => !Strings.contains held g) = none := by
  simp only [List.find?_eq_none, Bool.and_eq_true, Bool.not_eq_true', not_and, Bool.not_eq_false,
    Bool.or_eq_true, List.isEmpty_eq_false_iff, List.any_eq_true, Strings.contains_iff]
  exact ⟨fun h => ⟨h.roles, h.delegation, fun g hg => h.grants hg⟩,
    fun ⟨hroles, hdelegation, hgrants⟩ => ⟨hroles, fun g hg => hgrants g hg, hdelegation⟩⟩

theorem authorizes_eq_ok {rt : Runtime} {held : List String} {scope domain : String}
    {c : Credential} : authorizes rt held scope domain c = .ok () ↔
      CoveredBy held c ∧ (scope ≠ "" → scopeCovers rt scope c.target = true) ∧
        scopeCovers rt domain c.target = true := by
  have hscope : ¬ (scope != "" && !scopeCovers rt scope c.target) = true ↔
      (scope ≠ "" → scopeCovers rt scope c.target = true) := by simp
  rw [coveredBy_iff]
  unfold authorizes
  cases hroles : c.roles.find? (fun r => !isAuthorityRole r && !Strings.contains held r) with
  | some r => simp [throw, throwThe, MonadExceptOf.throw, bind, Except.bind]
  | none =>
    cases hgrants : c.grants.find? (fun g => !Strings.contains held g) with
    | some g =>
      simp only [unit_bind, and_false, false_and, reduceCtorEq]
    | none =>
      simp only [unit_bind, refuse_eq_ok, require_eq_ok, hscope, true_and, and_true]

theorem CoveredBy.mono {held held' : List String} {c : Credential} (h : CoveredBy held c)
    (hsub : held ⊆ held') : CoveredBy held' c :=
  ⟨fun r hr hplain => hsub (h.roles r hr hplain), fun _ hg => hsub (h.grants hg),
    fun hbearing => hsub (h.delegation hbearing)⟩

variable {rt : Runtime} {dar : DomainAuthorityRecord} {blocks : Option CredentialBlockList}
  {now : Time} {c issuer : Credential} {rest : List Credential} {n : ℕ}

theorem verifyChain_succ : verifyChain rt dar blocks now (n + 1) c = .ok () ↔
    checkLink rt c blocks now = .ok () ∧
      ((dar.rootKeyAt c.issuedAt = some c.issuerPub ∧
          authorizes rt rootGrants "" dar.domain c = .ok ()) ∨
        (dar.rootKeyAt c.issuedAt ≠ some c.issuerPub ∧
          ∃ issuer, dar.resolveAuthority c.issuerPub = some issuer ∧
            issuer.issuedAt.nanos ≤ (c.issuedAt.add credSkew).nanos ∧
            verifyChain rt dar blocks now n issuer = .ok () ∧
            authorizes rt issuer.grants issuer.scope dar.domain c = .ok ())) := by
  simp only [verifyChain, unit_bind]
  by_cases hroot : dar.rootKeyAt c.issuedAt = some c.issuerPub
  · simp [hroot]
  · simp only [hroot, if_false, false_and, false_or, ne_eq, not_false_eq_true, true_and, need_bind,
      unit_bind, refuse_eq_ok, Bool.not_eq_true, Time.before_eq_false_iff]

theorem resolveAuthority_mem {pub : Bytes} (h : dar.resolveAuthority pub = some issuer) :
    issuer ∈ dar.authorityCredentials ∧ issuer.subject = pub :=
  ⟨List.mem_of_find?_eq_some h, by simpa using List.find?_some h⟩

theorem chainHolds_singleton (hlink : LinkHolds rt blocks now c)
    (hroot : dar.rootKeyAt c.issuedAt = some c.issuerPub) (hcovered : CoveredBy rootGrants c) :
    ChainHolds rt dar blocks now [c] where
  links := by simpa using hlink
  authorities := by simp
  issued := List.IsChain.singleton c
  anchored := by
    intro x hx
    rw [← Option.some.inj hx]
    exact ⟨hroot, dar.effectiveAt_of_rootKeyAt hroot⟩
  covered := List.pairwise_singleton _ c
  coveredByRoot := by simpa using hcovered

theorem ChainHolds.cons (h : ChainHolds rt dar blocks now (issuer :: rest))
    (hlink : LinkHolds rt blocks now c) (hmem : issuer ∈ dar.authorityCredentials)
    (hissued : IssuedBy c issuer) (hcovered : CoveredBy issuer.grants c) :
    ChainHolds rt dar blocks now (c :: issuer :: rest) where
  links := by
    intro x hx
    rcases List.mem_cons.mp hx with rfl | hx
    · exact hlink
    · exact h.links x hx
  authorities := by
    intro x hx
    rcases List.mem_cons.mp hx with rfl | hx
    · exact hmem
    · exact h.authorities x hx
  issued := List.isChain_cons_cons.mpr ⟨hissued, h.issued⟩
  anchored := by
    intro x hx
    rw [List.getLast?_cons_cons] at hx
    exact h.anchored x hx
  covered := by
    -- the issuer's own grants are covered by every later member, and cover the new one
    refine List.pairwise_cons.mpr ⟨?_, h.covered⟩
    intro x hx
    rcases List.mem_cons.mp hx with rfl | hx
    · exact hcovered
    · exact hcovered.mono (List.rel_of_pairwise_cons h.covered hx).grants
  coveredByRoot := by
    intro x hx
    rcases List.mem_cons.mp hx with rfl | hx
    · exact hcovered.mono (h.coveredByRoot issuer (List.mem_cons_self ..)).grants
    · exact h.coveredByRoot x hx

theorem length_issuers_le : (issuers dar n c).length ≤ n := by
  induction n generalizing c with
  | zero => exact le_rfl
  | succ n ih =>
    unfold issuers
    split
    · exact Nat.zero_le _
    · split
      · exact Nat.zero_le _
      · next issuer _ => exact Nat.succ_le_succ (ih (c := issuer))

theorem issuers_of_not_root (hroot : dar.rootKeyAt c.issuedAt ≠ some c.issuerPub)
    (hissuer : dar.resolveAuthority c.issuerPub = some issuer) :
    issuers dar (n + 1) c = issuer :: issuers dar n issuer := by
  rw [issuers, if_neg hroot, hissuer]

theorem issuers_of_root (hroot : dar.rootKeyAt c.issuedAt = some c.issuerPub) :
    issuers dar n c = [] := by
  cases n with
  | zero => rfl
  | succ n => rw [issuers, if_pos hroot]

theorem chainHolds_of_verifyChain (h : verifyChain rt dar blocks now (n + 1) c = .ok ()) :
    ChainHolds rt dar blocks now (c :: issuers dar n c) := by
  -- induction on the links still allowed above the credential
  induction n generalizing c with
  | zero =>
    obtain ⟨hlink, ⟨hroot, hauth⟩ | ⟨-, issuer, -, -, hchain, -⟩⟩ := verifyChain_succ.mp h
    · exact chainHolds_singleton (linkHolds_of_checkLink hlink) hroot (authorizes_eq_ok.mp hauth).1
    · cases hchain
  | succ n ih =>
    obtain ⟨hlink, ⟨hroot, hauth⟩ | ⟨hroot, issuer, hissuer, htime, hchain, hauth⟩⟩ :=
      verifyChain_succ.mp h
    · rw [issuers_of_root hroot]
      exact chainHolds_singleton (linkHolds_of_checkLink hlink) hroot (authorizes_eq_ok.mp hauth).1
    · rw [issuers_of_not_root hroot hissuer]
      obtain ⟨hmem, hsubject⟩ := resolveAuthority_mem hissuer
      have hissued : IssuedBy c issuer :=
        ⟨hsubject.symm, htime.trans (Time.nanos_add_le (by decide))⟩
      exact (ih hchain).cons (linkHolds_of_checkLink hlink) hmem hissued
        (authorizes_eq_ok.mp hauth).1

theorem verifyCredential_chainHolds (leaf : Credential) (dar : Option DomainAuthorityRecord)
    (h : verifyCredential rt leaf dar blocks now = .ok ()) :
    ∃ d ∈ dar, ∃ rest : List Credential, rest.length ≤ maxChainDepth ∧
      ChainHolds rt d blocks now (leaf :: rest) := by
  simp only [verifyCredential, need_bind] at h
  obtain ⟨d, hd, hchain⟩ := h
  exact ⟨d, hd, issuers d maxChainDepth leaf, length_issuers_le, chainHolds_of_verifyChain hchain⟩

/-! A domain whose root enrolled one authority, which issued the credential of an address. -/
namespace Delegation

def enrolment (domain scope : String) (issuer key : UInt8) : Pb.Credential :=
  { plainCredential domain "" roleAuthority issuer key with grants := rootGrants, scope := scope }

def authority (enrolled : List Pb.Credential) : DomainAuthorityRecord :=
  .fromProto { plainAuthority "example.org" 1 with authorityCredentials := enrolled }

theorem rootKeyAt_authority (enrolled : List Pb.Credential) :
    (authority enrolled).rootKeyAt (Time.ofUnix 100) = some (keyOf 1) :=
  rootKeyAt_plainAuthority "example.org" 1

theorem checkLink_held {held : List Bytes} {log : List (Bytes × Bytes)} {c : Credential}
    {now : Time} (hkey : c.issuerPub ∈ held) (hlen : c.issuerPub.length = 32)
    (hsig : c.signature.length = 64) (hafter : c.notAfter = default)
    (hfrom : c.effectiveFrom = default) :
    checkLink (idealRuntime held log) c none now = .ok () := by
  have hverify : c.verifySignature (idealRuntime held log) = true :=
    Credential.verifySignature_idealRuntime.mpr ⟨hlen, hsig, .inl hkey⟩
  simp [checkLink, hverify, hafter, hfrom, blocked, Time.isZero_iff.mpr rfl]

def enrolled : Pb.Credential := enrolment "example.org" "" 1 2

def leaf : Credential := .fromProto (plainCredential "example.org" "" roleNode 2 3)

theorem verifyCredential_leaf : verifyCredential (idealRuntime [keyOf 1, keyOf 2] []) leaf
    (some (authority [enrolled])) none (Time.ofUnix 200) = .ok () := by
  have hroot := rootKeyAt_authority [enrolled]
  have hissuer : verifyChain (idealRuntime [keyOf 1, keyOf 2] []) (authority [enrolled]) none
      (Time.ofUnix 200) maxChainDepth (.fromProto enrolled) = .ok () := by
    refine verifyChain_succ.mpr ⟨checkLink_held (by decide) rfl rfl rfl rfl, .inl ⟨hroot, ?_⟩⟩
    exact authorizes_eq_ok.mpr ⟨coveredBy_iff.mpr (by decide), fun h => absurd rfl h,
      scopeCovers_refl _⟩
  rw [verifyCredential_some]
  refine verifyChain_succ.mpr ⟨checkLink_held (by decide) rfl rfl rfl rfl, .inr ⟨?_, ?_⟩⟩
  · change (authority [enrolled]).rootKeyAt (Time.ofUnix 100) ≠ some (keyOf 2)
    rw [hroot]
    decide
  · refine ⟨.fromProto enrolled, rfl, by decide, hissuer, ?_⟩
    exact authorizes_eq_ok.mpr ⟨coveredBy_iff.mpr (by decide), fun h => absurd rfl h,
      scopeCovers_refl _⟩

theorem leaf_chainHolds : ∃ d ∈ some (authority [enrolled]), ∃ rest : List Credential,
    rest.length ≤ maxChainDepth ∧
      ChainHolds (idealRuntime [keyOf 1, keyOf 2] []) d none (Time.ofUnix 200) (leaf :: rest) :=
  verifyCredential_chainHolds leaf (some (authority [enrolled])) verifyCredential_leaf

end Delegation

end Dmcn
