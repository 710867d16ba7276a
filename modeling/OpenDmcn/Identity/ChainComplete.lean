import OpenDmcn.Identity.ChainSound

/-! Which credentials that a chain could carry are accepted. A domain's record may list several
authority credentials for one key, an old one and its renewal; the walk looks at the first of them
only. -/

namespace Dmcn

open Go Guard

section Definitions

variable (rt : Runtime) (dar : DomainAuthorityRecord) (blocks : Option CredentialBlockList)
  (now : Time)

structure IssuedUnder (c issuer : Credential) : Prop where
  subject : issuer.subject = c.issuerPub
  inTime : issuer.issuedAt.nanos ≤ (c.issuedAt.add credSkew).nanos
  authorized : authorizes rt issuer.grants issuer.scope dar.domain c = .ok ()

structure IssuedByRoot (c : Credential) : Prop where
  key : dar.rootKeyAt c.issuedAt = some c.issuerPub
  authorized : authorizes rt rootGrants "" dar.domain c = .ok ()

structure ValidChain (chain : List Credential) : Prop where
  links : ∀ c ∈ chain, checkLink rt c blocks now = .ok ()
  authorities : ∀ c ∈ chain.tail, c ∈ dar.authorityCredentials
  issued : chain.IsChain (IssuedUnder rt dar)
  anchored : ∀ c ∈ chain.getLast?, IssuedByRoot rt dar c

def Carried (above : ℕ) (c : Credential) : Prop :=
  ∃ rest : List Credential, rest.length ≤ above ∧ ValidChain rt dar blocks now (c :: rest)

/-- Up to the root, the first credential that the record lists for an issuer's key is one that
issued and is carried. -/
def FirstServes : ℕ → Credential → Prop
  | 0, c => dar.rootKeyAt c.issuedAt = some c.issuerPub
  | above + 1, c => dar.rootKeyAt c.issuedAt ≠ some c.issuerPub → ∃ first,
      dar.resolveAuthority c.issuerPub = some first ∧ IssuedUnder rt dar c first ∧
        Carried rt dar blocks now above first ∧ FirstServes above first

end Definitions

variable {rt : Runtime} {dar : DomainAuthorityRecord} {blocks : Option CredentialBlockList}
  {now : Time}
  {c issuer : Credential} {rest : List Credential} {n : ℕ}

theorem validChain_singleton :
    ValidChain rt dar blocks now [c] ↔ checkLink rt c blocks now = .ok () ∧
      IssuedByRoot rt dar c := by
  constructor
  · intro h
    exact ⟨h.links c (List.mem_singleton.mpr rfl), h.anchored c rfl⟩
  · rintro ⟨hlink, hroot⟩
    refine ⟨fun x hx => ?_, fun x hx => absurd hx List.not_mem_nil, .singleton c, fun x hx => ?_⟩
    · rwa [List.mem_singleton.mp hx]
    · rwa [← Option.some.inj hx]

theorem validChain_cons_cons : ValidChain rt dar blocks now (c :: issuer :: rest) ↔
    checkLink rt c blocks now = .ok () ∧ issuer ∈ dar.authorityCredentials ∧
      IssuedUnder rt dar c issuer ∧
      ValidChain rt dar blocks now (issuer :: rest) := by
  constructor
  · intro h
    obtain ⟨hissued, hchain⟩ := List.isChain_cons_cons.mp h.issued
    refine ⟨h.links c (List.mem_cons_self ..), h.authorities issuer (List.mem_cons_self ..),
      hissued, ?_, ?_, hchain, ?_⟩
    · exact fun x hx => h.links x (List.mem_cons_of_mem _ hx)
    · exact fun x hx => h.authorities x (List.mem_cons_of_mem _ hx)
    · intro x hx
      exact h.anchored x (by rwa [List.getLast?_cons_cons])
  · rintro ⟨hlink, hmem, hissued, h⟩
    refine ⟨fun x hx => ?_, fun x hx => ?_, List.isChain_cons_cons.mpr ⟨hissued, h.issued⟩,
      fun x hx => ?_⟩
    · rcases List.mem_cons.mp hx with rfl | hx
      · exact hlink
      · exact h.links x hx
    · rcases List.mem_cons.mp hx with rfl | hx
      · exact hmem
      · exact h.authorities x hx
    · rw [List.getLast?_cons_cons] at hx
      exact h.anchored x hx

theorem ValidChain.authorizedByRoot (h : ValidChain rt dar blocks now (c :: rest)) :
    authorizes rt rootGrants "" dar.domain c = .ok () := by
  -- induction on the credentials above: each holds no more than the next one
  induction rest generalizing c with
  | nil => exact (validChain_singleton.mp h).2.authorized
  | cons issuer rest ih =>
    obtain ⟨-, -, hissued, habove⟩ := validChain_cons_cons.mp h
    obtain ⟨hcovered, -, hdomain⟩ := authorizes_eq_ok.mp hissued.authorized
    have hissuer := (authorizes_eq_ok.mp (ih habove)).1
    exact authorizes_eq_ok.mpr ⟨hcovered.mono hissuer.grants, fun hne => absurd rfl hne, hdomain⟩

theorem verifyChain_iff : verifyChain rt dar blocks now (n + 1) c = .ok () ↔
    Carried rt dar blocks now n c ∧ FirstServes rt dar blocks now n c := by
  -- induction on the credentials still allowed above
  induction n generalizing c with
  | zero =>
    rw [verifyChain_succ]
    constructor
    · rintro ⟨hlink, ⟨hroot, hauth⟩ | ⟨-, issuer, -, -, hchain, -⟩⟩
      · exact ⟨⟨[], le_rfl, validChain_singleton.mpr ⟨hlink, hroot, hauth⟩⟩, hroot⟩
      · cases hchain
    · rintro ⟨⟨rest, hlength, hvalid⟩, hroot⟩
      exact ⟨hvalid.links c (List.mem_cons_self ..), .inl ⟨hroot, hvalid.authorizedByRoot⟩⟩
  | succ n ih =>
    rw [verifyChain_succ]
    constructor
    · rintro ⟨hlink, ⟨hroot, hauth⟩ | ⟨hroot, issuer, hissuer, htime, hchain, hauth⟩⟩
      · exact ⟨⟨[], Nat.zero_le _, validChain_singleton.mpr ⟨hlink, hroot, hauth⟩⟩, fun hne =>
          absurd hroot hne⟩
      · obtain ⟨hmem, hsubject⟩ := resolveAuthority_mem hissuer
        obtain ⟨hcarried, hserves⟩ := ih.mp hchain
        have hissued : IssuedUnder rt dar c issuer := ⟨hsubject, htime, hauth⟩
        obtain ⟨rest, hlength, hvalid⟩ := hcarried
        have hchain' := validChain_cons_cons.mpr ⟨hlink, hmem, hissued, hvalid⟩
        exact ⟨⟨issuer :: rest, Nat.succ_le_succ hlength, hchain'⟩,
          fun _ => ⟨issuer, hissuer, hissued, ⟨rest, hlength, hvalid⟩, hserves⟩⟩
    · rintro ⟨⟨rest, hlength, hvalid⟩, hserves⟩
      refine ⟨hvalid.links c (List.mem_cons_self ..), ?_⟩
      by_cases hroot : dar.rootKeyAt c.issuedAt = some c.issuerPub
      · exact .inl ⟨hroot, hvalid.authorizedByRoot⟩
      · obtain ⟨first, hfirst, hissued, hcarried, habove⟩ := hserves hroot
        exact .inr ⟨hroot, first, hfirst, hissued.inTime, ih.mpr ⟨hcarried, habove⟩,
          hissued.authorized⟩

theorem firstServes_of_nodup (hnodup : (dar.authorityCredentials.map Credential.subject).Nodup)
    (h : Carried rt dar blocks now n c) : FirstServes rt dar blocks now n c := by
  induction n generalizing c with
  | zero =>
    obtain ⟨rest, hlength, hvalid⟩ := h
    rw [List.length_eq_zero_iff.mp (Nat.le_zero.mp hlength)] at hvalid
    exact (validChain_singleton.mp hvalid).2.key
  | succ n ih =>
    intro hroot
    obtain ⟨rest, hlength, hvalid⟩ := h
    cases rest with
    | nil => exact absurd (validChain_singleton.mp hvalid).2.key hroot
    | cons issuer rest =>
      obtain ⟨-, hmem, hissued, habove⟩ := validChain_cons_cons.mp hvalid
      have hcarried : Carried rt dar blocks now n issuer :=
        ⟨rest, Nat.le_of_succ_le_succ hlength, habove⟩
      have hfound : dar.resolveAuthority c.issuerPub = some issuer := by
        have hsome : (dar.resolveAuthority c.issuerPub).isSome = true :=
          List.find?_isSome.mpr ⟨issuer, hmem, beq_iff_eq.mpr hissued.subject⟩
        obtain ⟨first, hfirst⟩ := Option.isSome_iff_exists.mp hsome
        obtain ⟨hmem', hsubject⟩ := resolveAuthority_mem hfirst
        have hsame : first = issuer :=
          List.inj_on_of_nodup_map hnodup hmem' hmem (hsubject.trans hissued.subject.symm)
        rw [← hsame]
        exact hfirst
      exact ⟨issuer, hfound, hissued, hcarried, ih hcarried⟩

/-- A credential that a chain carries is accepted exactly when the first credentials listed for the
keys above it carry it too, as they do where no key has two. -/
theorem verifyCredential_complete_iff (rt : Runtime) (dar : DomainAuthorityRecord)
    (blocks : Option CredentialBlockList) (now : Time) (leaf : Credential) :
    ((Carried rt dar blocks now maxChainDepth leaf →
      verifyCredential rt leaf (some dar) blocks now = .ok ()) ↔
      (Carried rt dar blocks now maxChainDepth leaf →
        FirstServes rt dar blocks now maxChainDepth leaf)) ∧
    ((dar.authorityCredentials.map Credential.subject).Nodup →
      Carried rt dar blocks now maxChainDepth leaf →
        verifyCredential rt leaf (some dar) blocks now = .ok ()) := by
  rw [verifyCredential_some, verifyChain_iff]
  constructor
  · exact ⟨fun h hcarried => (h hcarried).2, fun h hcarried => ⟨hcarried, h hcarried⟩⟩
  · exact fun hnodup hcarried => ⟨hcarried, firstServes_of_nodup hnodup hcarried⟩

/-! An authority that was renewed: the record lists the credential that ran out, and the new one
after it. -/
namespace Renewed

open Delegation

noncomputable def rt₁ : Runtime := idealRuntime [keyOf 1, keyOf 2] []

def expired : Pb.Credential := { enrolled with notAfter := 200 }

def today : Time := Time.ofUnix 1000

theorem carried : Carried rt₁ (authority [expired, enrolled]) none today maxChainDepth leaf := by
  have hroot := rootKeyAt_authority [expired, enrolled]
  have hauthority : IssuedByRoot rt₁ (authority [expired, enrolled]) (.fromProto enrolled) := by
    refine ⟨hroot, authorizes_eq_ok.mpr ⟨coveredBy_iff.mpr (by decide), fun h => absurd rfl h,
      scopeCovers_refl _⟩⟩
  have hissued : IssuedUnder rt₁ (authority [expired, enrolled]) leaf (.fromProto enrolled) := by
    refine ⟨rfl, by decide, ?_⟩
    exact authorizes_eq_ok.mpr ⟨coveredBy_iff.mpr (by decide), fun h => absurd rfl h,
      scopeCovers_refl _⟩
  refine ⟨[.fromProto enrolled], by
    decide, validChain_cons_cons.mpr ⟨?_, ?_, hissued, validChain_singleton.mpr ⟨?_, hauthority⟩⟩⟩
  · exact checkLink_held (by decide) rfl rfl rfl rfl
  · exact List.mem_cons_of_mem _ (List.mem_singleton.mpr rfl)
  · exact checkLink_held (by decide) rfl rfl rfl rfl

/-- A chain goes through the new credential, and the leaf is refused for the old one. -/
theorem renewed_refused : Carried rt₁ (authority [expired, enrolled]) none today maxChainDepth
    leaf ∧
    verifyCredential rt₁ leaf (some (authority [expired, enrolled])) none today ≠ .ok () := by
  refine ⟨carried, fun h => ?_⟩
  rw [verifyCredential_some] at h
  obtain ⟨-, ⟨hroot, -⟩ | ⟨-, issuer, hissuer, -, hchain, -⟩⟩ := verifyChain_succ.mp h
  · have hkey : (authority [expired, enrolled]).rootKeyAt leaf.issuedAt = some (keyOf 1) :=
      rootKeyAt_authority _
    rw [hkey] at hroot
    exact absurd (Option.some.inj hroot) (by decide)
  · have hfirst : (authority [expired, enrolled]).resolveAuthority leaf.issuerPub =
        some (.fromProto expired) := rfl
    obtain rfl := Option.some.inj (hfirst.symm.trans hissuer)
    have hlink := linkHolds_of_checkLink (verifyChain_succ.mp hchain).1
    exact absurd (hlink.unexpired (by decide)) (by decide)

end Renewed

end Dmcn
