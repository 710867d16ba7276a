import OpenDmcn.Web.SiblingRotation

/-! The tombstones that declare a retired key stolen (`signCompromise` and `finishRotation` of
`lib/crypto/rotation.ts`), at a node. The new key signs on top of whatever is there; what a root of
the domain has signed gives way to a root only. -/

namespace Dmcn.Web.Rekeying

open Go Guard RecordStore Calls

variable {rt : Runtime} {anchor : DarAnchor} {inputs : SigningInputs} {next : IdentityKeyPair}
  {rotatedAt : ℤ}

structure Own (rt : Runtime) (next : IdentityKeyPair) : Prop where
  signs : AddressRemovalRecord.SignsFor rt next.seed next.ed25519Public
  only : ∀ pub message, Crypto.verify rt pub message (rt.ed25519Sign next.seed message) = true →
    pub = next.ed25519Public

/-- Nothing but records and histories has been pushed since the browser has read the removals. -/
def Publishes (ps : List Push) : Prop := ∀ p ∈ ps, p.kind = .identity ∨ p.kind = .history

def ReadsRemovals (rt : Runtime) (r : Relay) (inputs : SigningInputs) : Prop :=
  ∀ sib ∈ inputs.all, sib.priorRemoval = (r.records.storedRemovalAny rt sib.address).map
    (fun rm => RemovalState.of rm.toProto) ∧
    ∀ rm, r.records.storedRemovalAny rt sib.address = some rm → rm.revision.toNat < 2 ^ 53

/-- What the node needs for a tombstone: the record under the new key, the authority of the domain,
and no removal that one of its roots has signed. -/
structure Declarable (rt : Runtime) (r : Relay) (next : IdentityKeyPair) (address : String) :
    Prop where
  named : domainOf address ≠ ""
  rotated : ∃ rec, r.records.getIdentity rt address = some rec ∧
    rec.ed25519Public = next.ed25519Public
  open_ : ∃ dar, r.records.getDAR rt (domainOf address) = some dar ∧
    ∀ rm, r.records.storedRemovalAny rt address = some rm → removalIsRootSigned rt dar rm = false

def declare (now : Time) (d : CompromiseDeclaration) : Push := ⟨now, .removal, d.removal⟩

def DeclaredAt (rt : Runtime) (anchor : DarAnchor) (r : Relay) (now : Time)
    (ds : List CompromiseDeclaration) : Prop :=
  Machine.Along (Relay.push rt anchor) (fun s p => (acceptRecord rt anchor s p).2 = .ok ()) r
    (ds.map (declare now))

/-- What has been tried before: some of the declarations, in any order, each any number of times. -/
def Attempts (ds : List CompromiseDeclaration) (ps : List Push) : Prop :=
  ∀ p ∈ ps, ∃ d ∈ ds, ∃ now, p = declare now d

def TakesDeclarations (rt : Runtime) (anchor : DarAnchor) (r : Relay) (c : Ceremony) : Prop :=
  ∀ ps, Attempts c.signed.compromise ps → ∀ d ∈ c.signed.compromise, ∀ now,
    (acceptRecord rt anchor (Machine.run (Relay.push rt anchor) r ps) (declare now d)).2 = .ok ()

/-- Some attempt to finish, where `declareStolen` returns only if the node has taken what it
declares, gets to the mailbox. -/
def ReachesMailbox (rt : Runtime) (anchor : DarAnchor) (r : Relay) (c : Ceremony) : Prop :=
  ∃ ps, Attempts c.signed.compromise ps ∧ ∃ now mailFilter fates,
    let log := (finishRotation c.steps c.inputs.address c.signed.next c.inputs.current
      c.inputs.outgoingAliasRoot
      c.signed.rotatedAt mailFilter (some c.signed.compromise) [] fates).2.1
    took Step.isRename log = true ∧ ∀ ds, ⟨.declareStolen ds, .ok⟩ ∈ log →
      DeclaredAt rt anchor (Machine.run (Relay.push rt anchor) r ps) now ds

def tombstoneOf (rt : Runtime) (next : IdentityKeyPair) (rotatedAt : ℤ) (address : String)
    (prior : Option AddressRemovalRecord) (retired : Bytes) : AddressRemovalRecord :=
  .fromProto (signRemoval rt next
    (unsignedRemoval rotatedAt address (prior.map fun rm => RemovalState.of rm.toProto) retired))

section Tombstone

variable {address : String} {prior : Option AddressRemovalRecord} {retired : Bytes}

variable (rt next rotatedAt address prior retired) in
theorem keys_tombstoneOf : (tombstoneOf rt next rotatedAt address prior retired).keys =
    (prior.map AddressRemovalRecord.keys).getD [] ++ [retired] := by
  have hkeys : (tombstoneOf rt next rotatedAt address prior retired).keys =
      ((((prior.map fun rm => RemovalState.of rm.toProto).map RemovalState.removedBindings).getD
        [] ++ [(retired, rotatedAt)]).map fun b => (⟨b.1, Int64.ofInt b.2⟩ : Pb.RemovedBinding)).map
          (fun b => (RemovedBinding.fromProto b).ed25519Public) := by
    change ((unsignedRemoval rotatedAt address (prior.map fun rm => RemovalState.of rm.toProto)
      retired).removedBindings.map
      RemovedBinding.fromProto).map RemovedBinding.ed25519Public = _
    rw [List.map_map]
    rfl
  rw [hkeys, List.map_append, List.map_append]
  cases prior with
  | none => rfl
  | some rm =>
    simp [RemovalState.of, AddressRemovalRecord.keys, AddressRemovalRecord.toProto,
      RemovedBinding.toProto, RemovedBinding.fromProto, Function.comp_def]

variable (rt next rotatedAt address retired) in
theorem revision_tombstoneOf (hrevision : ∀ rm, prior = some rm → rm.revision.toNat < 2 ^ 53) :
    (tombstoneOf rt next rotatedAt address prior retired).revision =
      (prior.map AddressRemovalRecord.revision).getD 0 + 1 := by
  cases prior with
  | none =>
    change UInt64.ofNat (Js.number (0 + 1)).toNat = 0 + 1
    decide
  | some rm => exact revision_number (hrevision rm rfl)

variable (rotatedAt address prior retired) in
theorem selfSignature_tombstoneOf (hown : Own rt next) :
    (tombstoneOf rt next rotatedAt address prior retired).selfSignature.val =
      rt.ed25519Sign next.seed (Ctx.addressRemoval.tag ++ encodeRemovalSignableBytes rt
        (unsignedRemoval rotatedAt address (prior.map fun rm => RemovalState.of rm.toProto)
          retired)) :=
  Fixed.val_copy_of_length ((length_of_signsFor hown.signs).2 _)

variable (rotatedAt address prior retired) in
theorem verify_tombstoneOf (hown : Own rt next) (pub : Bytes) :
    ∃ message, (tombstoneOf rt next rotatedAt address prior retired).verify rt pub =
      Crypto.verify rt pub message (rt.ed25519Sign next.seed message) := by
  let base := unsignedRemoval rotatedAt address (prior.map fun rm => RemovalState.of rm.toProto)
    retired
  have hbytes : (tombstoneOf rt next rotatedAt address prior retired).signableBytes rt =
      encodeRemovalSignableBytes rt base := by
    unfold AddressRemovalRecord.signableBytes encodeRemovalSignableBytes
    congr 1
    change ({ (AddressRemovalRecord.fromProto (signRemoval rt next base)).toProto with
      selfSignature := [] } : Pb.AddressRemovalRecord) = _
    simp [AddressRemovalRecord.fromProto, AddressRemovalRecord.toProto, signRemoval,
      RemovedBinding.toProto, RemovedBinding.fromProto, Function.comp_def]
  refine ⟨Ctx.addressRemoval.tag ++ encodeRemovalSignableBytes rt base, ?_⟩
  unfold AddressRemovalRecord.verify verifyCtx
  rw [hbytes, selfSignature_tombstoneOf rotatedAt address prior retired hown]

theorem signCompromise_eq_some {data : Bytes}
    (h : signCompromise rt next rotatedAt address (prior.map fun rm => RemovalState.of rm.toProto)
      retired = some data) :
    AddressRemovalRecord.fromProtoBytes rt data =
      some (tombstoneOf rt next rotatedAt address prior retired) := by
  unfold signCompromise at h
  split at h
  · cases h
  · rw [← Option.some.inj h]
    unfold AddressRemovalRecord.fromProtoBytes encodeRemovalRecord
    rw [Codec.unmarshal_deterministic]
    rfl

end Tombstone

def tombstoneAt (rt : Runtime) (r : Relay) (inputs : SigningInputs) (next : IdentityKeyPair)
    (rotatedAt : ℤ) (address : String) :
    AddressRemovalRecord :=
  tombstoneOf rt next rotatedAt address (r.records.storedRemovalAny rt address)
    inputs.current.ed25519Public

variable {r : Relay} {d : CompromiseDeclaration}

theorem declaration_read (hreads : ReadsRemovals rt r inputs)
    (hd : d ∈ declarations rt inputs next rotatedAt) :
    AddressRemovalRecord.fromProtoBytes rt d.removal =
      some (tombstoneAt rt r inputs next rotatedAt d.address) ∧
      ∃ sib ∈ inputs.all, sib.address = d.address := by
  unfold declarations at hd
  split at hd
  · exact absurd hd List.not_mem_nil
  · obtain ⟨sib, hsib, hdata⟩ := List.mem_filterMap.mp hd
    obtain ⟨data, hsigned, rfl⟩ := Option.map_eq_some_iff.mp hdata
    rw [(hreads sib hsib).1] at hsigned
    exact ⟨signCompromise_eq_some hsigned, sib, hsib, rfl⟩

variable (rt anchor) in
theorem published_frame {ps : List Push} (h : Publishes ps) :
    (∀ a, (Machine.run (Relay.push rt anchor) r ps).records.storedRemovalAny rt a =
      r.records.storedRemovalAny rt a) ∧
    (∀ d, (Machine.run (Relay.push rt anchor) r ps).records.getDAR rt d =
      r.records.getDAR rt d) := by
  induction ps generalizing r with
  | nil => exact ⟨fun _ => rfl, fun _ => rfl⟩
  | cons p ps ih =>
    have hkind := h p (List.mem_cons_self ..)
    obtain ⟨hremoval, hdar⟩ := ih (r := r.push rt anchor p) fun p' hp' =>
      h p' (List.mem_cons_of_mem _ hp')
    refine ⟨fun a => (hremoval a).trans ?_, fun d => (hdar d).trans ?_⟩
    · rcases storedRemovalAny_push rt anchor r p a with hkeep | ⟨_, _, hk, -⟩
      · exact hkeep
      · rcases hkind with hi | hh
        · cases hi.symm.trans hk
        · cases hh.symm.trans hk
    · rcases getDAR_push rt anchor r p d with hkeep | ⟨_, hk, -⟩
      · exact hkeep
      · rcases hkind with hi | hh
        · cases hi.symm.trans hk
        · cases hh.symm.trans hk

theorem rotationLimiter_push {p : Push} (h : p.kind ≠ .identity) :
    (r.push rt anchor p).rotationLimiter = r.rotationLimiter := by
  have hcommit : ∀ result, (r.commit result).1.rotationLimiter = r.rotationLimiter := by
    intro result
    cases result with
    | ok rs => rfl
    | error e => rfl
  unfold Relay.push acceptRecord
  split
  · next hkind => exact absurd hkind h
  all_goals first | exact hcommit _ | rfl

/-- While the declarations are made, a removal is the one that was there, or the tombstone on top of
it, which was to be had. -/
structure Declaring (rt : Runtime) (r s : Relay) (inputs : SigningInputs) (next : IdentityKeyPair)
    (rotatedAt : ℤ) : Prop where
  authority : ∀ d, s.records.getDAR rt d = r.records.getDAR rt d
  identity : ∀ a, s.records.getIdentity rt a = r.records.getIdentity rt a
  removal : ∀ a, s.records.storedRemovalAny rt a = r.records.storedRemovalAny rt a ∨
    s.records.storedRemovalAny rt a = some (tombstoneAt rt r inputs next rotatedAt a) ∧
      Declarable rt r next a

theorem domainPart_of_fold {address : String} (haddress : address ≠ "")
    (h : Strings.equalFold rt.unicode (domainPart address) (domainOf address) = true) :
    domainPart address = domainOf address := by
  unfold domainPart domainOf at h ⊢
  cases hsplit : Strings.splitAtSign address with
  | none =>
    rw [hsplit] at h
    exact absurd (Strings.eq_empty_of_equalFold h) haddress
  | some parts => rfl

theorem domainPart_of_named {address : String} (h : domainOf address ≠ "") :
    domainPart address = domainOf address := by
  unfold domainOf at h
  unfold domainPart domainOf
  cases hsplit : Strings.splitAtSign address with
  | none =>
    rw [hsplit] at h
    exact absurd rfl h
  | some parts => rfl

theorem verify_own (hown : Own rt next) {address : String} {prior : Option AddressRemovalRecord}
    {retired : Bytes} {pub : Bytes} :
    (tombstoneOf rt next rotatedAt address prior retired).verify rt pub = true ↔
      pub = next.ed25519Public := by
  obtain ⟨message, hverify⟩ := verify_tombstoneOf rotatedAt address prior retired hown pub
  rw [hverify]
  constructor
  · exact hown.only pub message
  · rintro rfl
    exact hown.signs message

def Fresh (rt : Runtime) (r : Relay) (next : IdentityKeyPair) : Prop :=
  ∀ d dar, r.records.getDAR rt d = some dar → next.ed25519Public ∉ dar.rootKeys

section Declaring

variable {r s : Relay} {a : String} {data : Bytes} (hown : Own rt next)
  (h : Declaring rt r s inputs next rotatedAt)

include hown h

theorem Declaring.not_rootSigned (hfresh : Fresh rt r next) {d : String}
    {dar : DomainAuthorityRecord} (hdar : s.records.getDAR rt d = some dar) :
    removalIsRootSigned rt dar (tombstoneAt rt r inputs next rotatedAt a) = false := by
  rw [Bool.eq_false_iff, Ne, removalIsRootSigned_iff]
  rintro ⟨pub, hroot, hverify⟩
  obtain rfl := (verify_own hown).mp hverify
  exact hfresh _ dar ((h.authority _).symm.trans hdar) hroot

theorem Declaring.declarable (hfresh : Fresh rt r next) {dar : DomainAuthorityRecord}
    (hadm : RemovalAdmitted rt s.records data (tombstoneAt rt r inputs next rotatedAt a) dar) :
    Declarable rt r next a := by
  have hpart : domainPart a = domainOf a := domainPart_of_fold hadm.address_ne hadm.domain_eq
  have hauthority : s.records.getDAR rt (domainOf a) = some dar := by
    rw [← hpart]
    exact hadm.authority
  have hplain := h.not_rootSigned (a := a) hown hfresh hauthority
  refine ⟨?_, ?_, dar, (h.authority _).symm.trans hauthority, ?_⟩
  · rw [← hpart]
    exact hadm.domain_ne
  · have howner : ownerSignedBy rt s.records (tombstoneAt rt r inputs next rotatedAt a) = true :=
      hadm.signed.resolve_left (by simp [hplain])
    unfold ownerSignedBy at howner
    rw [h.identity] at howner
    split at howner
    · cases howner
    · next rec hrec =>
      simp only [removalIsOwnerSigned, Bool.and_eq_true] at howner
      exact ⟨rec, hrec, (verify_own hown).mp howner.2⟩
  · intro existing hexisting
    rcases h.removal a with hkeep | ⟨-, hdeclarable⟩
    · -- nothing has been declared yet: the node has compared the tombstone with this one
      rw [Bool.eq_false_iff]
      intro hroot
      have hsucceeds := (hadm.succeeds existing (hkeep.trans hexisting)).1 hroot
      rw [hplain] at hsucceeds
      cases hsucceeds
    · obtain ⟨dar', hdar', hunsigned⟩ := hdeclarable.open_
      obtain rfl : dar' = dar :=
        Option.some.inj (hdar'.symm.trans ((h.authority _).symm.trans hauthority))
      exact hunsigned existing hexisting

theorem Declaring.ownerSigned (hfiled : Filed rt s.records) {rec : IdentityRecord}
    (hrec : r.records.getIdentity rt a = some rec) (hkey : rec.ed25519Public = next.ed25519Public) :
    ownerSignedBy rt s.records (tombstoneAt rt r inputs next rotatedAt a) = true := by
  have hheld : s.records.getIdentity rt a = some rec := (h.identity a).trans hrec
  have hsize := (length_of_signsFor hown.signs).1
  have hnonempty : rec.ed25519Public.isEmpty = false := by
    rw [hkey, Bool.eq_false_iff, Ne, List.isEmpty_iff]
    intro hnil
    rw [hnil] at hsize
    cases hsize
  have hsame : (tombstoneAt rt r inputs next rotatedAt a).address = rec.address :=
    (hfiled.identity a rec hheld).1.symm
  unfold ownerSignedBy
  rw [show (tombstoneAt rt r inputs next rotatedAt a).address = a from rfl, hheld]
  simp only [removalIsOwnerSigned, Bool.and_eq_true, Bool.not_eq_true']
  refine ⟨⟨hnonempty, ?_⟩, (verify_own hown).mpr hkey⟩
  rw [hsame]
  exact Strings.equalFold_refl _

theorem Declaring.admitted (hfiled : Filed rt s.records)
    (hrevision : ∀ rm, r.records.storedRemovalAny rt a = some rm → rm.revision.toNat < 2 ^ 53)
    (hread : AddressRemovalRecord.fromProtoBytes rt data =
      some (tombstoneAt rt r inputs next rotatedAt a))
    (hdeclarable : Declarable rt r next a) :
    ∃ dar, RemovalAdmitted rt s.records data (tombstoneAt rt r inputs next rotatedAt a) dar := by
  obtain ⟨rec, hrec, hkey⟩ := hdeclarable.rotated
  obtain ⟨dar, hdar, hunsigned⟩ := hdeclarable.open_
  have hne : a ≠ "" := by
    rintro rfl
    exact hdeclarable.named (by decide)
  have hpart := domainPart_of_named hdeclarable.named
  refine ⟨dar, hread, hne, ?_, ?_, ?_, .inr (h.ownerSigned hown hfiled hrec hkey), ?_⟩
  · change domainPart a ≠ ""
    rw [hpart]
    exact hdeclarable.named
  · change Strings.equalFold rt.unicode (domainPart a) (domainOf a) = true
    rw [hpart]
    exact Strings.equalFold_refl _
  · change s.records.getDAR rt (domainPart a) = some dar
    rw [hpart, h.authority]
    exact hdar
  · intro existing hexisting
    rcases h.removal a with hkeep | ⟨hnew, -⟩
    · -- the tombstone is on top of this one
      have hstored : r.records.storedRemovalAny rt a = some existing := hkeep.symm.trans hexisting
      refine ⟨fun hroot => ?_, ?_, ?_⟩
      · rw [hunsigned existing hstored] at hroot
        cases hroot
      · rw [tombstoneAt, revision_tombstoneOf rt next rotatedAt a _ hrevision, hstored]
        exact UInt64.le_of_lt (succ_revision (hrevision existing hstored))
      · rw [tombstoneAt, keys_tombstoneOf, hstored]
        exact List.subset_append_left _ _
    · -- it is the tombstone itself
      obtain rfl := Option.some.inj (hnew.symm.trans hexisting)
      exact ⟨id, UInt64.le_refl _, List.Subset.refl _⟩

/-- While the declarations are made, the node takes the tombstone of an address if it had what it
needs for it at first, and only then. -/
theorem Declaring.accepted_iff {now : Time} (hfresh : Fresh rt r next) (hfiled : Filed rt s.records)
    (hrevision : ∀ rm, r.records.storedRemovalAny rt a = some rm → rm.revision.toNat < 2 ^ 53)
    (hread : AddressRemovalRecord.fromProtoBytes rt data =
      some (tombstoneAt rt r inputs next rotatedAt a)) :
    (acceptRecord rt anchor s ⟨now, .removal, data⟩).2 = .ok () ↔ Declarable rt r next a := by
  rw [acceptRecord_removal_iff rfl]
  constructor
  · rintro ⟨rm, dar, hadm⟩
    obtain rfl := Option.some.inj (hadm.parsed.symm.trans hread)
    exact h.declarable hown hfresh hadm
  · intro hdeclarable
    exact ⟨_, h.admitted hown hfiled hrevision hread hdeclarable⟩

end Declaring

theorem Declaring.start (r : Relay) : Declaring rt r r inputs next rotatedAt :=
  ⟨fun _ => rfl, fun _ => rfl, fun _ => .inl rfl⟩

theorem Declaring.push {r s : Relay} {now : Time} (hown : Own rt next) (hfresh : Fresh rt r next)
    (hreads : ReadsRemovals rt r inputs) (hd : d ∈ declarations rt inputs next rotatedAt)
    (h : Declaring rt r s inputs next rotatedAt) :
    Declaring rt r (s.push rt anchor (declare now d)) inputs next rotatedAt := by
  refine ⟨fun d' => ?_, fun a => ?_, fun a => ?_⟩
  · rcases getDAR_push rt anchor s (declare now d) d' with hkeep | ⟨_, hkind, -⟩
    · exact hkeep.trans (h.authority d')
    · cases hkind
  · rcases getIdentity_push rt anchor s (declare now d) a with hkeep | ⟨_, hkind, -⟩
    · exact hkeep.trans (h.identity a)
    · cases hkind
  · rcases storedRemovalAny_push rt anchor s (declare now d) a with hkeep
      | ⟨rm, dar, -, hadm, haddress, hnew⟩
    · rw [hkeep]
      exact h.removal a
    · have hread := (declaration_read hreads hd).1
      obtain rfl := Option.some.inj (hadm.parsed.symm.trans hread)
      obtain rfl : d.address = a := haddress
      exact .inr ⟨hnew, h.declarable hown hfresh hadm⟩

variable (anchor) in
theorem Declaring.run {r s : Relay} {ps : List Push} (hown : Own rt next) (hfresh : Fresh rt r next)
    (hreads : ReadsRemovals rt r inputs) (hps : Attempts (declarations rt inputs next rotatedAt) ps)
    (h : Declaring rt r s inputs next rotatedAt) (hfiled : Filed rt s.records) :
    Declaring rt r (Machine.run (Relay.push rt anchor) s ps) inputs next rotatedAt ∧
      Filed rt (Machine.run (Relay.push rt anchor) s ps).records := by
  induction ps generalizing s with
  | nil => exact ⟨h, hfiled⟩
  | cons p ps ih =>
    obtain ⟨d, hd, now, rfl⟩ := hps p (List.mem_cons_self ..)
    exact ih (fun p' hp' => hps p' (List.mem_cons_of_mem _ hp')) (h.push hown hfresh hreads hd)
      (filed_push s _ hfiled)

theorem declaration_accepted_iff {ps : List Push} {now : Time} (hown : Own rt next)
    (hfresh : Fresh rt r next) (hreads : ReadsRemovals rt r inputs) (hfiled : Filed rt r.records)
    (hps : Attempts (declarations rt inputs next rotatedAt) ps)
    (hd : d ∈ declarations rt inputs next rotatedAt) :
    (acceptRecord rt anchor (Machine.run (Relay.push rt anchor) r ps) (declare now d)).2 = .ok () ↔
      Declarable rt r next d.address := by
  obtain ⟨hread, sib, hsib, haddress⟩ := declaration_read hreads hd
  obtain ⟨hdeclaring, hfiled'⟩ := (Declaring.start r).run anchor hown hfresh hreads hps hfiled
  refine hdeclaring.accepted_iff hown hfresh hfiled' ?_ hread
  rw [← haddress]
  exact (hreads sib hsib).2

theorem declaredAt_iff {ps : List Push} {now : Time} {ds : List CompromiseDeclaration}
    (hown : Own rt next) (hfresh : Fresh rt r next) (hreads : ReadsRemovals rt r inputs)
    (hfiled : Filed rt r.records) (hps : Attempts (declarations rt inputs next rotatedAt) ps)
    (hds : ds ⊆ declarations rt inputs next rotatedAt) :
    DeclaredAt rt anchor (Machine.run (Relay.push rt anchor) r ps) now ds ↔ ∀ d ∈ ds,
      Declarable rt r next d.address := by
  induction ds generalizing ps with
  | nil => exact iff_of_true trivial fun d hd => absurd hd List.not_mem_nil
  | cons d ds ih =>
    have hd := hds (List.mem_cons_self ..)
    have hnext : Attempts (declarations rt inputs next rotatedAt) (ps ++ [declare now d]) := by
      intro p hp
      rcases List.mem_append.mp hp with hbefore | hlast
      · exact hps p hbefore
      · exact ⟨d, hd, now, List.mem_singleton.mp hlast⟩
    have hrest := ih hnext (List.Subset.trans (List.subset_cons_self ..) hds)
    rw [Machine.run_append] at hrest
    have hfirst : (acceptRecord rt anchor (Machine.run (Relay.push rt anchor) r ps)
      (declare now d)).2 = .ok () ↔
        Declarable rt r next d.address := declaration_accepted_iff hown hfresh hreads hfiled hps hd
    rw [List.forall_mem_cons, ← hfirst]
    exact and_congr_right fun _ => hrest

theorem triple_keep {F : Log → Prop} (hF : Stays F) (step : Step) : Triple F (call step)
    (fun _ => F) F :=
  Triple.ask (fun _ h => h) (fun log _ h => hF log _ h) fun log h => hF log _ h

theorem declared_of_renamed {steps : RotationSteps} {address : String}
    {next outgoing : IdentityKeyPair} {aliasRoot : Option Bytes} {rotatedAt : ℤ}
    {mailFilter : Option FilterList} {ds : List CompromiseDeclaration}
    (hgiven : steps.declareStolen = true) {fates : List Fate}
    (h : took Step.isRename (finishRotation steps address next outgoing aliasRoot rotatedAt
      mailFilter (some (d :: ds)) []
      fates).2.1 = true) :
    ⟨.declareStolen (d :: ds), .ok⟩ ∈
      (finishRotation steps address next outgoing aliasRoot rotatedAt mailFilter (some (d :: ds))
      [] fates).2.1 := by
  let F : Log → Prop := fun log => ⟨.declareStolen (d :: ds), .ok⟩ ∈ log
  let R : Log → Prop := fun log => took Step.isRename log = true → F log
  have hF : Stays F := fun log e hmem => List.mem_append_left _ hmem
  have hR : ∀ log, F log → R log := fun log hmem _ => hmem
  have hkeep : ∀ step, Triple F (call step) (fun _ => F) R := fun step =>
    (triple_keep hF step).strengthen (fun _ _ h => h) hR
  have hfirst : Triple (fun log => log = [])
      (optional steps.declareStolen (call (.declareStolen (d :: ds)))) (fun _ => F) R := by
    rw [hgiven]
    apply Triple.ask
    · rintro log rfl hrename
      cases hrename
    · rintro log fate rfl hrename
      simp [took, Step.isRename] at hrename
    · rintro log rfl
      exact List.mem_append_right _ (List.mem_singleton.mpr rfl)
  have hreseal : Triple F (tryCatch (optional steps.resealStorage (call (.resealStorage next)))
    (pure ())) (fun _ => F) R := by
    have hstep : Triple F (optional steps.resealStorage (call (.resealStorage next))) (fun _ => F)
        F :=
      Triple.optional (fun _ => triple_keep hF _) fun _ _ h => h
    exact Triple.tryCatch hstep (Triple.pure fun _ h => h) hR
  have hall : Triple (fun log => log = [])
      (finishRotation steps address next outgoing aliasRoot rotatedAt mailFilter
      (some (d :: ds))) (fun _ => F) R := by
    unfold finishRotation
    refine Triple.bind hfirst fun _ => ?_
    refine Triple.bind (hkeep _) fun _ => ?_
    refine Triple.bind (hkeep _) fun _ => ?_
    refine Triple.bind (hkeep _) fun _ => ?_
    refine Triple.bind (hkeep _) fun _ => ?_
    refine Triple.bind (hkeep _) fun _ => ?_
    refine Triple.bind (hkeep _) fun _ => ?_
    refine Triple.bind (Q := fun _ => F) ?_ fun _ => ?_
    · cases mailFilter with
      | none => exact Triple.pure fun _ h => h
      | some list => exact Triple.optional (fun _ => hkeep _) fun _ _ h => h
    refine Triple.bind (hkeep _) fun _ => ?_
    exact Triple.bind hreseal fun _ => hkeep _
  exact (hall.run (fun _ log hmem => hR log hmem) rfl fates).1 h

theorem exists_renamed (steps : RotationSteps) (address : String) (next outgoing : IdentityKeyPair)
    (aliasRoot : Option Bytes) (rotatedAt : ℤ) (ds : List CompromiseDeclaration) :
    ∃ fates, let log :=
  (finishRotation steps address next outgoing aliasRoot rotatedAt none (some ds) [] fates).2.1
      took Step.isRename log = true ∧ ∀ ds', ⟨.declareStolen ds', .ok⟩ ∈ log → ds' = ds := by
  cases ds with
  | nil =>
    refine ⟨[.ok], ?_⟩
    simp [finishRotation, call, ask, Bind.bind, Calls.bind, Pure.pure, took, Step.isRename,
      Fate.took]
  | cons d ds =>
    cases hgiven : steps.declareStolen with
    | false =>
      refine ⟨[.ok], ?_⟩
      simp [finishRotation, call, ask, Bind.bind, Calls.bind, Pure.pure, took, Step.isRename,
        Fate.took, hgiven, Calls.optional]
    | true =>
      refine ⟨[.ok, .ok], ?_⟩
      simp [finishRotation, call, ask, Bind.bind, Calls.bind, took, Step.isRename, Fate.took,
        hgiven, Calls.optional]

theorem compromise_of_signed {signed : RotatedRecord}
    (h : signRotation rt inputs next rotatedAt = some signed) :
    signed.next = next ∧ signed.compromise = declarations rt inputs next rotatedAt := by
  unfold signRotation at h
  rw [Option.bind_eq_bind, Option.bind_eq_some_iff] at h
  obtain ⟨-, -, h⟩ := h
  rw [Option.bind_eq_bind, Option.bind_eq_some_iff] at h
  obtain ⟨cred, -, h⟩ := h
  rw [← Option.some.inj h]
  exact ⟨rfl, rfl⟩

structure Agreed (rt : Runtime) (r : Relay) (inputs : SigningInputs) (next : IdentityKeyPair) :
    Prop where
  filed : Filed rt r.records
  fresh : Fresh rt r next
  reads : ReadsRemovals rt r inputs

theorem agreed_of_publishes {ps : List Push} (hreach : r.Reachable rt anchor)
    (hfresh : Fresh rt r next) (hreads : ReadsRemovals rt r inputs) (hps : Publishes ps) :
    Agreed rt (Machine.run (Relay.push rt anchor) r ps) inputs next := by
  obtain ⟨hremoval, hdar⟩ := published_frame rt anchor (r := r) hps
  have hreach₁ : (Machine.run (Relay.push rt anchor) r ps).Reachable rt anchor := by
    obtain ⟨seeds, is, rfl⟩ := hreach
    exact ⟨seeds, is ++ ps, Machine.run_append ..⟩
  refine ⟨hreach₁.filed, ?_, ?_⟩
  · intro d dar hheld
    exact hfresh d dar ((hdar d).symm.trans hheld)
  · intro sib hsib
    rw [hremoval]
    exact hreads sib hsib

theorem takesDeclarations_iff {c : Ceremony} (hown : Own rt next) (h : Agreed rt r inputs next)
    (hcompromise : c.signed.compromise = declarations rt inputs next rotatedAt) :
    TakesDeclarations rt anchor r c ↔ ∀ d ∈ c.signed.compromise,
      Declarable rt r next d.address := by
  unfold TakesDeclarations
  rw [hcompromise]
  constructor
  · intro htakes d hd
    have hnone : Attempts (declarations rt inputs next rotatedAt) [] :=
      fun p hp => absurd hp List.not_mem_nil
    exact (declaration_accepted_iff hown h.fresh h.reads h.filed hnone hd).mp
      (htakes [] hnone d hd (Time.ofUnix 0))
  · intro hall ps hps d hd now
    exact (declaration_accepted_iff hown h.fresh h.reads h.filed hps hd).mpr (hall d hd)

theorem reachesMailbox_iff {c : Ceremony} (hown : Own rt next) (h : Agreed rt r inputs next)
    (hcompromise : c.signed.compromise =
      declarations rt inputs next rotatedAt) (hgiven : c.steps.declareStolen = true) :
    ReachesMailbox rt anchor r c ↔ ∀ d ∈ c.signed.compromise, Declarable rt r next d.address := by
  unfold ReachesMailbox
  rw [hcompromise]
  constructor
  · rintro ⟨ps, hps, now, mailFilter, fates, hrename, hdeclared⟩
    cases hds : declarations rt inputs next rotatedAt with
    | nil => exact fun d hd => absurd hd List.not_mem_nil
    | cons d ds =>
      rw [hds] at hrename hdeclared
      have hreturned := hdeclared _ (declared_of_renamed hgiven hrename)
      rw [← hds] at hreturned ⊢
      exact (declaredAt_iff hown h.fresh h.reads h.filed hps (List.Subset.refl _)).mp hreturned
  · intro hall
    have hnone : Attempts (declarations rt inputs next rotatedAt) [] :=
      fun p hp => absurd hp List.not_mem_nil
    obtain ⟨fates, hrename, honly⟩ :=
      exists_renamed c.steps c.inputs.address c.signed.next c.inputs.current
      c.inputs.outgoingAliasRoot c.signed.rotatedAt (declarations rt inputs next rotatedAt)
    refine ⟨[], hnone, Time.ofUnix 0, none, fates, hrename, ?_⟩
    intro ds hds
    rw [honly ds hds]
    exact (declaredAt_iff hown h.fresh h.reads h.filed hnone (List.Subset.refl _)).mpr hall

/-- After the records of a ceremony are published, the node takes every declaration that the
ceremony has made, and the ceremony can get to the mailbox, exactly when each address has the record
under the new key and a removal, if it has one, that no root of its domain has signed. -/
theorem declarations_finishable_iff {r : Relay} {ps : List Push} {c : Ceremony}
    (hreach : r.Reachable rt anchor) (hown : Own rt next) (hfresh : Fresh rt r next)
    (hreads : ReadsRemovals rt r inputs) (hps : Publishes ps) (hsigned : signRotation rt inputs
      next rotatedAt = some c.signed) (hgiven : c.steps.declareStolen = true) :
    let r₁ := Machine.run (Relay.push rt anchor) r ps
    (TakesDeclarations rt anchor r₁ c ↔ ∀ d ∈ c.signed.compromise,
      Declarable rt r₁ next d.address) ∧
      (ReachesMailbox rt anchor r₁ c ↔ ∀ d ∈ c.signed.compromise,
        Declarable rt r₁ next d.address) := by
  intro r₁
  have hagreed : Agreed rt r₁ inputs next := agreed_of_publishes hreach hfresh hreads hps
  have hcompromise := (compromise_of_signed hsigned).2
  exact ⟨takesDeclarations_iff hown hagreed hcompromise, reachesMailbox_iff hown hagreed hcompromise
    hgiven⟩

/-! The account of `Aliased`, of which a removal of an older key is held; it is signed by the
domain's root (key 1) or by the owner (key 2). -/
namespace Stolen

open Aliased

def removal (signer : UInt8) : Pb.AddressRemovalRecord :=
  { (default : Pb.AddressRemovalRecord) with
    version := 1, domain := "example.org", address := account, removedBindings :=
      [⟨keyOf 9, 0⟩], revision := 1
    selfSignature := keyOf signer ++ keyOf signer }

noncomputable def relay (signer : UInt8) : Relay :=
  Aliased.relay.push rt₁ none
    ⟨Time.ofUnix 100, .removal, rt₁.addressRemovalRecord.marshal (removal signer)⟩

noncomputable def inputsOf (signer : UInt8) : SigningInputs :=
  { inputsWith [] with
    severity := .compromised
    priorRemoval := some (.of (AddressRemovalRecord.fromProto (removal signer)).toProto) }

noncomputable def own (signer : UInt8) : SiblingInput :=
  ⟨account, .of (record account).toProto, [],
    some (.of (AddressRemovalRecord.fromProto (removal signer)).toProto)⟩

noncomputable def published (signer : UInt8) : Push :=
  ⟨Time.ofUnix 200, .identity,
    (rekeyed rt₁ (inputsOf signer) (keyPair 3) 200 enrolled.toProto (own signer)).record⟩

theorem eq_of_verify {pub : Bytes} {key : UInt8} {message : Bytes}
    (h : Crypto.verify rt₁ pub message (keyOf key ++ keyOf key) = true) : pub = keyOf key := by
  unfold Crypto.verify at h
  rw [Bool.and_eq_true, Bool.and_eq_true] at h
  have hsame : keyOf key ++ keyOf key = pub ++ pub := eq_of_beq h.2
  have hlength : pub.length = (keyOf key).length := (eq_of_beq h.1.1).trans (length_keyOf key).symm
  exact (List.append_inj hsame hlength.symm).1.symm

theorem verify_removal (signer : UInt8) (pub : Bytes) :
    (AddressRemovalRecord.fromProto (removal signer)).verify rt₁ pub = true ↔
      pub = keyOf signer := by
  have hsig : (AddressRemovalRecord.fromProto (removal signer)).selfSignature.val = keyOf signer ++
      keyOf signer :=
    Fixed.val_copy_of_length (by simp [removal])
  unfold AddressRemovalRecord.verify verifyCtx
  rw [hsig]
  constructor
  · exact eq_of_verify
  · rintro rfl
    exact verify_twice signer _

theorem rootSigned_iff (signer : UInt8) :
    removalIsRootSigned rt₁ (.fromProto authority) (.fromProto (removal signer)) = true ↔
      signer = 1 := by
  rw [removalIsRootSigned_iff]
  constructor
  · rintro ⟨pub, hroot, hverify⟩
    have hsigner := (verify_removal signer pub).mp hverify
    obtain rfl : pub = keyOf 1 := List.mem_singleton.mp hroot
    exact keyOf_injective hsigner.symm
  · rintro rfl
    exact ⟨keyOf 1, List.mem_singleton.mpr rfl, (verify_removal 1 _).mpr rfl⟩

variable {signer : UInt8}

theorem records_relay (h : signer = 1 ∨ signer = 2) :
    (relay signer).records = Aliased.relay.records.putRemoval rt₁
      (.fromProto (removal signer)) := by
  have hadm : RemovalAdmitted rt₁ Aliased.relay.records
      (rt₁.addressRemovalRecord.marshal (removal signer))
      (.fromProto (removal signer)) (.fromProto authority) := by
    refine ⟨AddressRemovalRecord.fromProtoBytes_marshal rt₁ _, show account ≠
      "" by decide, show "example.org" ≠ "" by decide, ?_, getDAR_relay, ?_, ?_⟩
    · have hdomain : domainOf account = "example.org" := by decide
      change Strings.equalFold _ "example.org" (domainOf account) = true
      rw [hdomain]
      exact Strings.equalFold_refl _
    · rcases h with rfl | rfl
      · exact .inl ((rootSigned_iff 1).mpr rfl)
      · right
        unfold ownerSignedBy
        rw [show (AddressRemovalRecord.fromProto (removal 2)).address = account from rfl,
          getIdentity_relay (.inl rfl)]
        simp only [removalIsOwnerSigned, Bool.and_eq_true]
        exact ⟨⟨by decide, Strings.equalFold_refl _⟩, (verify_removal 2 _).mpr rfl⟩
    · intro existing hexisting
      cases (storedRemovalAny_relay account).symm.trans hexisting
  exact (acceptRecord_removal rfl hadm).2

theorem storedRemovalAny_relay (h : signer = 1 ∨ signer = 2) (a : String) :
    (relay signer).records.storedRemovalAny rt₁ a =
      if a = account then some (.fromProto (removal signer)) else none := by
  have hparse := AddressRemovalRecord.fromProtoBytes_marshal rt₁ (removal signer)
  rw [records_relay h, storedRemovalAny_putRemoval hparse (show account ≠ "" by decide),
    Aliased.storedRemovalAny_relay]
  rfl

theorem reachable (signer : UInt8) : (relay signer).Reachable rt₁ none := Aliased.reachable.push _

theorem getDAR_relay (h : signer = 1 ∨ signer = 2) (d : String) :
    (relay signer).records.getDAR rt₁ d = Aliased.relay.records.getDAR rt₁ d := by
  rw [records_relay h]
  exact getDAR_put_of_ne (by decide)

theorem getIdentity_relay (h : signer = 1 ∨ signer = 2) :
    (relay signer).records.getIdentity rt₁ account = some (record account) := by
  rw [records_relay h]
  exact (getIdentity_put_of_ne (by decide)).trans (Aliased.getIdentity_relay (.inl rfl))

theorem heldHistory_relay (h : signer = 1 ∨ signer = 2) :
    heldHistory rt₁ (relay signer).records account = [] := by
  have hget : (relay signer).records.get .history account = Aliased.relay.records.get .history
      account := by
    rw [records_relay h]
    exact get_put_of_prefix_ne _ _ (by decide)
  have hbefore := Aliased.heldHistory_relay account
  unfold heldHistory RecordStore.getHistory at hbefore ⊢
  rw [hget]
  exact hbefore

theorem signers (signer : UInt8) : Signers rt₁ (inputsOf signer) (keyPair 3) enrolled (keyOf 5) :=
  ⟨rfl, rfl, (Aliased.signers []).decoded, signsFor 5, (Aliased.signers []).outgoing,
    (Aliased.signers []).incoming, length_keyOf 3, (Aliased.signers []).newKey,
      (Aliased.signers []).newMailboxKey⟩

theorem listed_of_stored (h : signer = 1 ∨ signer = 2) {rm : AddressRemovalRecord}
    (hrm : (relay signer).records.storedRemoval rt₁ (.fromProto authority) account = some rm) :
    rm.keys = [keyOf 9] := by
  have hstored := (storedRemoval_eq_some.mp hrm).1
  rw [storedRemovalAny_relay h] at hstored
  rw [← Option.some.inj hstored]
  rfl

theorem prepared (h : signer = 1 ∨ signer = 2) :
    Prepared rt₁ (relay signer) (inputsOf signer) (keyPair 3) 200 enrolled (Time.ofUnix 200)
      (own signer) (record account) (.fromProto authority) where
  holds := by
    have hheld := Aliased.holds (.inl rfl : account = account ∨ account = shared)
    refine ⟨getIdentity_relay h, hheld.address, rfl, hheld.mailboxKey, rfl, ?_, ?_, hheld.lands,
      hheld.revision, hheld.createdAt, hheld.expiresAt⟩
    · exact (congrArg (List.map RotationEntry.toProto) (heldHistory_relay h)).symm
    · exact (congrArg retained (heldHistory_relay h)).symm
  clock := ⟨by decide, fun last hlast => by cases hlast⟩
  authority := (getDAR_relay h _).trans
    ((congrArg _ (show domainOf account = "example.org" by decide)).trans Aliased.getDAR_relay)
  rule := domainRule
  fresh := by
    intro rm hrm hlisted
    rw [listed_of_stored h hrm] at hlisted
    exact absurd (List.mem_singleton.mp hlisted) (by decide)

theorem ordinary (h : signer = 1 ∨ signer = 2) :
    Ordinary rt₁ (relay signer) (record account) (.fromProto authority) (Time.ofUnix 200) where
  plain := show isEphemeralAddress account = false by decide
  unreserved := DomainAuthorityRecord.reservesLocalPart_nil rfl
  live := IdentityRecord.not_expired_of_unset rfl
  unfreed := by
    intro rm hrm hlisted
    rw [listed_of_stored h hrm] at hlisted
    exact absurd (List.mem_singleton.mp hlisted) (by decide)
  budget := by
    have hlimiter : (relay signer).rotationLimiter = Aliased.relay.rotationLimiter :=
      rotationLimiter_push fun h => by cases h
    rw [hlimiter, relay_eq]
    rfl

def steps : RotationSteps := ⟨false, true, false, false, true, false, none⟩

theorem readsRemovals (h : signer = 1 ∨ signer = 2) : ReadsRemovals rt₁
    (relay signer) (inputsOf signer) := by
  intro sib hsib
  obtain rfl := List.mem_singleton.mp hsib
  have hstored : (relay signer).records.storedRemovalAny rt₁ account =
      some (.fromProto (removal signer)) :=
    (storedRemovalAny_relay h account).trans (if_pos rfl)
  constructor
  · exact (congrArg (Option.map fun rm => RemovalState.of rm.toProto) hstored).symm
  · intro rm hrm
    rw [← Option.some.inj (hstored.symm.trans hrm)]
    exact show 1 < 2 ^ 53 by decide

theorem own_keyPair (key : UInt8) : Own rt₁ (keyPair key) where
  signs := by
    change AddressRemovalRecord.SignsFor rt₁ (keyPair key).seed (keyOf key)
    rw [seed_keyPair]
    exact signsFor key
  only := by
    intro pub message hverify
    rw [seed_keyPair] at hverify
    exact eq_of_verify hverify

theorem fresh (h : signer = 1 ∨ signer = 2) : Fresh rt₁ (relay signer) (keyPair 3) := by
  intro d dar hdar hroot
  rw [getDAR_relay h, Aliased.records_relay] at hdar
  have hseeded : seeded.records.getDAR rt₁ d = some dar :=
    (getDAR_put_of_ne (by decide)).symm.trans ((getDAR_put_of_ne (by decide)).symm.trans hdar)
  rw [show seeded.records = RecordStore.empty.putDAR rt₁ (.fromProto authority) from rfl,
    getDAR_putDAR (DomainAuthorityRecord.fromProtoBytes_marshal rt₁ authority)] at hseeded
  split at hseeded
  · rw [← Option.some.inj hseeded] at hroot
    exact absurd (keyOf_injective (List.mem_singleton.mp hroot)) (by decide)
  · cases hseeded

theorem exists_declaration (signer : UInt8) :
    ∃ data, declarations rt₁ (inputsOf signer) (keyPair 3) 200 = [⟨account, data⟩] := by
  have hnew : (keyOf 9 == keyOf 2) = false := by decide
  have hone : signCompromise rt₁ (keyPair 3) 200 account
      (some (.of (AddressRemovalRecord.fromProto (removal signer)).toProto)) (keyOf 2) =
      some (encodeRemovalRecord rt₁ (signRemoval rt₁ (keyPair 3) (unsignedRemoval 200 account
        (some (.of (AddressRemovalRecord.fromProto (removal signer)).toProto)) (keyOf 2)))) := by
    refine if_neg ?_
    change ¬ ([((keyOf 9 : Bytes), Js.number 0)].any fun b => b.1 == keyOf 2) = true
    simp [hnew]
  let declaration : SiblingInput → Option CompromiseDeclaration := fun sib =>
    (signCompromise rt₁ (keyPair 3) 200 sib.address sib.priorRemoval (keyOf 2)).map
      (CompromiseDeclaration.mk sib.address)
  have hall : declarations rt₁ (inputsOf signer) (keyPair 3) 200 =
      [own signer].filterMap declaration := rfl
  have hown : declaration (own signer) = some _ :=
    congrArg (Option.map (CompromiseDeclaration.mk account)) hone
  rw [hall, List.filterMap_cons_some hown]
  exact ⟨_, rfl⟩

theorem published_accepted (h : signer = 1 ∨ signer = 2) :
    (acceptRecord rt₁ none (relay signer) (published signer)).2 = .ok () ∧
      ∃ rec, ((relay signer).push rt₁ none (published signer)).records.getIdentity rt₁ account =
      some rec ∧
        rec.ed25519Public = keyOf 3 := by
  obtain ⟨sent, hadm, haddress, hkey⟩ :=
    (prepared h).taken (reachable signer) length_sha256 (signers signer)
    (Strings.equalFold_refl _) (ordinary h)
  obtain ⟨hok, hrecords⟩ : (acceptRecord rt₁ none (relay signer) (published signer)).2 = .ok () ∧
      ((relay signer).push rt₁ none (published signer)).records = (relay signer).records.putIdentity
        rt₁ sent :=
    acceptRecord_identity rfl hadm
  refine ⟨hok, sent, ?_, hkey⟩
  rw [hrecords, getIdentity_putIdentity hadm.parsed]
  exact if_pos haddress.symm

theorem publishes (signer : UInt8) : Publishes [published signer] := by
  intro p hp
  rw [List.mem_singleton.mp hp]
  exact .inl rfl

theorem declarable_iff (h : signer = 1 ∨ signer = 2) :
    Declarable rt₁ ((relay signer).push rt₁ none (published signer)) (keyPair 3) account ↔
      signer ≠ 1 := by
  obtain ⟨hremoval, hdar⟩ := published_frame rt₁ none (r := relay signer) (publishes signer)
  have hdomain : domainOf account = "example.org" := by decide
  have hauthority : ((relay signer).push rt₁ none (published signer)).records.getDAR rt₁
      (domainOf account) =
      some (.fromProto authority) := by
    refine (hdar _).trans ((getDAR_relay h _).trans ?_)
    rw [hdomain]
    exact Aliased.getDAR_relay
  have hstored : ((relay signer).push rt₁ none (published signer)).records.storedRemovalAny rt₁
      account =
      some (.fromProto (removal signer)) :=
        (hremoval _).trans ((storedRemovalAny_relay h account).trans (if_pos rfl))
  constructor
  · rintro ⟨-, -, dar, hheld, hopen⟩ rfl
    obtain rfl := Option.some.inj (hheld.symm.trans hauthority)
    have hplain := hopen _ hstored
    rw [(rootSigned_iff 1).mpr rfl] at hplain
    cases hplain
  · intro hsigner
    refine ⟨?_, (published_accepted h).2, _, hauthority, ?_⟩
    · rw [hdomain]
      decide
    · intro rm hrm
      rw [← Option.some.inj (hstored.symm.trans hrm), Bool.eq_false_iff]
      exact fun hroot => hsigner ((rootSigned_iff signer).mp hroot)

/-- The domain has tombstoned an older key of the account: the rotation of the record is accepted,
the declaration that goes with it never is, and the ceremony does not get to the mailbox. -/
theorem declaration_never_taken :
    (relay 1).Reachable rt₁ none ∧ ReadsRemovals rt₁ (relay 1) (inputsOf 1) ∧
    (acceptRecord rt₁ none (relay 1) (published 1)).2 = .ok () ∧
    ∃ c : Ceremony, signRotation rt₁ (inputsOf 1) (keyPair 3) 200 = some c.signed ∧
      c.steps.declareStolen = true ∧
      (∃ d ∈ c.signed.compromise, ∀ ps, Attempts c.signed.compromise ps → ∀ now,
        (acceptRecord rt₁ none
          (Machine.run (Relay.push rt₁ none) ((relay 1).push rt₁ none (published 1)) ps)
          (declare now d)).2 ≠ .ok ()) ∧
      ¬ ReachesMailbox rt₁ none ((relay 1).push rt₁ none (published 1)) c := by
  have hread : ReadsRemovals rt₁ (relay 1) (inputsOf 1) := readsRemovals (.inl rfl)
  obtain ⟨signed, hsigned, -, hcompromise⟩ := (signers 1).signRotation 200
  obtain ⟨data, hdeclared⟩ := exists_declaration 1
  have hd : (⟨account, data⟩ : CompromiseDeclaration) ∈ declarations rt₁ (inputsOf 1) (keyPair 3)
      200 := by
    rw [hdeclared]
    exact List.mem_singleton.mpr rfl
  have hnot : ¬ Declarable rt₁ ((relay 1).push rt₁ none (published 1)) (keyPair 3) account :=
    fun h => (declarable_iff (.inl rfl)).mp h rfl
  have hheld : Agreed rt₁ ((relay 1).push rt₁ none (published 1)) (inputsOf 1) (keyPair 3) :=
    agreed_of_publishes (reachable 1) (fresh (.inl rfl)) hread (publishes 1)
  refine ⟨reachable 1, hread, (published_accepted (.inl rfl)).1,
    ⟨steps, (inputsOf 1).toRotationInputs, signed⟩, hsigned, rfl,
    ⟨_, hcompromise ▸ hd, ?_⟩, ?_⟩
  · intro ps hps now hok
    rw [hcompromise] at hps
    exact hnot ((declaration_accepted_iff (own_keyPair 3) hheld.fresh hheld.reads hheld.filed hps
      hd).mp hok)
  · intro hreaches
    exact hnot ((reachesMailbox_iff (own_keyPair 3) hheld hcompromise rfl).mp hreaches _
      (hcompromise ▸ hd))

/-- With the owner's own tombstone in its place, the declaration is taken. -/
theorem declaration_taken : ∃ c : Ceremony, signRotation rt₁ (inputsOf 2)
    (keyPair 3) 200 = some c.signed ∧
    TakesDeclarations rt₁ none ((relay 2).push rt₁ none (published 2)) c ∧
    ReachesMailbox rt₁ none ((relay 2).push rt₁ none (published 2)) c := by
  obtain ⟨signed, hsigned, -, hcompromise⟩ := (signers 2).signRotation 200
  obtain ⟨data, hdeclared⟩ := exists_declaration 2
  obtain ⟨htakes, hreaches⟩ := declarations_finishable_iff
    (c := ⟨steps, (inputsOf 2).toRotationInputs, signed⟩) (reachable 2)
    (own_keyPair 3) (fresh (.inr rfl)) (readsRemovals (.inr rfl)) (publishes 2) hsigned rfl
  have hall : ∀ d ∈ signed.compromise, Declarable rt₁ ((relay 2).push rt₁ none (published 2))
      (keyPair 3) d.address := by
    intro d hd
    rw [hcompromise, hdeclared] at hd
    rw [List.mem_singleton.mp hd]
    exact (declarable_iff (.inr rfl)).mpr (by decide)
  exact ⟨_, hsigned, htakes.mpr hall, hreaches.mpr hall⟩

end Stolen

end Dmcn.Web.Rekeying
