import OpenDmcn.Identity.Splice
import OpenDmcn.Relay.Invariant

/-! What an owner rotation does with the history of the record it displaces. The gate compares the
last entry of the new chain with the record displaced, by its keys; the entries before it are
checked among themselves only. -/

namespace Dmcn

open Go Guard RecordStore

variable {rt : Runtime} {anchor : DarAnchor}

/-- The push is accepted on the owner's arm: `rec` displaces `prev` by its chain, which ends in
`last`. -/
structure RotatedBy (rt : Runtime) (r : Relay) (p : Push) (prev rec : IdentityRecord)
    (last : RotationEntry) : Prop where
  kind : p.kind = .identity
  admitted : IdentityAdmitted rt r p.now p.data rec
  held : r.records.getIdentity rt rec.address = some prev
  arm : ∃ d, r.records.getDAR rt (domainOf rec.address) = some d ∧
    authorizeRebind rt (some prev) rec (r.records.storedRemoval rt d rec.address) (some d) p.now =
      .ok .ownerRotation
  last : rec.rotationChain.getLast? = some last

/-- What it takes for the new chain to continue the one displaced: that one verifies as far as the
window reaches, the last entry names its last by hash, and the acceptances carried are its own. -/
structure Continued (rt : Runtime) (prev rec : IdentityRecord) (last : RotationEntry) : Prop where
  linked : verifyChainLinks rt (prev.rotationChain.rtake (maxRotationChain - 1)) rec.address =
    .ok ()
  names : ∀ held, prev.rotationChain.getLast? = some held →
    last.prevSignatureHash = rt.sha256 held.signature
  acceptances : rec.rotationChain.dropLast.map RotationEntry.nextSignature =
    (prev.rotationChain.rtake (maxRotationChain - 1)).map RotationEntry.nextSignature

theorem RotatedBy.chain {r : Relay} {p : Push} {prev rec : IdentityRecord} {last : RotationEntry}
    (h : RotatedBy rt r p prev rec last) : verifyRotationChain rt rec = .ok () := by
  obtain ⟨d, -, harm⟩ := h.arm
  rcases authorizeRebind_cases harm with ⟨hkey, -⟩ | ⟨htomb, -⟩ | ⟨-, d', last', -, -, hrot⟩
  · cases hkey
  · cases htomb
  · exact hrot.chain

theorem continued_of_eq {prev rec : IdentityRecord} {last : RotationEntry}
    (hchain : verifyRotationChain rt rec = .ok ())
    (h : rec.rotationChain = appendRotation prev last) : Continued rt prev rec last := by
  have hlinks := verifyChainLinks_of_verifyRotationChain hchain
  rw [h, appendRotation_eq] at hlinks
  obtain ⟨hlinked, hlast⟩ := verifyLinksAfter_concat.mp hlinks
  refine ⟨hlinked, ?_, ?_⟩
  · intro held hheld
    rw [Option.or_none, getLast?_rtake, hheld] at hlast
    simp only [verifyLink, unit_bind, RotationEntry.continues, require_eq_ok] at hlast
    exact hlast.2.2.2.1
  · rw [h, appendRotation_eq, List.dropLast_concat]
    rfl

theorem eq_of_map_toProto {chain chain' : List RotationEntry}
    (hread : chain.map RotationEntry.reread = chain)
    (hread' : chain'.map RotationEntry.reread = chain')
    (h : chain.map RotationEntry.toProto = chain'.map RotationEntry.toProto) : chain = chain' := by
  have hparsed := rotationChainFromProto_eq_reread chain
  rw [h, rotationChainFromProto_eq_reread, hread, hread'] at hparsed
  exact (Option.some.inj hparsed).symm

theorem map_eq_of_zip {α β : Type} {f : α → β} {l l' : List α} (hlength : l.length = l'.length)
    (h : ∀ p ∈ l.zip l', f p.1 = f p.2) : l.map f = l'.map f := by
  induction l generalizing l' with
  | nil =>
    cases l' with
    | nil => rfl
    | cons b l' => cases hlength
  | cons a l ih =>
    cases l' with
    | nil => cases hlength
    | cons b l' =>
      have htail := ih (Nat.succ.inj hlength) fun p hp => h p (List.mem_cons_of_mem _ hp)
      rw [List.map_cons, List.map_cons, htail, h (a, b) (List.mem_cons_self ..)]

theorem handovers_of_continued {prev rec : IdentityRecord} {last : RotationEntry}
    (hbinding : Ideal.Binding rt.ed25519Verify)
    (hhash : NoCollision rt rec.rotationChain prev.rotationChain)
    (hchain : verifyRotationChain rt rec = .ok ()) (hlast : rec.rotationChain.getLast? = some last)
    (h : Continued rt prev rec last) :
    rec.rotationChain.dropLast.map RotationEntry.handover =
      (prev.rotationChain.rtake (maxRotationChain - 1)).map RotationEntry.handover := by
  have hlinks := verifyChainLinks_of_verifyRotationChain hchain
  have hsplit : rec.rotationChain = rec.rotationChain.dropLast ++ [last] :=
    (List.dropLast_append_getLast? last hlast).symm
  have hwindow : ∀ e ∈ prev.rotationChain.rtake (maxRotationChain - 1), e ∈ prev.rotationChain :=
    fun e he => List.mem_of_mem_drop he
  have hback := back_of_verifyChainLinks hlinks hsplit
  -- the chain displaced, with the last entry put behind it
  have hback' : HashChain.Back (fun a : RotationEntry => rt.sha256 a.signature)
      RotationEntry.prevSignatureHash
      (last :: (prev.rotationChain.rtake (maxRotationChain - 1)).reverse) := by
    rcases List.eq_nil_or_concat (prev.rotationChain.rtake (maxRotationChain - 1)) with hnil
      | ⟨w, held, hw⟩
    · rw [hnil]
      exact .singleton last
    · rw [List.concat_eq_append] at hw
      have hheld : prev.rotationChain.getLast? = some held := by
        rw [← getLast?_rtake prev.rotationChain 6]
        change (prev.rotationChain.rtake (maxRotationChain - 1)).getLast? = some held
        rw [hw, List.getLast?_concat]
      have hrest := back_of_verifyChainLinks h.linked hw
      rw [hw, List.reverse_concat]
      exact List.isChain_cons_cons.mpr ⟨h.names held hheld, hrest⟩
  have hname : ∀ u ∈ rec.rotationChain.dropLast.reverse,
      ∀ v ∈ (prev.rotationChain.rtake (maxRotationChain - 1)).reverse,
      rt.sha256 u.signature = rt.sha256 v.signature → u.handover = v.handover := by
    intro u hu v hv heq
    have hu' := List.mem_of_mem_dropLast (List.mem_reverse.mp hu)
    have hv' := List.mem_reverse.mp hv
    exact handover_eq_of_signature hbinding (verifyChainLinks_entry hlinks u hu').1
      (verifyChainLinks_entry h.linked v hv').1 (hhash u hu' v (hwindow v hv') heq)
  have hzip := HashChain.zip_agree hback hback' hname link_of_handover rfl
  have hlength := congrArg List.length h.acceptances
  rw [List.length_map, List.length_map] at hlength
  have hrev := map_eq_of_zip (by rw [List.length_reverse, List.length_reverse, hlength]) hzip
  rw [List.map_reverse, List.map_reverse] at hrev
  exact List.reverse_inj.mp hrev

theorem map_toProto_of_handovers {chain chain' : List RotationEntry}
    (hhandover : chain.map RotationEntry.handover = chain'.map RotationEntry.handover)
    (haccept : chain.map RotationEntry.nextSignature = chain'.map RotationEntry.nextSignature) :
    chain.map RotationEntry.toProto = chain'.map RotationEntry.toProto := by
  induction chain generalizing chain' with
  | nil =>
    cases chain' with
    | nil => rfl
    | cons e' chain' => cases hhandover
  | cons e chain ih =>
    cases chain' with
    | nil => cases hhandover
    | cons e' chain' =>
      rw [List.map_cons, List.map_cons, List.cons.injEq] at hhandover haccept ⊢
      refine ⟨?_, ih hhandover.2 haccept.2⟩
      have hleft : e.toProto = { e.handover with nextSignature := e.nextSignature } := rfl
      have hright : e'.toProto = { e'.handover with nextSignature := e'.nextSignature } := rfl
      rw [hleft, hright, hhandover.1, haccept.1]

/-- At every state, a push accepted on the owner's arm extends the chain displaced exactly when it
continues it. Signatures bind key and message, and no two of those on the two chains collide. -/
theorem rotation_extends_iff {r : Relay} {p : Push} {prev rec : IdentityRecord}
    {last : RotationEntry} (hbinding : Ideal.Binding rt.ed25519Verify)
    (hhash : NoCollision rt rec.rotationChain prev.rotationChain)
    (h : RotatedBy rt r p prev rec last) :
    rec.rotationChain = appendRotation prev last ↔ Continued rt prev rec last := by
  refine ⟨continued_of_eq h.chain, ?_⟩
  intro hcontinued
  have hhandover := handovers_of_continued hbinding hhash h.chain h.last hcontinued
  have hwire := map_toProto_of_handovers hhandover hcontinued.acceptances
  obtain ⟨data, -, hprev⟩ := Option.bind_eq_some_iff.mp h.held
  have hreadPrev := reread_of_fromProtoBytes hprev
  have hread := reread_of_fromProtoBytes h.admitted.parsed
  have hsame : rec.rotationChain.dropLast = prev.rotationChain.rtake (maxRotationChain - 1) := by
    refine eq_of_map_toProto ?_ ?_ hwire
    · rw [List.map_dropLast, hread]
    · rw [List.rtake, List.map_drop, hreadPrev]
  calc rec.rotationChain = rec.rotationChain.dropLast ++ [last] :=
        (List.dropLast_append_getLast? last h.last).symm
    _ = prev.rotationChain.rtake (maxRotationChain - 1) ++ [last] := by rw [hsame]
    _ = appendRotation prev last := (appendRotation_eq prev last).symm

/-! A record with one rotation behind it, and two that displace it: one continues the chain, the
other starts a new one. -/
namespace Rekeyed

open Handed

def authority : Pb.DomainAuthorityRecord :=
  { plainAuthority "example.org" 1 with
    policyFlags := policyAllowKeyRotation, rotationMinDeviceAgeDays := rotationMinDeviceAgeNone }

def device : Credential :=
  .fromProto (plainCredential "example.org" "alice@example.org" roleDevice 1 5)

def continuing : RotationEntry :=
  { second with deviceCredential := some device, deviceSignature := sig 5 }

def restarting : RotationEntry :=
  { second with
    prevSignatureHash := [], deviceCredential := some device, deviceSignature := sig 6
    signature := sig 7, nextSignature := sig 8 }

def message (key : UInt8) (revision : UInt64) (chain : List RotationEntry) (n : UInt8) :
    Pb.IdentityRecord :=
  { plainRecord "alice@example.org" key with
    x25519PublicKey := keyOf key, revision := revision
    rotationChain := chain.map RotationEntry.toProto, selfSignature := sig n }

def record (key : UInt8) (revision : UInt64) (chain : List RotationEntry) (n : UInt8) :
    IdentityRecord :=
  .ofMessage (message key revision chain n) chain

noncomputable def selfSigning (rec : IdentityRecord) : Signing :=
  ⟨rec.ed25519Public, .identitySelf, rec.signableBytes (idealRuntime [] []), rec.selfSignature.val⟩

noncomputable def ledger : List Signing :=
  first.signings (idealRuntime [] []) ++ continuing.signings (idealRuntime [] []) ++
  restarting.signings (idealRuntime [] []) ++
  [selfSigning (record 3 2 [first] 10), selfSigning (record 4 3 [first, continuing] 11),
    selfSigning (record 4 3 [restarting] 12),
    ⟨keyOf 1, .credential, device.signableBytes (idealRuntime [] []), List.replicate 64 0⟩]

noncomputable def rt₀ : Runtime := ledgerRuntime ledger

theorem binding : Ideal.Binding rt₀.ed25519Verify := by
  apply ledgerRuntime_binding
  change [sig 1, sig 2, sig 3, sig 4, sig 5, sig 7, sig 8, sig 6, (Fixed.copy 64 (sig 10)).val,
    (Fixed.copy 64 (sig 11)).val, (Fixed.copy 64 (sig 12)).val, sig 0].Nodup
  decide

theorem verify_entry {e : RotationEntry} (he : e ∈ [first, continuing, restarting]) :
    e.verify rt₀ = .ok () := by
  simp only [List.mem_cons, List.not_mem_nil, or_false] at he
  rcases he with rfl | rfl | rfl
  · refine RotationEntry.verify_ledgerRuntime ?_ (by decide) ?_ (fun _ => rfl)
    · exact fun s hs => List.mem_append_left _ (List.mem_append_left _ (List.mem_append_left _ hs))
    · simp [RotationEntry.signings, first, entry]
  · refine RotationEntry.verify_ledgerRuntime ?_ (by decide) ?_ (fun h => by cases h)
    · exact fun s hs => List.mem_append_left _ (List.mem_append_left _ (List.mem_append_right _ hs))
    · simp [RotationEntry.signings, continuing, second, entry, device, Credential.fromProto,
        plainCredential]
  · refine RotationEntry.verify_ledgerRuntime ?_ (by decide) ?_ (fun h => by cases h)
    · exact fun s hs => List.mem_append_left _ (List.mem_append_right _ hs)
    · simp [RotationEntry.signings, restarting, second, entry, device, Credential.fromProto,
        plainCredential]

theorem reread_entry {e : RotationEntry} (he : e ∈ [first, continuing, restarting]) :
    e.reread = e := by
  simp only [List.mem_cons, List.not_mem_nil, or_false] at he
  rcases he with rfl | rfl | rfl
  · simp [RotationEntry.reread, first, entry]
  · simp [RotationEntry.reread, continuing, second, entry, device]
  · simp [RotationEntry.reread, restarting, second, entry, device]

variable {chain : List RotationEntry}

theorem fromProtoBytes_message (hchain : ∀ e ∈ chain, e ∈ [first, continuing, restarting])
    (key : UInt8) (revision : UInt64) (n : UInt8) :
    IdentityRecord.fromProtoBytes rt₀ (rt₀.identityRecord.marshal (message key revision chain n)) =
      some (record key revision chain n) := by
  unfold IdentityRecord.fromProtoBytes
  rw [Codec.unmarshal_marshal, Option.bind_some]
  refine IdentityRecord.fromProto_eq_some.mpr ⟨.inl rfl, ?_, chain, ?_, rfl⟩
  · change validateForwardTo rt₀ "alice@example.org" "" = true
    simp [validateForwardTo]
  · have hread : chain.map RotationEntry.reread = chain :=
      (List.map_congr_left fun e he => reread_entry (hchain e he)).trans (List.map_id chain)
    have hparsed := rotationChainFromProto_eq_reread chain
    rw [hread] at hparsed
    exact hparsed

theorem verify_record {key : UInt8} {revision : UInt64} {n : UInt8}
    (h : selfSigning (record key revision chain n) ∈ ledger) :
    (record key revision chain n).verify rt₀ = true :=
  verifyCtx_ledgerRuntime h (length_keyOf key) (Fixed.length_val _)

def now : Time := Time.ofUnix 200

theorem live_record (key : UInt8) (revision : UInt64) (chain : List RotationEntry) (n : UInt8) :
    (record key revision chain n).expired now = false := IdentityRecord.not_expired_of_unset rfl

noncomputable def send (key : UInt8) (revision : UInt64) (chain : List RotationEntry) (n : UInt8) :
    Push :=
  ⟨now, .identity, rt₀.identityRecord.marshal (message key revision chain n)⟩

noncomputable def seeded : Relay := seedOwnRecords rt₀ [.fromProto authority]

noncomputable def rotated : Relay := seeded.push rt₀ none (send 3 2 [first] 10)

theorem reachable_rotated : rotated.Reachable rt₀ none :=
  ⟨[authority], [send 3 2 [first] 10], rfl⟩

theorem not_reserved : ∀ d, some (DomainAuthorityRecord.fromProto authority) = some d →
    d.reservesLocalPart rt₀ (localPartOf "alice@example.org") = false := by
  intro d hd
  cases hd
  rfl

theorem admitted_first : IdentityAdmitted rt₀ seeded now (send 3 2 [first] 10).data
    (record 3 2 [first] 10) := by
  refine .genesis (fromProtoBytes_message (by simp) 3 2 10) (verify_record ?_) (live_record ..)
    (getIdentity_seed _ _ _) ?_
  · simp [ledger]
  · intro d hd
    obtain rfl := eq_of_getDAR_seed hd
    rfl

theorem rotated_eq : rotated =
    ⟨seeded.records.putIdentity rt₀ (record 3 2 [first] 10), .newRotationLimiter⟩ :=
  push_genesis admitted_first (getIdentity_seed _ _ _)

theorem getIdentity_rotated :
    rotated.records.getIdentity rt₀ "alice@example.org" = some (record 3 2 [first] 10) := by
  rw [rotated_eq, getIdentity_putIdentity admitted_first.parsed]
  rfl

theorem getDAR_rotated : rotated.records.getDAR rt₀ "example.org" = some
    (.fromProto authority) := by
  rw [rotated_eq]
  exact (getDAR_put_of_ne (by decide)).trans (getDAR_seed_singleton rfl)

theorem storedRemoval_rotated :
    rotated.records.storedRemoval rt₀ (.fromProto authority) "alice@example.org" = none := by
  have hnone : rotated.records.storedRemovalAny rt₀ "alice@example.org" = none := by
    rw [rotated_eq]
    exact (storedRemovalAny_put_of_ne (by decide)).trans (storedRemovalAny_seed _ _ _)
  unfold storedRemoval
  rw [hnone]
  rfl

theorem verifyCredential_device {at_ : Time} :
    verifyCredential rt₀ device (some (.fromProto authority)) none at_ = .ok () := by
  have hsig : device.verifySignature rt₀ = true := by
    unfold Credential.verifySignature
    rw [Bool.and_eq_true]
    refine ⟨by decide, ?_⟩
    exact verifyCtx_ledgerRuntime
      (s := ⟨keyOf 1, .credential, device.signableBytes (idealRuntime [] []), List.replicate 64 0⟩)
      (by simp [ledger]) (length_keyOf 1) List.length_replicate
  exact verifyCredential_of_root hsig rfl rfl rfl (rootKeyAt_plainAuthority "example.org" 1) rfl
    (by decide) (by decide) rfl (by decide)

theorem deviceAuthorized {e : RotationEntry} (hcred : e.deviceCredential = some device)
    (haddress : e.address = "alice@example.org") (hat : e.rotatedAt = Time.ofUnix 200) :
    DeviceAuthorized rt₀ e device (.fromProto authority) now := by
  refine ⟨hcred, by decide, ?_, verifyCredential_device, ?_, ?_⟩
  · rw [haddress]
    exact Strings.equalFold_refl _
  · rw [hat]
    decide
  · rw [hat]
    decide

theorem verifyChain_continuing :
    verifyChainLinks rt₀ [first, continuing] "alice@example.org" = .ok () := by
  have hlinked : continuing.continues rt₀ first = .ok () := by
    simp only [RotationEntry.continues, unit_bind, require_eq_ok, refuse_eq_ok]
    exact ⟨⟨rfl, rfl⟩, rfl, by decide, by decide⟩
  simp only [verifyChainLinks, verifyLinksAfter, verifyLink, unit_bind, require_eq_ok]
  exact ⟨⟨verify_entry (by simp), Strings.equalFold_refl _, rfl⟩,
    ⟨verify_entry (by simp), Strings.equalFold_refl _, hlinked⟩, trivial⟩

theorem verifyChain_restarting : verifyChainLinks rt₀ [restarting] "alice@example.org" = .ok
    () := by
  simp only [verifyChainLinks, verifyLinksAfter, verifyLink, unit_bind, require_eq_ok]
  exact ⟨⟨verify_entry (by simp), Strings.equalFold_refl _, rfl⟩, trivial⟩

theorem ownerRotation {last : RotationEntry} {n : UInt8}
    (hverify : verifyChainLinks rt₀ chain "alice@example.org" = .ok ())
    (hlength : chain.length ≤ maxRotationChain) (hlast : chain.getLast? = some last)
    (hterminal : last = continuing ∨ last = restarting) :
    OwnerRotation rt₀ (record 3 2 [first] 10) (record 4 3 chain n) last none (.fromProto authority)
      now := by
  have hchain : verifyRotationChain rt₀ (record 4 3 chain n) = .ok () := by
    have hgetLast : (record 4 3 chain n).rotationChain.getLast? = some last := hlast
    unfold verifyRotationChain
    rw [hgetLast]
    simp only [unit_bind, require_eq_ok, refuse_eq_ok, Nat.not_lt]
    refine ⟨hlength, hverify, ?_⟩
    rcases hterminal with rfl | rfl
    · exact ⟨⟨rfl, rfl⟩, rfl⟩
    · exact ⟨⟨rfl, rfl⟩, rfl⟩
  rcases hterminal with rfl | rfl
  · exact ⟨by decide, hchain, rfl, rfl, .inl rfl, show (2 : UInt64) < 3 by decide,
      ⟨device, deviceAuthorized rfl rfl rfl⟩, rfl⟩
  · exact ⟨by decide, hchain, rfl, rfl, .inl rfl, show (2 : UInt64) < 3 by decide,
      ⟨device, deviceAuthorized rfl rfl rfl⟩, rfl⟩

theorem allowed_rotated (address : String) :
    (rotated.rotationLimiter.allow now address).2 = true := by
  rw [rotated_eq]
  rfl

theorem rotatedBy {last : RotationEntry} {n : UInt8}
    (hchain : ∀ e ∈ chain, e ∈ [first, continuing, restarting])
    (hself : selfSigning (record 4 3 chain n) ∈ ledger)
    (hverify : verifyChainLinks rt₀ chain "alice@example.org" = .ok ())
    (hlength : chain.length ≤ maxRotationChain) (hlast : chain.getLast? = some last)
    (hterminal : last = continuing ∨ last = restarting) :
    RotatedBy rt₀ rotated (send 4 3 chain n) (record 3 2 [first] 10) (record 4 3 chain n) last := by
  have hdar : rotated.records.getDAR rt₀ (domainOf (record 4 3 chain n).address) =
      some (.fromProto authority) := by
    have hdomain : domainOf (record 4 3 chain n).address = "example.org" :=
      show domainOf "alice@example.org" = "example.org" by decide
    rw [hdomain]
    exact getDAR_rotated
  have harm : authorizeRebind rt₀ (some (record 3 2 [first] 10)) (record 4 3 chain n)
      (rotated.records.storedRemoval rt₀ (.fromProto authority) (record 4 3 chain n).address)
      (some (.fromProto authority)) now = .ok .ownerRotation := by
    have hkey : keyOf 3 ≠ keyOf 4 := by decide
    have hnone : rotated.records.storedRemoval rt₀ (.fromProto authority)
        (record 4 3 chain n).address =
        none := storedRemoval_rotated
    rw [hnone]
    exact authorizeRebind_ownerRotation hkey hlast (ownerRotation hverify hlength hlast hterminal)
  have hplain : isEphemeralAddress (record 4 3 chain n).address = false :=
    show isEphemeralAddress "alice@example.org" = false by decide
  refine ⟨rfl, ⟨fromProtoBytes_message hchain 4 3 n, verify_record hself, live_record .., ?_, ?_⟩,
    getIdentity_rotated, ⟨_, hdar, harm⟩, hlast⟩
  · rw [checkDomainGates_eq_ok hplain, hdar]
    exact ⟨checkReservedLocalPart_of_not_reserved not_reserved,
      checkKeyContinuity_ownerRotation getIdentity_rotated harm (allowed_rotated _)⟩
  · rw [checkRollback_eq_ok]
    intro existing hexisting
    cases getIdentity_rotated.symm.trans hexisting
    refine ⟨show (2 : UInt64) ≤ 3 by decide, ?_⟩
    intro hrevision
    cases hrevision

/-- The owner's next rotation is accepted with a chain that has none of the entries displaced. -/
theorem rotation_discards_history :
    rotated.Reachable rt₀ none ∧
    RotatedBy rt₀ rotated (send 4 3 [restarting] 12) (record 3 2 [first] 10)
      (record 4 3 [restarting] 12)
      restarting ∧
    (acceptRecord rt₀ none rotated (send 4 3 [restarting] 12)).2 = .ok () ∧
    (record 4 3 [restarting] 12).rotationChain ≠ appendRotation (record 3 2 [first] 10) restarting ∧
    chainTruncated (record 4 3 [restarting] 12).rotationChain = false := by
  have hrotated :=
    rotatedBy (n := 12) (by simp) (by simp [ledger]) verifyChain_restarting (by decide) rfl
    (.inr rfl)
  refine ⟨reachable_rotated, hrotated, (acceptRecord_identity rfl hrotated.admitted).1, ?_, rfl⟩
  change [restarting] ≠ [first, restarting]
  decide

theorem rotation_continues_history :
    RotatedBy rt₀ rotated (send 4 3 [first, continuing] 11) (record 3 2 [first] 10)
      (record 4 3 [first, continuing] 11) continuing ∧
    Continued rt₀ (record 3 2 [first] 10) (record 4 3 [first, continuing] 11) continuing := by
  have hrotated :=
    rotatedBy (n := 11) (by simp) (by simp [ledger]) verifyChain_continuing (by decide) rfl
    (.inl rfl)
  have hhash : NoCollision rt₀ (record 4 3 [first, continuing] 11).rotationChain
      (record 3 2 [first] 10).rotationChain := by
    intro a ha b hb
    change a ∈ [first, continuing] at ha
    change b ∈ [first] at hb
    cases List.mem_singleton.mp hb
    rcases List.mem_cons.mp ha with rfl | ha
    · exact fun _ => rfl
    · cases List.mem_singleton.mp ha
      intro hcollision
      exact absurd hcollision
        (show (Fixed.copy 32 (sig 3)).val ≠ (Fixed.copy 32 (sig 1)).val by decide)
  exact ⟨hrotated, (rotation_extends_iff binding hhash hrotated).mp rfl⟩

end Rekeyed

end Dmcn
