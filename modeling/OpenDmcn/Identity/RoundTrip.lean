import OpenDmcn.Lib.Format
import OpenDmcn.Identity.Rotate

/-! Signed records on the wire. Signatures are made over a message that is put together again from
the record that was read, so whatever reading loses or normalises must not show in it. -/

namespace Dmcn

open Go

def Whole (t : Time) : Prop := t.wholeSecond = t

theorem Whole.unixOrZero {t : Time} (h : Whole t) : unixOrZero
    (timeOrZero (unixOrZero t)) = unixOrZero t := by
  unfold Dmcn.unixOrZero
  by_cases ht : t.isZero = true
  · rw [if_pos ht, timeOrZero, if_pos (beq_self_eq_true _), Time.isZero_default, if_pos rfl]
  · rw [if_neg ht]
    unfold timeOrZero
    split
    · next hunix => rw [Time.isZero_default, if_pos rfl, eq_of_beq hunix]
    · next hunix => rw [Time.ofUnix_unix, h, if_neg ht]

namespace Credential

structure WholeSeconds (c : Credential) : Prop where
  issuedAt : Whole c.issuedAt
  notAfter : Whole c.notAfter
  effectiveFrom : Whole c.effectiveFrom

variable {rt : Runtime}

theorem toProto_reread {c : Credential} (h : c.WholeSeconds) :
    (fromProto c.toProto).toProto = c.toProto := by
  unfold fromProto toProto
  dsimp only
  rw [h.notAfter.unixOrZero, h.effectiveFrom.unixOrZero, Time.unix_ofUnix]

theorem toProto_reread_map {cred : Option Credential} (h : ∀ c, cred = some c → c.WholeSeconds) :
    ((cred.map toProto).map fromProto).map toProto = cred.map toProto := by
  cases cred with
  | none => rfl
  | some c =>
    simp only [Option.map_some]
    rw [toProto_reread (h c rfl)]

theorem toProto_reread_list {creds : List Credential} (h : ∀ c ∈ creds, c.WholeSeconds) :
    ((creds.map toProto).map fromProto).map toProto = creds.map toProto := by
  rw [List.map_map, List.map_map]
  apply List.map_congr_left
  intro c hc
  exact toProto_reread (h c hc)

def format (rt : Runtime) : Format Credential Pb.Credential :=
  ⟨rt.credential, toProto, fun pb => some (fromProto pb)⟩

theorem verifySignature_congr {c c' : Credential} (h : c'.toProto = c.toProto) :
    c'.verifySignature rt = c.verifySignature rt := by
  have hissuer : c'.issuerPub = c.issuerPub := congrArg Pb.Credential.issuerPub h
  have hsignature : c'.signature = c.signature := congrArg Pb.Credential.signature h
  unfold verifySignature signableBytes
  rw [h, hissuer, hsignature]

theorem survives_wire (rt : Runtime) : (format rt).Survives WholeSeconds
    fun key c => c.issuerPub = key ∧ c.verifySignature rt = true := by
  apply Format.survives_of_settles
  · rintro pb r hread
    obtain rfl := Option.some.inj hread
    exact congrArg some (fromProto_toProto_fromProto pb)
  · intro c hc
    have hsame := toProto_reread hc
    have hissuer : (fromProto c.toProto).issuerPub = c.issuerPub :=
      congrArg Pb.Credential.issuerPub hsame
    refine ⟨fromProto c.toProto, rfl, hsame, fun key => ?_⟩
    rw [verifySignature_congr hsame, hissuer]

end Credential

namespace CredentialBlockList

structure WholeSeconds (l : CredentialBlockList) : Prop where
  blocks : ∀ b ∈ l.blocks, Whole b.effectiveFrom ∧ Whole b.compromisedSince ∧ Whole b.createdAt

def format (rt : Runtime) : Format CredentialBlockList Pb.CredentialBlockList :=
  ⟨rt.credentialBlockList, toProto, fun pb => some (fromProto pb)⟩

theorem toProto_reread {l : CredentialBlockList} (h : l.WholeSeconds) :
    (fromProto l.toProto).toProto = l.toProto := by
  have hblocks : ((l.blocks.map CredentialBlock.toProto).map CredentialBlock.fromProto).map
      CredentialBlock.toProto =
      l.blocks.map CredentialBlock.toProto := by
    rw [List.map_map, List.map_map]
    apply List.map_congr_left
    intro b hb
    have hsince := (h.blocks b hb).2.1.unixOrZero
    change (CredentialBlock.fromProto b.toProto).toProto = b.toProto
    unfold CredentialBlock.toProto CredentialBlock.fromProto
    dsimp only
    rw [Time.unix_ofUnix, Time.unix_ofUnix, hsince]
  unfold fromProto toProto
  dsimp only
  rw [hblocks, Fixed.copy_val]

theorem survives_wire (rt : Runtime) : (format rt).Survives WholeSeconds fun key l =>
  l.verify rt key = true := by
  apply Format.survives_of_settles
  · rintro pb r hread
    obtain rfl := Option.some.inj hread
    exact congrArg some (fromProto_toProto_fromProto pb)
  · intro l hl
    have hsame := toProto_reread hl
    have hsignature : (fromProto l.toProto).signature = l.signature := Fixed.copy_val l.signature
    refine ⟨fromProto l.toProto, rfl, hsame, fun key => ?_⟩
    unfold verify signableBytes
    rw [hsame, hsignature]

end CredentialBlockList

namespace AddressRemovalRecord

def format (rt : Runtime) : Format AddressRemovalRecord Pb.AddressRemovalRecord :=
  ⟨rt.addressRemovalRecord, toProto, fun pb => some (fromProto pb)⟩

theorem survives_wire (rt : Runtime) : (format rt).Survives (fun _ => True) fun key a =>
  a.verify rt key = true := by
  apply Format.survives_of_settles
  · rintro pb r hread
    obtain rfl := Option.some.inj hread
    exact congrArg some (fromProto_toProto_fromProto pb)
  · intro a _
    refine ⟨fromProto a.toProto, rfl, toProto_fromProto_toProto a, fun key => ?_⟩
    rw [verify_fromProto_toProto]

end AddressRemovalRecord

namespace DomainAuthorityRecord

structure WholeSeconds (d : DomainAuthorityRecord) : Prop where
  authorityEffectiveFrom : Whole d.authorityEffectiveFrom
  createdAt : Whole d.createdAt
  supersededKeys : ∀ k ∈ d.supersededKeys, Whole k.effectiveFrom
  authorityCredentials : ∀ c ∈ d.authorityCredentials, c.WholeSeconds

def format (rt : Runtime) : Format DomainAuthorityRecord Pb.DomainAuthorityRecord :=
  ⟨rt.domainAuthorityRecord, toProto, fun pb => some (fromProto pb)⟩

theorem toProto_reread {d : DomainAuthorityRecord} (h : d.WholeSeconds) :
    (fromProto d.toProto).toProto = d.toProto :=
    by
  have hkeys : ((d.supersededKeys.map AuthorityKey.toProto).map AuthorityKey.fromProto).map
      AuthorityKey.toProto =
      d.supersededKeys.map AuthorityKey.toProto := by
    rw [List.map_map, List.map_map]
    apply List.map_congr_left
    intro k _
    change (AuthorityKey.fromProto k.toProto).toProto = k.toProto
    unfold AuthorityKey.toProto AuthorityKey.fromProto
    dsimp only
    rw [Time.unix_ofUnix, Fixed.copy_val]
  unfold fromProto toProto
  dsimp only
  rw [hkeys, Credential.toProto_reread_list h.authorityCredentials, Fixed.copy_val, Fixed.copy_val,
    Time.unix_ofUnix, Time.unix_ofUnix]

theorem survives_wire (rt : Runtime) : (format rt).Survives WholeSeconds
    fun key d => d.authorityEd25519 = key ∧ d.verify rt = true := by
  apply Format.survives_of_settles
  · rintro pb r hread
    obtain rfl := Option.some.inj hread
    exact congrArg some (fromProto_toProto_fromProto pb)
  · intro d hd
    have hsame := toProto_reread hd
    have hsignature : (fromProto d.toProto).selfSignature = d.selfSignature :=
      Fixed.copy_val d.selfSignature
    have hkey : (fromProto d.toProto).authorityEd25519 = d.authorityEd25519 := rfl
    refine ⟨fromProto d.toProto, rfl, hsame, fun key => ?_⟩
    unfold verify signableBytes
    rw [hsame, hsignature, hkey]

end DomainAuthorityRecord

namespace RotationEntry

structure WholeSeconds (e : RotationEntry) : Prop where
  rotatedAt : Whole e.rotatedAt
  deviceCredential : ∀ c, e.deviceCredential = some c → c.WholeSeconds

variable {rt : Runtime} {e : RotationEntry}

theorem WholeSeconds.toProto_reread (h : e.WholeSeconds) : e.reread.toProto = e.toProto := by
  have hcred : (e.deviceCredential.map fun cred => Credential.fromProto cred.toProto).map
      Credential.toProto =
      e.deviceCredential.map Credential.toProto := by
    have hsame := Credential.toProto_reread_map h.deviceCredential
    simpa only [Option.map_map, Function.comp_def] using hsame
  unfold toProto reread
  dsimp only
  rw [hcred, Time.unix_wholeSecond]

theorem WholeSeconds.verify_reread (h : e.WholeSeconds) : e.reread.verify rt = e.verify rt := by
  have hsame := h.toProto_reread
  have hrotated : e.reread.rotatedAt = e.rotatedAt := h.rotatedAt
  have hshape : e.reread.checkShape = e.checkShape := by
    unfold checkShape
    rw [hrotated]
    rfl
  have hdevice : e.reread.checkDevice rt = e.checkDevice rt := by
    have hread : e.reread.deviceCredential = e.deviceCredential.map fun cred =>
        .fromProto cred.toProto := rfl
    have hsignature : e.reread.deviceSignature = e.deviceSignature := rfl
    have hbytes : e.reread.deviceBytes rt = e.deviceBytes rt := by
      unfold deviceBytes
      rw [hsame]
    unfold checkDevice
    rw [hread, hbytes, hsignature]
    cases e.deviceCredential with
    | none => rfl
    | some cred =>
      have hsubject : (Credential.fromProto cred.toProto).subject = cred.subject := by
        rw [Credential.fromProto, Credential.toProto]
      rw [Option.map_some]
      dsimp only
      rw [hsubject]
  have hconsent : e.reread.consentBytes rt = e.consentBytes rt := by
    unfold consentBytes
    rw [hsame]
  have haccept : e.reread.acceptBytes rt = e.acceptBytes rt := by
    unfold acceptBytes
    rw [hsame]
  have hkeys : e.reread.authorizingEd25519Public = e.authorizingEd25519Public ∧
      e.reread.nextEd25519Public = e.nextEd25519Public := ⟨rfl, rfl⟩
  have hsignatures : e.reread.signature = e.signature ∧ e.reread.nextSignature = e.nextSignature :=
    ⟨rfl, rfl⟩
  unfold verify
  rw [hshape, hdevice, hconsent, haccept, hkeys.1, hkeys.2, hsignatures.1, hsignatures.2]

def format (rt : Runtime) : Format RotationEntry Pb.RotationEntry :=
  ⟨rt.rotationEntry, toProto, fromProto⟩

theorem survives_wire (rt : Runtime) : (format rt).Survives WholeSeconds
    fun key e => e.authorizingEd25519Public = key ∧ e.verify rt = .ok () := by
  apply Format.survives_of_settles
  · exact fun pb r hread => fromProto_toProto hread
  · intro e he
    have hkey : e.reread.authorizingEd25519Public = e.authorizingEd25519Public := rfl
    refine ⟨e.reread, fromProto_toProto_eq_reread e, he.toProto_reread, fun key => ?_⟩
    rw [he.verify_reread, hkey]

end RotationEntry

section Chain

variable {rt : Runtime} {chain : List RotationEntry}

theorem toProto_reread_chain (h : ∀ e ∈ chain, e.WholeSeconds) :
    (chain.map RotationEntry.reread).map RotationEntry.toProto =
      chain.map RotationEntry.toProto := by
  rw [List.map_map]
  apply List.map_congr_left
  intro e he
  exact (h e he).toProto_reread

theorem verifyLinksAfter_reread {address : String} {prev : Option RotationEntry}
    (hprev : ∀ e, prev = some e → e.WholeSeconds)
    (h : ∀ e ∈ chain, e.WholeSeconds) :
    verifyLinksAfter rt address (prev.map RotationEntry.reread) (chain.map RotationEntry.reread) =
      verifyLinksAfter rt address prev chain := by
  induction chain generalizing prev with
  | nil => rfl
  | cons e chain ih =>
    have he := h e List.mem_cons_self
    have hlink : verifyLink rt address (prev.map RotationEntry.reread) e.reread =
        verifyLink rt address prev e := by
      have haddress : e.reread.address = e.address := rfl
      unfold verifyLink
      rw [he.verify_reread, haddress]
      cases prev with
      | none => rfl
      | some prev =>
        have hrotated : e.reread.rotatedAt = e.rotatedAt := he.rotatedAt
        have hprevRotated : prev.reread.rotatedAt = prev.rotatedAt := (hprev prev rfl).rotatedAt
        have hcontinues : e.reread.continues rt prev.reread = e.continues rt prev := by
          unfold RotationEntry.continues
          rw [hrotated, hprevRotated]
          rfl
        rw [Option.map_some]
        dsimp only
        rw [hcontinues]
    have hrest := @ih (some e) (fun e' heq => Option.some.inj heq ▸ he)
      fun e' he' => h e' (List.mem_cons_of_mem e he')
    rw [Option.map_some] at hrest
    rw [List.map_cons, verifyLinksAfter, verifyLinksAfter, hlink, hrest]

end Chain

namespace AddressHistoryRecord

structure WholeSeconds (h : AddressHistoryRecord) : Prop where
  chain : ∀ e ∈ h.chain, e.WholeSeconds

def format (rt : Runtime) : Format AddressHistoryRecord Pb.AddressHistoryRecord :=
  ⟨rt.addressHistoryRecord, toProto, fromProto⟩

theorem survives_wire (rt : Runtime) : (format rt).Survives WholeSeconds fun _ h =>
  h.verify rt = .ok () := by
  apply Format.survives_of_settles
  · exact fun pb r hread => fromProto_toProto hread
  · intro h hwhole
    have hlinks : verifyChainLinks rt (h.chain.map RotationEntry.reread) h.address =
        verifyChainLinks rt h.chain h.address :=
      @verifyLinksAfter_reread rt h.chain h.address none (fun e heq => by cases heq) hwhole.chain
    have htruncated : chainTruncated (h.chain.map RotationEntry.reread) =
        chainTruncated h.chain := by
      cases h.chain with
      | nil => rfl
      | cons e chain => rfl
    refine ⟨⟨h.version, h.domain, h.address, h.chain.map RotationEntry.reread⟩, ?_, ?_, fun _ => ?_⟩
    · change (rotationChainFromProto (h.chain.map RotationEntry.toProto)).map _ = _
      rw [rotationChainFromProto_eq_reread]
      rfl
    · change toProto _ = toProto h
      unfold toProto
      dsimp only
      rw [toProto_reread_chain hwhole.chain]
    · unfold verify
      dsimp only
      rw [htruncated, hlinks]

end AddressHistoryRecord

namespace IdentityRecord

structure WholeSeconds (r : IdentityRecord) : Prop where
  createdAt : Whole r.createdAt
  expiresAt : Whole r.expiresAt
  addressCredential : ∀ c, r.addressCredential = some c → c.WholeSeconds
  routingCredential : ∀ c, r.routingCredential = some c → c.WholeSeconds
  operatorCredentials : ∀ c ∈ r.operatorCredentials, c.WholeSeconds
  rotationChain : ∀ e ∈ r.rotationChain, e.WholeSeconds

structure Readable (rt : Runtime) (r : IdentityRecord) : Prop where
  recovery : r.recoveryEd25519Public.length = 0 ∨ r.recoveryEd25519Public.length = 32
  forward : validateForwardTo rt r.address r.forwardTo = true
  hints : ∀ c, r.routingCredential = some c → r.relayHints = c.relayHints

def new (address : String) (kp : IdentityKeyPair) (createdAt : Time) : IdentityRecord where
  version := 1
  address := address
  ed25519Public := kp.ed25519Public
  x25519Public := kp.x25519Public
  createdAt := createdAt
  expiresAt := default
  relayHints := []
  verificationTier := tierUnverified
  requireOnion := false
  revision := 1
  selfSignature := Fixed.zero 64
  addressCredential := none
  routingCredential := none
  operatorCredentials := []
  rotationChain := []
  recoveryEd25519Public := []
  forwardTo := ""

def sign (rt : Runtime) (kp : IdentityKeyPair) (r : IdentityRecord) : IdentityRecord :=
  { r with selfSignature :=
    Fixed.copy 64 (signCtx rt kp.ed25519Private .identitySelf (r.signableBytes rt)) }

/-- The operator's credentials are put on a record that its owner has signed (`petition.go`). -/
def attach (address routing : Option Credential) (r : IdentityRecord) : IdentityRecord :=
  { r with
    addressCredential := address
    routingCredential := routing
    relayHints := routing.elim r.relayHints Credential.relayHints }

/-- The records that the code comes to hold: made, read, or changed in one of the ways it changes
them. Of what the owner signs, only the fields that reading does not check are set freely. -/
inductive Built (rt : Runtime) : IdentityRecord → Prop
  | new (address : String) (kp : IdentityKeyPair) (createdAt : Time) :
    Built rt (.new address kp createdAt)
  | read {data : Bytes} {r : IdentityRecord} (hread : fromProtoBytes rt data = some r) : Built rt r
  /-- `NewEphemeralRecord` -/
  | ephemeral {r : IdentityRecord} (hints : List String) (expiresAt : Time) (hr : Built rt r)
      (hrouting : r.routingCredential = none) :
        Built rt { r with relayHints := hints, expiresAt := expiresAt }
  | owned {r : IdentityRecord} (version : UInt32) (ed25519Public : Bytes) (x25519Public : Fixed 32)
      (createdAt expiresAt : Time) (verificationTier : VerificationTier) (requireOnion : Bool)
      (revision : UInt64) (rotationChain : List RotationEntry) (hr : Built rt r) :
    Built rt { r with
        version := version, ed25519Public := ed25519Public, x25519Public := x25519Public
        createdAt := createdAt, expiresAt := expiresAt
        verificationTier := verificationTier, requireOnion := requireOnion, revision := revision
        rotationChain := rotationChain }
  | signed {r : IdentityRecord} (kp : IdentityKeyPair) (hr : Built rt r) : Built rt (r.sign rt kp)
  /-- `IssueAddressCredential` -/
  | address {r : IdentityRecord} (cred : Credential) (hr : Built rt r) :
    Built rt { r with addressCredential := some cred }
  /-- `IssueRoutingCredential`, whose hints are those of the credential -/
  | routing {r : IdentityRecord} (cred : Credential) (hr : Built rt r) :
    Built rt { r with routingCredential := some cred, relayHints := cred.relayHints }
  | operator {r : IdentityRecord} (creds : List Credential) (hr : Built rt r) :
    Built rt { r with operatorCredentials := creds }
  | attached {r : IdentityRecord} (address routing : Option Credential) (hr : Built rt r) :
    Built rt (r.attach address routing)

variable {rt : Runtime} {r : IdentityRecord}

theorem Built.readable (h : Built rt r) : r.Readable rt := by
  induction h with
  | new address kp createdAt => exact ⟨.inl rfl, rfl, fun c hc => nomatch hc⟩
  | read hread =>
    obtain ⟨pb, _, hpb⟩ := Option.bind_eq_some_iff.mp hread
    obtain ⟨hrecovery, hforward, chain, _, rfl⟩ := fromProto_eq_some.mp hpb
    refine ⟨hrecovery, hforward, fun c hc => ?_⟩
    change mirrorHints pb.relayHints (pb.routingCredential.map Credential.fromProto) = c.relayHints
    rw [show pb.routingCredential.map Credential.fromProto = some c from hc]
    rfl
  | ephemeral hints expiresAt hr hrouting ih =>
    refine ⟨ih.recovery, ih.forward, fun c hc => ?_⟩
    rw [show _ = some c from hc] at hrouting
    exact nomatch hrouting
  | owned version ed25519Public x25519Public createdAt expiresAt verificationTier requireOnion
    revision rotationChain
      hr ih =>
    exact ⟨ih.recovery, ih.forward, ih.hints⟩
  | signed kp hr ih => exact ⟨ih.recovery, ih.forward, ih.hints⟩
  | address cred hr ih => exact ⟨ih.recovery, ih.forward, ih.hints⟩
  | routing cred hr ih =>
    exact ⟨ih.recovery, ih.forward, fun c hc => congrArg Credential.relayHints (Option.some.inj
      hc)⟩
  | operator creds hr ih => exact ⟨ih.recovery, ih.forward, ih.hints⟩
  | attached address routing hr ih =>
    refine ⟨ih.recovery, ih.forward, fun c hc => ?_⟩
    obtain rfl : routing = some c := hc
    rfl

def format (rt : Runtime) : Format IdentityRecord Pb.IdentityRecord :=
  ⟨rt.identityRecord, toProto, fromProto rt⟩

def reread (r : IdentityRecord) : IdentityRecord :=
  ofMessage r.toProto (r.rotationChain.map RotationEntry.reread)

theorem Readable.fromProto (h : r.Readable rt) : fromProto rt r.toProto = some r.reread :=
  fromProto_eq_some.mpr ⟨h.recovery, h.forward, _, rotationChainFromProto_eq_reread r.rotationChain,
    by rw [reread]⟩

theorem Readable.toProto_reread (h : r.Readable rt) (hwhole : r.WholeSeconds) :
    r.reread.toProto = r.toProto := by
  have haddress := Credential.toProto_reread_map hwhole.addressCredential
  have hrouting := Credential.toProto_reread_map hwhole.routingCredential
  have hoperator := Credential.toProto_reread_list hwhole.operatorCredentials
  have hhints : mirrorHints r.relayHints
      ((r.routingCredential.map Credential.toProto).map Credential.fromProto) =
      r.relayHints := by
    cases hrouting : r.routingCredential with
    | none => rfl
    | some c =>
      have hread : (Credential.fromProto c.toProto).relayHints = c.relayHints := by
        rw [Credential.fromProto, Credential.toProto]
      rw [Option.map_some, Option.map_some, mirrorHints, hread]
      exact (h.hints c hrouting).symm
  unfold reread ofMessage toProto
  dsimp only
  rw [haddress, hrouting, hoperator, hhints, toProto_reread_chain hwhole.rotationChain,
    Fixed.copy_val, Fixed.copy_val, Time.unix_ofUnix, hwhole.expiresAt.unixOrZero]

theorem survives_wire (rt : Runtime) : (format rt).Survives (fun r => Built rt r ∧ r.WholeSeconds)
    fun key r => r.ed25519Public = key ∧ r.verify rt = true := by
  apply Format.survives_of_settles
  · exact fun pb r hread => fromProto_toProto hread
  · rintro r ⟨hbuilt, hwhole⟩
    have hsame := hbuilt.readable.toProto_reread hwhole
    have hkey : r.reread.ed25519Public = r.ed25519Public := rfl
    have hverify : r.reread.verify rt = r.verify rt := by
      apply verify_congr
      · unfold core
        rw [hsame]
      · exact Fixed.copy_val r.selfSignature
    refine ⟨r.reread, hbuilt.readable.fromProto, hsame, fun key => ?_⟩
    rw [hverify, hkey]

end IdentityRecord

/-- Signed records survive the wire, of every kind. -/
theorem signed_records_survive (rt : Runtime) :
    (IdentityRecord.format rt).Survives (fun r => r.Built rt ∧ r.WholeSeconds)
        (fun key r => r.ed25519Public = key ∧ r.verify rt = true) ∧
      (DomainAuthorityRecord.format rt).Survives DomainAuthorityRecord.WholeSeconds
        (fun key d => d.authorityEd25519 = key ∧ d.verify rt = true) ∧
      (Credential.format rt).Survives Credential.WholeSeconds
        (fun key c => c.issuerPub = key ∧ c.verifySignature rt = true) ∧
      (RotationEntry.format rt).Survives RotationEntry.WholeSeconds
        (fun key e => e.authorizingEd25519Public = key ∧ e.verify rt = .ok ()) ∧
      (AddressHistoryRecord.format rt).Survives AddressHistoryRecord.WholeSeconds
      (fun _ h => h.verify rt = .ok ()) ∧
      (CredentialBlockList.format rt).Survives CredentialBlockList.WholeSeconds
        (fun key l => l.verify rt key = true) ∧
      (AddressRemovalRecord.format rt).Survives (fun _ => True)
      (fun key a => a.verify rt key = true) :=
  ⟨IdentityRecord.survives_wire rt, DomainAuthorityRecord.survives_wire rt,
    Credential.survives_wire rt, RotationEntry.survives_wire rt,
      AddressHistoryRecord.survives_wire rt, CredentialBlockList.survives_wire rt,
    AddressRemovalRecord.survives_wire rt⟩

end Dmcn
