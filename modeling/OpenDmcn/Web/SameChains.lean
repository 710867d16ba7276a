import Mathlib.Data.List.Chain
import OpenDmcn.Web.SiblingRotation

/-! The rotation chains that the browser takes (`lib/crypto/verifyRotation.ts`) and those that a
node takes (`rotation.go`), both read off the bytes as they travel. Most checks are the same on both
sides; those of addresses, times, revisions and mailbox keys are not. -/

namespace Dmcn.Web.Chains

open Go Guard Rekeying VerifyRotation

section Definitions

variable (rt : Runtime)

def browser (toLowerCase : String → String) : Browser := ⟨Crypto.verify rt, rt.sha256, toLowerCase⟩

def decodedEntry (e : Pb.RotationEntry) : DecodedEntry :=
  ⟨e, encodeRotationDeviceBytes rt e, encodeRotationConsentBytes rt e,
    encodeRotationAcceptBytes rt e⟩

def decodedRecord (pb : Pb.IdentityRecord) : DecodedRecord where
  address := pb.address
  ed25519PublicKey := pb.ed25519PublicKey
  x25519PublicKey := pb.x25519PublicKey
  revision := pb.revision
  selfSignature := pb.selfSignature
  rotationChain := pb.rotationChain.map (decodedEntry rt)
  signableBytes := encodeIdentitySignableBytes rt pb

def decodedHistory (pb : Pb.AddressHistoryRecord) : DecodedHistory :=
  ⟨pb.address, pb.chain.map (decodedEntry rt)⟩

structure WireDecoders where
  identityRecord : Bytes → Option DecodedRecord
  addressHistory : Bytes → Option DecodedHistory

variable (lower : String → String) (decode : WireDecoders) (data : Bytes)

def BrowserTakesRecord : Prop :=
  ∃ rec, decode.identityRecord data = some rec ∧ verifyRecordChain (browser rt lower) rec = .ok ()

def NodeTakesRecord : Prop :=
  ∃ rec, IdentityRecord.fromProtoBytes rt data = some rec ∧ verifyRotationChain rt rec = .ok ()

def BrowserTakesHistory : Prop :=
  ∃ h, decode.addressHistory data = some h ∧ verifyHistory (browser rt lower) h h.address = .ok ()

def NodeTakesHistory : Prop :=
  ∃ pb h, rt.addressHistoryRecord.unmarshal data = some pb ∧ AddressHistoryRecord.fromProto pb =
    some h ∧ h.verify rt = .ok ()

def Reencodes (chain : List Pb.RotationEntry) : Prop :=
  ∀ e ∈ chain, ∀ cred, e.deviceCredential = some cred → (Credential.fromProto cred).toProto = cred

/-- The two libraries read the same record off the bytes, and encode its parts alike. -/
structure RecordAlike : Prop where
  same : decode.identityRecord data = (rt.identityRecord.unmarshal data).map (decodedRecord rt)
  chain : ∀ pb, rt.identityRecord.unmarshal data = some pb → Reencodes pb.rotationChain

/-- The two libraries read the same history off the bytes, and encode its parts alike. -/
structure HistoryAlike : Prop where
  same : decode.addressHistory data = (rt.addressHistoryRecord.unmarshal data).map
    (decodedHistory rt)
  chain : ∀ pb, rt.addressHistoryRecord.unmarshal data = some pb → Reencodes pb.chain

structure Shared (e : Pb.RotationEntry) : Prop where
  version : e.version ≠ 0
  keys : e.retiredEd25519PublicKey.length = 32 ∧ e.nextEd25519PublicKey.length = 32 ∧
    e.authorizingEd25519PublicKey.length = 32
  newKey : e.retiredEd25519PublicKey ≠ e.nextEd25519PublicKey
  newMailboxKey : e.retiredX25519PublicKey ≠ e.nextX25519PublicKey
  revision : e.nextRevision ≠ 0
  prevHash : e.prevSignatureHash.length = 0 ∨ e.prevSignatureHash.length = 32
  consent : Dmcn.verifyCtx rt e.authorizingEd25519PublicKey .identityRotation
    (encodeRotationConsentBytes rt e) e.signature = true
  device : (∀ cred, e.deviceCredential = some cred →
      Dmcn.verifyCtx rt cred.subject .identityRotationDevice (encodeRotationDeviceBytes rt e)
        e.deviceSignature = true) ∧
    (e.deviceCredential = none → e.deviceSignature = [])
  acceptance : Dmcn.verifyCtx rt e.nextEd25519PublicKey .identityRotationAccept
    (encodeRotationAcceptBytes rt e) e.nextSignature =
    true

structure SharedLink (prev e : Pb.RotationEntry) : Prop where
  key : e.retiredEd25519PublicKey = prev.nextEd25519PublicKey
  mailboxKey : e.retiredX25519PublicKey = prev.nextX25519PublicKey
  hash : e.prevSignatureHash = rt.sha256 prev.signature

structure BrowserAsks (address : String) (e : Pb.RotationEntry) : Prop where
  address_ne : e.address ≠ ""
  rotatedAt : e.rotatedAt ≠ 0
  address : lower e.address = lower address

structure BrowserAsksLink (prev e : Pb.RotationEntry) : Prop where
  later : Js.number prev.rotatedAt.toInt < Js.number e.rotatedAt.toInt
  revision : Js.number prev.nextRevision.toNat < Js.number e.nextRevision.toNat

structure NodeAsks (address : String) (e : Pb.RotationEntry) : Prop where
  sizes : e.retiredX25519PublicKey.length = 32 ∧ e.nextX25519PublicKey.length = 32
  address_valid : validateAddress e.address = true
  rotatedAt : (Time.ofUnix e.rotatedAt).isZero = false
  address : Strings.equalFold rt.unicode e.address address = true

structure NodeAsksLink (prev e : Pb.RotationEntry) : Prop where
  later : (Time.ofUnix e.rotatedAt).after (Time.ofUnix prev.rotatedAt) = true
  revision : prev.nextRevision < e.nextRevision

structure SharedChain (chain : List Pb.RotationEntry) : Prop where
  entries : ∀ e ∈ chain, Shared rt e
  links : chain.IsChain (SharedLink rt)

structure BrowserAsksChain (address : String) (chain : List Pb.RotationEntry) : Prop where
  entries : ∀ e ∈ chain, BrowserAsks lower address e
  links : chain.IsChain BrowserAsksLink

structure NodeAsksChain (address : String) (chain : List Pb.RotationEntry) : Prop where
  entries : ∀ e ∈ chain, NodeAsks rt address e
  links : chain.IsChain NodeAsksLink

structure SharedRecord (pb : Pb.IdentityRecord) : Prop where
  chain : SharedChain rt pb.rotationChain
  length : pb.rotationChain.length ≤ 8
  lands : ∀ last, pb.rotationChain.getLast? = some last → last.nextEd25519PublicKey =
    pb.ed25519PublicKey

structure BrowserAsksRecord (pb : Pb.IdentityRecord) : Prop where
  chain : BrowserAsksChain lower pb.address pb.rotationChain
  lands : ∀ last, pb.rotationChain.getLast? = some last →
    last.nextX25519PublicKey = pb.x25519PublicKey ∧ Js.number last.nextRevision.toNat =
      Js.number pb.revision.toNat

structure NodeAsksRecord (pb : Pb.IdentityRecord) : Prop where
  decodes : (pb.recoveryEd25519PublicKey.length = 0 ∨ pb.recoveryEd25519PublicKey.length = 32) ∧
    validateForwardTo rt pb.address pb.forwardTo = true
  chain : NodeAsksChain rt pb.address pb.rotationChain
  lands : ∀ last, pb.rotationChain.getLast? = some last →
    (Fixed.copy 32 last.nextX25519PublicKey : Fixed 32) = Fixed.copy 32 pb.x25519PublicKey ∧
      last.nextRevision = pb.revision

structure SharedHistory (pb : Pb.AddressHistoryRecord) : Prop where
  chain : SharedChain rt pb.chain
  whole : ∀ first, pb.chain.head? = some first → first.prevSignatureHash = []

structure NodeAsksHistory (pb : Pb.AddressHistoryRecord) : Prop where
  address : validateAddress pb.address = true
  domain : Strings.equalFold rt.unicode pb.domain (domainOf pb.address) = true
  chain : NodeAsksChain rt pb.address pb.chain

end Definitions

variable {rt : Runtime} {lower : String → String}

theorem browser_verifyCtx (pub : Bytes) (ctx : Ctx) (body signature : Bytes) :
    VerifyRotation.verifyCtx (browser rt lower) pub ctx body signature =
      Dmcn.verifyCtx rt pub ctx body signature := by
  unfold VerifyRotation.verifyCtx Dmcn.verifyCtx
  change (!pub.isEmpty && !signature.isEmpty && Crypto.verify rt pub _ signature) = _
  by_cases hpub : pub = []
  · simp [hpub, Crypto.verify, Crypto.ed25519PublicKeySize]
  · by_cases hsig : signature = []
    · simp [hsig, Crypto.verify, Crypto.ed25519SignatureSize]
    · simp [hpub, hsig]

theorem isChain_and {α : Type} {R S : α → α → Prop} {l : List α} :
    l.IsChain (fun a b => R a b ∧ S a b) ↔ l.IsChain R ∧ l.IsChain S := by
  simp only [List.isChain_iff_forall_rel_of_append_cons_cons]
  constructor
  · intro h
    exact ⟨fun a b l₁ l₂ heq => (h heq).1, fun a b l₁ l₂ heq => (h heq).2⟩
  · rintro ⟨hR, hS⟩ a b l₁ l₂ heq
    exact ⟨hR heq, hS heq⟩

theorem int64_zero_iff {n : Int64} : n.toInt = 0 ↔ n = 0 := by
  rw [← Int64.toInt_inj]
  rfl

theorem uint64_zero_iff {n : UInt64} : (n.toNat : ℤ) = 0 ↔ n = 0 := by
  rw [← UInt64.toNat_inj, Int.natCast_eq_zero]
  rfl

theorem browser_device_iff {e : Pb.RotationEntry} : checkDevice (browser rt lower)
    (decodedEntry rt e) = .ok () ↔ (∀ cred, e.deviceCredential = some cred →
      Dmcn.verifyCtx rt cred.subject .identityRotationDevice (encodeRotationDeviceBytes rt e)
        e.deviceSignature = true) ∧
    (e.deviceCredential = none → e.deviceSignature = []) := by
  have hfields : (decodedEntry rt e).fields = e := rfl
  unfold checkDevice
  rw [hfields]
  cases e.deviceCredential with
  | none =>
    rw [require_eq_ok, List.isEmpty_iff]
    simp
  | some cred =>
    rw [require_eq_ok, browser_verifyCtx]
    simp [decodedEntry]

theorem browser_entry_iff {e : Pb.RotationEntry} :
    verifyRotationEntry (browser rt lower) (decodedEntry rt e) = .ok () ↔
      Shared rt e ∧ e.address ≠ "" ∧ e.rotatedAt ≠ 0 := by
  have hhash : ¬ (e.prevSignatureHash.length ≠ 0 ∧ e.prevSignatureHash.length ≠ 32) ↔
      e.prevSignatureHash.length = 0 ∨ e.prevSignatureHash.length = 32 := by
    rw [not_and_or, not_not, not_not]
  have hshape : checkShape e = .ok () ↔ e.version ≠ 0 ∧ e.address ≠ "" ∧
      (e.retiredEd25519PublicKey.length = 32 ∧ e.nextEd25519PublicKey.length = 32 ∧
        e.authorizingEd25519PublicKey.length = 32) ∧
      e.retiredEd25519PublicKey ≠ e.nextEd25519PublicKey ∧ e.retiredX25519PublicKey ≠
        e.nextX25519PublicKey ∧
      e.rotatedAt ≠ 0 ∧ e.nextRevision ≠ 0 ∧
        (e.prevSignatureHash.length = 0 ∨ e.prevSignatureHash.length = 32) := by
    simp only [checkShape, unit_bind, require_eq_ok, refuse_eq_ok]
    rw [hhash, Js.number_eq_zero, int64_zero_iff, Js.number_eq_zero, uint64_zero_iff]
    rfl
  simp only [verifyRotationEntry, unit_bind, require_eq_ok, browser_verifyCtx, browser_device_iff]
  change checkShape e = .ok () ∧ _ ↔ _
  rw [hshape]
  constructor
  · rintro ⟨⟨hversion, haddress, hkeys, hkey, hmailbox, hat, hrevision, hprev⟩, hconsent, hdevice,
      haccept⟩
    exact ⟨⟨hversion, hkeys, hkey, hmailbox, hrevision, hprev, hconsent, hdevice, haccept⟩,
      haddress, hat⟩
  · rintro ⟨h, haddress, hat⟩
    exact ⟨⟨h.version, haddress, h.keys, h.newKey, h.newMailboxKey, hat, h.revision, h.prevHash⟩,
      h.consent, h.device, h.acceptance⟩

theorem browser_link_iff {prev e : Pb.RotationEntry} :
    VerifyRotation.continues (browser rt lower) e prev = .ok () ↔ SharedLink rt prev e ∧
      BrowserAsksLink prev e := by
  simp only [VerifyRotation.continues, unit_bind, require_eq_ok, refuse_eq_ok, Int.not_le]
  constructor
  · rintro ⟨⟨hkey, hmailbox⟩, hhash, hlater, hrevision⟩
    exact ⟨⟨hkey, hmailbox, hhash⟩, hlater, hrevision⟩
  · rintro ⟨h, hasks⟩
    exact ⟨⟨h.key, h.mailboxKey⟩, h.hash, hasks.later, hasks.revision⟩

variable {address : String}

theorem browser_verifyLink_iff {prev : Option Pb.RotationEntry} {e : Pb.RotationEntry} :
    VerifyRotation.verifyLink (browser rt lower) address (prev.map (decodedEntry rt))
      (decodedEntry rt e) = .ok () ↔ (Shared rt e ∧ BrowserAsks lower address e) ∧
      ∀ p, prev = some p → SharedLink rt p e ∧ BrowserAsksLink p e := by
  have hasks : (Shared rt e ∧ e.address ≠ "" ∧ e.rotatedAt ≠ 0) ∧ lower e.address = lower address ↔
      Shared rt e ∧ BrowserAsks lower address e := by
    constructor
    · rintro ⟨⟨hshared, hne, hat⟩, haddress⟩
      exact ⟨hshared, hne, hat, haddress⟩
    · rintro ⟨hshared, h⟩
      exact ⟨⟨hshared, h.address_ne, h.rotatedAt⟩, h.address⟩
  unfold VerifyRotation.verifyLink
  rw [unit_bind, browser_entry_iff, unit_bind, require_eq_ok, ← and_assoc]
  refine and_congr hasks ?_
  cases prev with
  | none => exact iff_of_true rfl fun p hp => by cases hp
  | some p =>
    refine browser_link_iff.trans ⟨fun h p' hp' => ?_, fun h => h p rfl⟩
    rw [← Option.some.inj hp']
    exact h

theorem browser_linksAfter_iff (prev : Option Pb.RotationEntry) (chain : List Pb.RotationEntry) :
    VerifyRotation.verifyLinksAfter (browser rt lower) address (prev.map (decodedEntry rt))
      (chain.map (decodedEntry rt)) =
        .ok () ↔
      (∀ e ∈ chain, Shared rt e ∧ BrowserAsks lower address e) ∧
        (prev.toList ++ chain).IsChain fun a b => SharedLink rt a b ∧ BrowserAsksLink a b := by
  induction chain generalizing prev with
  | nil =>
    refine iff_of_true rfl ⟨fun e he => absurd he List.not_mem_nil, ?_⟩
    cases prev with
    | none => exact .nil
    | some p => exact .singleton p
  | cons e rest ih =>
    have hrest := ih (some e)
    rw [List.map_cons]
    simp only [VerifyRotation.verifyLinksAfter, unit_bind, browser_verifyLink_iff]
    change _ ∧ VerifyRotation.verifyLinksAfter _ _ ((some e).map (decodedEntry rt)) _ = _ ↔ _
    rw [hrest, List.forall_mem_cons]
    cases prev with
    | none =>
      simp only [Option.toList_none, Option.toList_some, List.nil_append, List.singleton_append]
      constructor
      · rintro ⟨⟨hfirst, -⟩, hentries, hchain⟩
        exact ⟨⟨hfirst, hentries⟩, hchain⟩
      · rintro ⟨⟨hfirst, hentries⟩, hchain⟩
        exact ⟨⟨hfirst, fun p hp => by cases hp⟩, hentries, hchain⟩
    | some p =>
      simp only [Option.toList_some, List.singleton_append, List.isChain_cons_cons]
      constructor
      · rintro ⟨⟨hfirst, hlink⟩, hentries, hchain⟩
        exact ⟨⟨hfirst, hentries⟩, hlink p rfl, hchain⟩
      · rintro ⟨⟨hfirst, hentries⟩, hlink, hchain⟩
        refine ⟨⟨hfirst, fun p' hp' => ?_⟩, hentries, hchain⟩
        rw [← Option.some.inj hp']
        exact hlink

theorem node_device_iff {e : RotationEntry} : e.checkDevice rt = .ok () ↔
    (∀ cred, e.toProto.deviceCredential = some cred →
      Dmcn.verifyCtx rt cred.subject .identityRotationDevice
      (encodeRotationDeviceBytes rt e.toProto) e.toProto.deviceSignature = true) ∧
    (e.toProto.deviceCredential = none → e.toProto.deviceSignature = []) := by
  have hcred : e.toProto.deviceCredential = e.deviceCredential.map Credential.toProto := rfl
  have hsig : e.toProto.deviceSignature = e.deviceSignature := rfl
  have hbytes : encodeRotationDeviceBytes rt e.toProto = e.deviceBytes rt := rfl
  unfold RotationEntry.checkDevice
  rw [hcred, hsig, hbytes]
  cases e.deviceCredential with
  | none => simp
  | some cred => simp [Credential.toProto]

theorem node_entry_iff {e : RotationEntry} : e.verify rt = .ok () ↔
    Shared rt e.toProto ∧ validateAddress e.address = true ∧ e.rotatedAt.isZero = false := by
  have hhash : ¬ (e.prevSignatureHash.length ≠ 0 ∧ e.prevSignatureHash.length ≠ sha256Size) ↔
      e.prevSignatureHash.length = 0 ∨ e.prevSignatureHash.length = 32 := by
    rw [not_and_or, not_not, not_not]
    rfl
  have hmailbox : e.retiredX25519Public = e.nextX25519Public ↔ e.retiredX25519Public.val =
      e.nextX25519Public.val :=
    ⟨congrArg Fixed.val, Fixed.ext⟩
  simp only [RotationEntry.verify, RotationEntry.checkShape, unit_bind, require_eq_ok, refuse_eq_ok,
    node_device_iff, hhash, Bool.not_eq_true]
  rw [hmailbox]
  constructor
  · rintro ⟨⟨hversion, haddress, hkeys, hkey, hnew, hat, hrevision, hprev⟩, hconsent, hdevice,
      haccept⟩
    exact ⟨⟨hversion, hkeys, hkey, hnew, hrevision, hprev, hconsent, hdevice, haccept⟩, haddress,
      hat⟩
  · rintro ⟨h, haddress, hat⟩
    exact ⟨⟨h.version, haddress, h.keys, h.newKey, h.newMailboxKey, hat, h.revision, h.prevHash⟩,
      h.consent, h.device, h.acceptance⟩

/-- An entry as it is read off a message: both mailbox keys have the size, and the second is a whole
one. -/
structure ReadFrom (pb : Pb.RotationEntry) (e : RotationEntry) : Prop where
  message : e.toProto = pb
  at' : e.rotatedAt = Time.ofUnix pb.rotatedAt

theorem node_link_iff {p e : Pb.RotationEntry} {p' e' : RotationEntry} (hp : ReadFrom p p')
    (he : ReadFrom e e') :
    e'.continues rt p' = .ok () ↔ SharedLink rt p e ∧ NodeAsksLink p e := by
  have hmailbox : e'.retiredX25519Public = p'.nextX25519Public ↔ e'.retiredX25519Public.val =
      p'.nextX25519Public.val :=
    ⟨congrArg Fixed.val, Fixed.ext⟩
  obtain ⟨rfl, hpat⟩ := hp
  obtain ⟨rfl, heat⟩ := he
  simp only [RotationEntry.continues, unit_bind, require_eq_ok, refuse_eq_ok, UInt64.not_le,
    hmailbox]
  constructor
  · rintro ⟨⟨hkey, hx⟩, hhash, hlater, hrevision⟩
    rw [hpat, heat] at hlater
    exact ⟨⟨hkey, hx, hhash⟩, hlater, hrevision⟩
  · rintro ⟨h, hasks⟩
    refine ⟨⟨h.key, h.mailboxKey⟩, h.hash, ?_, hasks.revision⟩
    rw [hpat, heat]
    exact hasks.later

variable {pb : Pb.RotationEntry}

theorem fromProto_iff :
    (∃ e, RotationEntry.fromProto pb = some e) ↔ pb.retiredX25519PublicKey.length = 32 ∧
      pb.nextX25519PublicKey.length = 32 := by
  unfold RotationEntry.fromProto
  split
  · next h => simp [h]
  · next hretired =>
    split
    · next h => simp [h]
    · next hnext => simp [not_not.mp hretired, not_not.mp hnext]

theorem readFrom_of_fromProto {e : RotationEntry} (h : RotationEntry.fromProto pb = some e)
    (hcred : ∀ cred, pb.deviceCredential = some cred →
      (Credential.fromProto cred).toProto = cred) : ReadFrom pb e := by
  obtain ⟨hretired, hnext⟩ := fromProto_iff.mp ⟨e, h⟩
  have hdevice : (pb.deviceCredential.map Credential.fromProto).map Credential.toProto =
      pb.deviceCredential := by
    cases hd : pb.deviceCredential with
    | none => rfl
    | some cred => exact congrArg some (hcred cred hd)
  rw [RotationEntry.fromProto, if_neg (not_not.mpr hretired), if_neg (not_not.mpr hnext)] at h
  rw [← Option.some.inj h]
  refine ⟨?_, rfl⟩
  unfold RotationEntry.toProto
  dsimp only
  rw [Fixed.val_copy_of_length hretired, Fixed.val_copy_of_length hnext, Time.unix_ofUnix, hdevice]

variable {es : List RotationEntry}

theorem rotationChainFromProto_cons {pbs : List Pb.RotationEntry} :
    rotationChainFromProto (pb :: pbs) = some es ↔
      ∃ e rest, RotationEntry.fromProto pb = some e ∧ rotationChainFromProto pbs = some rest ∧
      es = e :: rest := by
  unfold rotationChainFromProto
  rw [List.mapM_cons]
  constructor
  · intro h
    obtain ⟨e, he, h⟩ := Option.bind_eq_some_iff.mp h
    obtain ⟨rest, hrest, h⟩ := Option.bind_eq_some_iff.mp h
    exact ⟨e, rest, he, hrest, (Option.some.inj h).symm⟩
  · rintro ⟨e, rest, he, hrest, rfl⟩
    rw [he, Option.bind_eq_bind, Option.bind_some, hrest]
    rfl

theorem node_verifyLink_iff {prev : Option Pb.RotationEntry} {prev' : Option RotationEntry}
    {e : RotationEntry} (hprev : Option.Rel ReadFrom prev prev')
    (he : RotationEntry.fromProto pb = some e)
    (hcred : ∀ cred, pb.deviceCredential = some cred → (Credential.fromProto cred).toProto = cred) :
    Dmcn.verifyLink rt address prev' e = .ok () ↔
      (Shared rt pb ∧ NodeAsks rt address pb) ∧ ∀ p, prev = some p → SharedLink rt p pb ∧
      NodeAsksLink p pb := by
  have hread := readFrom_of_fromProto he hcred
  have hsizes := fromProto_iff.mp ⟨e, he⟩
  have haddress : e.address = pb.address := congrArg Pb.RotationEntry.address hread.message
  have hasks :
      (Shared rt e.toProto ∧ validateAddress e.address = true ∧ e.rotatedAt.isZero = false) ∧
      Strings.equalFold rt.unicode e.address address = true ↔ Shared rt pb ∧
        NodeAsks rt address pb := by
    rw [hread.message, hread.at', haddress]
    constructor
    · rintro ⟨⟨hshared, hvalid, hat⟩, hfold⟩
      exact ⟨hshared, hsizes, hvalid, hat, hfold⟩
    · rintro ⟨hshared, h⟩
      exact ⟨⟨hshared, h.address_valid, h.rotatedAt⟩, h.address⟩
  unfold Dmcn.verifyLink
  rw [unit_bind, node_entry_iff, unit_bind, require_eq_ok, ← and_assoc]
  refine and_congr hasks ?_
  cases hprev with
  | none => exact iff_of_true rfl fun p hp => by cases hp
  | @some p p' hp =>
    refine (node_link_iff hp hread).trans ⟨fun h q hq => ?_, fun h => h p rfl⟩
    rw [← Option.some.inj hq]
    exact h

variable {chain : List Pb.RotationEntry}

theorem node_linksAfter_iff {prev : Option Pb.RotationEntry} {prev' : Option RotationEntry}
    (hprev : Option.Rel ReadFrom prev prev') (hcreds : Reencodes chain) :
    (∃ es, rotationChainFromProto chain = some es ∧ Dmcn.verifyLinksAfter rt address prev' es =
      .ok ()) ↔
      (∀ e ∈ chain, Shared rt e ∧ NodeAsks rt address e) ∧
        (prev.toList ++ chain).IsChain fun a b => SharedLink rt a b ∧ NodeAsksLink a b := by
  induction chain generalizing prev prev' with
  | nil =>
    refine iff_of_true ⟨[], rfl, rfl⟩ ⟨fun e he => absurd he List.not_mem_nil, ?_⟩
    cases prev with
    | none => exact .nil
    | some p => exact .singleton p
  | cons pb rest ih =>
    have hcred := hcreds pb (List.mem_cons_self ..)
    have hrest : Reencodes rest := fun e he => hcreds e (List.mem_cons_of_mem _ he)
    have hsplit :
        (prev.toList ++ pb :: rest).IsChain (fun a b => SharedLink rt a b ∧ NodeAsksLink a b) ↔
        (∀ p, prev = some p → SharedLink rt p pb ∧ NodeAsksLink p pb) ∧
          (pb :: rest).IsChain fun a b => SharedLink rt a b ∧ NodeAsksLink a b := by
      cases prev with
      | none => simp
      | some p => simp [List.isChain_cons_cons]
    rw [hsplit, List.forall_mem_cons]
    constructor
    · rintro ⟨es, hes, hverify⟩
      obtain ⟨e, es', he, hes', rfl⟩ := rotationChainFromProto_cons.mp hes
      simp only [Dmcn.verifyLinksAfter, unit_bind] at hverify
      obtain ⟨hfirst, hlinks⟩ := (node_verifyLink_iff hprev he hcred).mp hverify.1
      have hread : Option.Rel ReadFrom (some pb) (some e) := .some (readFrom_of_fromProto he hcred)
      obtain ⟨hentries, hchain⟩ := (ih hread hrest).mp ⟨es', hes', hverify.2⟩
      exact ⟨⟨hfirst, hentries⟩, hlinks, hchain⟩
    · rintro ⟨⟨hfirst, hentries⟩, hlinks, hchain⟩
      obtain ⟨e, he⟩ := fromProto_iff.mpr hfirst.2.sizes
      have hread : Option.Rel ReadFrom (some pb) (some e) := .some (readFrom_of_fromProto he hcred)
      obtain ⟨es', hes', hverify⟩ := (ih hread hrest).mpr ⟨hentries, hchain⟩
      refine ⟨e :: es', rotationChainFromProto_cons.mpr ⟨e, es', he, hes', rfl⟩, ?_⟩
      simp only [Dmcn.verifyLinksAfter, unit_bind]
      exact ⟨(node_verifyLink_iff hprev he hcred).mpr ⟨hfirst, hlinks⟩, hverify⟩

theorem browser_chain_iff :
    VerifyRotation.verifyChainLinks (browser rt lower) (chain.map (decodedEntry rt)) address =
      .ok () ↔
      SharedChain rt chain ∧ BrowserAsksChain lower address chain := by
  refine (browser_linksAfter_iff none chain).trans ?_
  rw [Option.toList_none, List.nil_append, isChain_and]
  constructor
  · rintro ⟨hentries, hlinks, hasks⟩
    exact ⟨⟨fun e he => (hentries e he).1, hlinks⟩, fun e he => (hentries e he).2, hasks⟩
  · rintro ⟨hshared, hasks⟩
    exact ⟨fun e he => ⟨hshared.entries e he, hasks.entries e he⟩, hshared.links, hasks.links⟩

theorem node_chain_iff (hcreds : Reencodes chain) :
    (∃ es, rotationChainFromProto chain = some es ∧ Dmcn.verifyChainLinks rt es address = .ok ()) ↔
      SharedChain rt chain ∧ NodeAsksChain rt address chain := by
  refine (node_linksAfter_iff .none hcreds).trans ?_
  rw [Option.toList_none, List.nil_append, isChain_and]
  constructor
  · rintro ⟨hentries, hlinks, hasks⟩
    exact ⟨⟨fun e he => (hentries e he).1, hlinks⟩, fun e he => (hentries e he).2, hasks⟩
  · rintro ⟨hshared, hasks⟩
    exact ⟨fun e he => ⟨hshared.entries e he, hasks.entries e he⟩, hshared.links, hasks.links⟩

theorem browser_record_iff {pb : Pb.IdentityRecord} :
    verifyRecordChain (browser rt lower) (decodedRecord rt pb) = .ok () ↔ SharedRecord rt pb ∧
      BrowserAsksRecord lower pb := by
  have hlast : (decodedRecord rt pb).rotationChain.getLast? = pb.rotationChain.getLast?.map
      (decodedEntry rt) :=
    List.getLast?_map ..
  unfold verifyRecordChain
  rw [hlast]
  cases hempty : pb.rotationChain.getLast? with
  | none =>
    have hnil := List.getLast?_eq_none_iff.mp hempty
    refine iff_of_true rfl ⟨⟨⟨?_, ?_⟩, ?_, ?_⟩, ⟨⟨?_, ?_⟩, ?_⟩⟩
    all_goals first | rw [hempty] | rw [hnil]
    all_goals simp
  | some last =>
    simp only [Option.map_some, unit_bind, require_eq_ok, refuse_eq_ok, Nat.not_lt, gt_iff_lt]
    have hchain : VerifyRotation.verifyChainLinks (browser rt lower)
        (pb.rotationChain.map (decodedEntry rt)) pb.address =
        .ok () ↔ SharedChain rt pb.rotationChain ∧
          BrowserAsksChain lower pb.address pb.rotationChain := browser_chain_iff
    change (pb.rotationChain.map (decodedEntry rt)).length ≤ 8 ∧
      VerifyRotation.verifyChainLinks (browser rt lower)
      (pb.rotationChain.map (decodedEntry rt)) pb.address = .ok () ∧ _ ↔ _
    rw [List.length_map, hchain]
    constructor
    · rintro ⟨hlength, ⟨hshared, hasks⟩, ⟨hkey, hmailbox⟩, hrevision⟩
      refine ⟨⟨hshared, hlength, fun last' hlast' => ?_⟩, hasks, fun last' hlast' => ?_⟩
      · cases hempty.symm.trans hlast'
        exact hkey
      · cases hempty.symm.trans hlast'
        exact ⟨hmailbox, hrevision⟩
    · rintro ⟨hshared, hasks⟩
      exact ⟨hshared.length, ⟨hshared.chain, hasks.chain⟩,
        ⟨hshared.lands last hempty, (hasks.lands last hempty).1⟩, (hasks.lands last hempty).2⟩

theorem node_record_eq_ok {rec : IdentityRecord} : verifyRotationChain rt rec = .ok () ↔
    rec.rotationChain.length ≤ 8 ∧ Dmcn.verifyChainLinks rt rec.rotationChain rec.address = .ok () ∧
      ∀ last, rec.rotationChain.getLast? = some last → last.nextEd25519Public = rec.ed25519Public ∧
        last.nextX25519Public = rec.x25519Public ∧ last.nextRevision = rec.revision := by
  unfold verifyRotationChain
  cases hlast : rec.rotationChain.getLast? with
  | none =>
    rw [List.getLast?_eq_none_iff.mp hlast]
    exact iff_of_true rfl ⟨Nat.zero_le _, rfl, fun last h => by cases h⟩
  | some last =>
    simp only [unit_bind, require_eq_ok, refuse_eq_ok, Nat.not_lt, gt_iff_lt, Option.some.injEq,
      forall_eq', and_assoc]
    rfl

theorem readFrom_last (hcreds : Reencodes chain) (h : rotationChainFromProto chain = some es) :
    Option.Rel ReadFrom chain.getLast? es.getLast? ∧ es.length = chain.length := by
  induction chain generalizing es with
  | nil =>
    obtain rfl : [] = es := Option.some.inj h
    exact ⟨.none, rfl⟩
  | cons pb rest ih =>
    obtain ⟨e, es', he, hes', rfl⟩ := rotationChainFromProto_cons.mp h
    have hread := readFrom_of_fromProto he (hcreds pb (List.mem_cons_self ..))
    obtain ⟨hrest, hlength⟩ := ih (fun e' he' => hcreds e' (List.mem_cons_of_mem _ he')) hes'
    refine ⟨?_, by rw [List.length_cons, List.length_cons, hlength]⟩
    rw [List.getLast?_cons, List.getLast?_cons]
    generalize rest.getLast? = x at hrest
    generalize es'.getLast? = y at hrest
    cases hrest with
    | none => exact .some hread
    | some hlast => exact .some hlast

theorem landing_iff {pb : Pb.IdentityRecord} (hcreds : Reencodes pb.rotationChain)
    (h : rotationChainFromProto pb.rotationChain = some es) :
    (∀ e, es.getLast? = some e → e.nextEd25519Public = pb.ed25519PublicKey ∧
        e.nextX25519Public = Fixed.copy 32 pb.x25519PublicKey ∧ e.nextRevision = pb.revision) ↔
      ∀ last, pb.rotationChain.getLast? = some last → last.nextEd25519PublicKey =
      pb.ed25519PublicKey ∧
        (Fixed.copy 32 last.nextX25519PublicKey : Fixed 32) = Fixed.copy 32 pb.x25519PublicKey ∧
        last.nextRevision = pb.revision := by
  have hlast := (readFrom_last hcreds h).1
  generalize pb.rotationChain.getLast? = x at hlast
  generalize es.getLast? = y at hlast
  cases hlast with
  | none => exact iff_of_true (fun e he => by cases he) fun last hl => by cases hl
  | @some last e hread =>
    simp only [Option.some.injEq, forall_eq']
    rw [← hread.message]
    change _ ↔ e.nextEd25519Public = _ ∧ Fixed.copy 32 e.nextX25519Public.val = _ ∧
      e.nextRevision = _
    rw [Fixed.copy_val]

theorem node_record_iff {pb : Pb.IdentityRecord} (hcreds : Reencodes pb.rotationChain) :
    (∃ rec, IdentityRecord.fromProto rt pb = some rec ∧ verifyRotationChain rt rec = .ok ()) ↔
      SharedRecord rt pb ∧ NodeAsksRecord rt pb := by
  have hchain : (∃ es, rotationChainFromProto pb.rotationChain = some es ∧
    Dmcn.verifyChainLinks rt es pb.address = .ok ()) ↔
      SharedChain rt pb.rotationChain ∧ NodeAsksChain rt pb.address pb.rotationChain :=
        node_chain_iff hcreds
  constructor
  · rintro ⟨rec, hrec, hverify⟩
    obtain ⟨hrecovery, hforward, es, hes, rfl⟩ := IdentityRecord.fromProto_eq_some.mp hrec
    obtain ⟨hlength, hlinks, hlands⟩ := node_record_eq_ok.mp hverify
    obtain ⟨hshared, hasks⟩ := hchain.mp ⟨es, hes, hlinks⟩
    have hlanding := (landing_iff hcreds hes).mp hlands
    have hsame := (readFrom_last hcreds hes).2
    exact ⟨⟨hshared, hsame ▸ hlength, fun last hlast => (hlanding last hlast).1⟩,
      ⟨hrecovery, hforward⟩, hasks, fun last hlast => (hlanding last hlast).2⟩
  · rintro ⟨hshared, hasks⟩
    obtain ⟨es, hes, hlinks⟩ := hchain.mpr ⟨hshared.chain, hasks.chain⟩
    have hsame := (readFrom_last hcreds hes).2
    refine ⟨.ofMessage pb es,
      IdentityRecord.fromProto_eq_some.mpr ⟨hasks.decodes.1, hasks.decodes.2, es, hes, rfl⟩, ?_⟩
    refine node_record_eq_ok.mpr ⟨?_, hlinks, (landing_iff hcreds hes).mpr ?_⟩
    · change es.length ≤ 8
      rw [hsame]
      exact hshared.length
    · exact fun last hlast => ⟨hshared.lands last hlast, hasks.lands last hlast⟩

theorem whole_iff : VerifyRotation.chainTruncated
    (chain.map (decodedEntry rt)) = false ↔
    ∀ first, chain.head? = some first → first.prevSignatureHash = [] := by
  cases chain with
  | nil => exact iff_of_true rfl fun first h => by cases h
  | cons e rest => simp [VerifyRotation.chainTruncated, decodedEntry]

theorem browser_history_iff {pb : Pb.AddressHistoryRecord} :
    verifyHistory (browser rt lower) (decodedHistory rt pb) (decodedHistory rt pb).address =
      .ok () ↔
      SharedHistory rt pb ∧ BrowserAsksChain lower pb.address pb.chain := by
  have hchain : VerifyRotation.verifyChainLinks (browser rt lower) (pb.chain.map (decodedEntry rt))
      pb.address = .ok () ↔
      SharedChain rt pb.chain ∧ BrowserAsksChain lower pb.address pb.chain := browser_chain_iff
  simp only [verifyHistory, unit_bind, require_eq_ok, refuse_eq_ok, Bool.not_eq_true, true_and]
  change VerifyRotation.chainTruncated (pb.chain.map (decodedEntry rt)) = false ∧
    VerifyRotation.verifyChainLinks
    (browser rt lower) (pb.chain.map (decodedEntry rt)) pb.address = .ok () ↔ _
  rw [whole_iff, hchain]
  constructor
  · rintro ⟨hwhole, hshared, hasks⟩
    exact ⟨⟨hshared, hwhole⟩, hasks⟩
  · rintro ⟨hshared, hasks⟩
    exact ⟨hshared.whole, hshared.chain, hasks⟩

theorem node_whole_iff (hcreds : Reencodes chain) (h : rotationChainFromProto chain = some es) :
    Dmcn.chainTruncated es = false ↔
      ∀ first, chain.head? = some first → first.prevSignatureHash = [] := by
  cases chain with
  | nil =>
    obtain rfl : [] = es := Option.some.inj h
    exact iff_of_true rfl fun first hfirst => by cases hfirst
  | cons pb rest =>
    obtain ⟨e, es', he, -, rfl⟩ := rotationChainFromProto_cons.mp h
    have hread := readFrom_of_fromProto he (hcreds pb (List.mem_cons_self ..))
    rw [← hread.message]
    simp [Dmcn.chainTruncated, RotationEntry.toProto]

theorem node_history_iff {pb : Pb.AddressHistoryRecord} (hcreds : Reencodes pb.chain) :
    (∃ h, AddressHistoryRecord.fromProto pb = some h ∧ h.verify rt = .ok ()) ↔
      SharedHistory rt pb ∧ NodeAsksHistory rt pb := by
  have hchain : (∃ es, rotationChainFromProto pb.chain = some es ∧
    Dmcn.verifyChainLinks rt es pb.address = .ok ()) ↔
      SharedChain rt pb.chain ∧ NodeAsksChain rt pb.address pb.chain := node_chain_iff hcreds
  constructor
  · rintro ⟨h, hh, hverify⟩
    obtain ⟨es, hes, rfl⟩ := Option.map_eq_some_iff.mp hh
    obtain ⟨hvalid, hdomain, hwhole, hlinks⟩ := AddressHistoryRecord.verify_eq_ok.mp hverify
    obtain ⟨hshared, hasks⟩ := hchain.mp ⟨es, hes, hlinks⟩
    exact ⟨⟨hshared, (node_whole_iff hcreds hes).mp hwhole⟩, hvalid, hdomain, hasks⟩
  · rintro ⟨hshared, hasks⟩
    obtain ⟨es, hes, hlinks⟩ := hchain.mpr ⟨hshared.chain, hasks.chain⟩
    refine ⟨⟨pb.version, pb.domain, pb.address, es⟩, Option.map_eq_some_iff.mpr ⟨es, hes, rfl⟩, ?_⟩
    exact AddressHistoryRecord.verify_eq_ok.mpr
      ⟨hasks.address, hasks.domain, (node_whole_iff hcreds hes).mpr hshared.whole,
      hlinks⟩

theorem verdicts_agree_iff {p q shared asks asks' : Prop} (hp : p ↔ shared ∧ asks)
    (hq : q ↔ shared ∧ asks') :
    (p ↔ q) ↔ (shared → (asks ↔ asks')) := by
  rw [hp, hq]
  exact ⟨fun h hshared => by simpa [hshared] using h, fun h => and_congr_right h⟩

variable (lower) in
/-- Where the two libraries read the same message, the browser and the node take the same record,
and the same history, exactly when one of the checks that they share fails or what they ask for
besides comes to the same. -/
theorem chains_agree_iff {decode : WireDecoders} {record history : Bytes}
    (hrecord : RecordAlike rt decode record) (hhistory : HistoryAlike rt decode history) :
    ((BrowserTakesRecord rt lower decode record ↔ NodeTakesRecord rt record) ↔
      ∀ pb, rt.identityRecord.unmarshal record = some pb → SharedRecord rt pb →
        (BrowserAsksRecord lower pb ↔ NodeAsksRecord rt pb)) ∧
    ((BrowserTakesHistory rt lower decode history ↔ NodeTakesHistory rt history) ↔
      ∀ pb, rt.addressHistoryRecord.unmarshal history = some pb → SharedHistory rt pb →
        (BrowserAsksChain lower pb.address pb.chain ↔ NodeAsksHistory rt pb)) := by
  constructor
  · unfold BrowserTakesRecord NodeTakesRecord IdentityRecord.fromProtoBytes
    rw [hrecord.same]
    cases hpb : rt.identityRecord.unmarshal record with
    | none => simp
    | some pb =>
      simpa using verdicts_agree_iff browser_record_iff (node_record_iff (hrecord.chain pb hpb))
  · unfold BrowserTakesHistory NodeTakesHistory
    rw [hhistory.same]
    cases hpb : rt.addressHistoryRecord.unmarshal history with
    | none => simp
    | some pb =>
      simpa using verdicts_agree_iff browser_history_iff (node_history_iff (hhistory.chain pb hpb))

/-! A record of the account of `Aliased` with one rotation, at a second that is given. -/
namespace Dated

open Aliased

def entry (rotatedAt : Int64) : Pb.RotationEntry :=
  ⟨1, account, keyOf 2, keyOf 2, keyOf 3, keyOf 3, rotatedAt, 2, [], keyOf 2, none, [],
    keyOf 2 ++ keyOf 2, keyOf 3 ++ keyOf 3⟩

def record (rotatedAt : Int64) : Pb.IdentityRecord :=
  { plainRecord account 3 with x25519PublicKey := keyOf 3, revision := 2, rotationChain :=
    [entry rotatedAt] }

noncomputable def decode : WireDecoders where
  identityRecord data := (rt₁.identityRecord.unmarshal data).map (decodedRecord rt₁)
  addressHistory data := (rt₁.addressHistoryRecord.unmarshal data).map (decodedHistory rt₁)

def history (rotatedAt : Int64) : Pb.AddressHistoryRecord :=
  ⟨1, "example.org", account, [entry rotatedAt]⟩

noncomputable def wire (rotatedAt : Int64) : Bytes := rt₁.identityRecord.marshal (record rotatedAt)

noncomputable def historyWire (rotatedAt : Int64) : Bytes :=
  rt₁.addressHistoryRecord.marshal (history rotatedAt)

theorem unmarshal_wire (rotatedAt : Int64) : rt₁.identityRecord.unmarshal (wire rotatedAt) = some
    (record rotatedAt) :=
  Codec.unmarshal_marshal ..

theorem reencodes (rotatedAt : Int64) : Reencodes [entry rotatedAt] := by
  intro e he cred hcred
  rw [List.mem_singleton.mp he] at hcred
  cases hcred

theorem recordAlike (rotatedAt : Int64) : RecordAlike rt₁ decode (wire rotatedAt) where
  same := rfl
  chain := by
    intro pb hpb
    rw [← Option.some.inj ((unmarshal_wire rotatedAt).symm.trans hpb)]
    exact reencodes rotatedAt

theorem historyAlike (rotatedAt : Int64) : HistoryAlike rt₁ decode (historyWire rotatedAt) where
  same := rfl
  chain := by
    intro pb hpb
    rw [← Option.some.inj ((Codec.unmarshal_marshal ..).symm.trans hpb)]
    exact reencodes rotatedAt

theorem sharedChain (rotatedAt : Int64) : SharedChain rt₁ [entry rotatedAt] := by
  refine ⟨fun e he => ?_, .singleton _⟩
  rw [List.mem_singleton.mp he]
  refine ⟨show (1 : UInt32) ≠
    0 by decide, show _ ∧ _ ∧ _ from ⟨length_keyOf 2, length_keyOf 3, length_keyOf 2⟩,
    show keyOf 2 ≠ keyOf 3 by
      decide, show keyOf 2 ≠ keyOf 3 by decide, show (2 : UInt64) ≠ 0 by decide, .inl rfl,
    verify_twice 2 _, ⟨fun cred hcred => (by cases hcred), fun _ => rfl⟩, verify_twice 3 _⟩

theorem shared (rotatedAt : Int64) : SharedRecord rt₁ (record rotatedAt) := by
  refine ⟨sharedChain rotatedAt, Nat.le_of_ble_eq_true rfl, fun last hlast => ?_⟩
  rw [← Option.some.inj hlast]
  rfl

theorem nodeAsksChain {rotatedAt : Int64} (h : (Time.ofUnix rotatedAt).isZero = false) :
    NodeAsksChain rt₁ account [entry rotatedAt] := by
  refine ⟨fun e he => ?_, .singleton _⟩
  rw [List.mem_singleton.mp he]
  exact ⟨⟨length_keyOf 2, length_keyOf 3⟩, show validateAddress account =
    true by decide, h, Strings.equalFold_refl _⟩

theorem nodeAsks {rotatedAt : Int64} (h : (Time.ofUnix rotatedAt).isZero = false) :
    NodeAsksRecord rt₁ (record rotatedAt) := by
  refine ⟨⟨.inl rfl, rfl⟩, nodeAsksChain h, fun last hlast => ?_⟩
  rw [← Option.some.inj hlast]
  exact ⟨rfl, rfl⟩

theorem browserAsksChain_iff {lower : String → String} {rotatedAt : Int64} :
    BrowserAsksChain lower account [entry rotatedAt] ↔ rotatedAt ≠ 0 := by
  constructor
  · intro h
    exact (h.entries _ (List.mem_singleton.mpr rfl)).rotatedAt
  · intro h
    refine ⟨fun e he => ?_, .singleton _⟩
    rw [List.mem_singleton.mp he]
    exact ⟨show account ≠ "" by decide, h, rfl⟩

theorem browserAsks_iff {lower : String → String} {rotatedAt : Int64} :
    BrowserAsksRecord lower (record rotatedAt) ↔ rotatedAt ≠ 0 := by
  refine ⟨fun h => browserAsksChain_iff.mp h.chain, fun h =>
    ⟨browserAsksChain_iff.mpr h, fun last hlast => ?_⟩⟩
  rw [← Option.some.inj hlast]
  exact ⟨rfl, rfl⟩

/-- A rotation at second zero is taken by the node and not by the browser, though both read the same
message. -/
theorem node_alone_takes : RecordAlike rt₁ decode (wire 0) ∧ NodeTakesRecord rt₁ (wire 0) ∧
    ∀ lower, ¬ BrowserTakesRecord rt₁ lower decode (wire 0) := by
  refine ⟨recordAlike 0, ?_, ?_⟩
  · obtain ⟨rec, hrec, hverify⟩ :=
      (node_record_iff (reencodes 0)).mpr ⟨shared 0, nodeAsks (by decide)⟩
    refine ⟨rec, ?_, hverify⟩
    rw [IdentityRecord.fromProtoBytes, unmarshal_wire]
    exact hrec
  · rintro lower ⟨rec, hrec, hverify⟩
    have hdecoded : decode.identityRecord (wire 0) = some (decodedRecord rt₁ (record 0)) :=
      congrArg (Option.map (decodedRecord rt₁)) (unmarshal_wire 0)
    obtain rfl := Option.some.inj (hdecoded.symm.trans hrec)
    exact browserAsks_iff.mp (browser_record_iff.mp hverify).2 rfl

/-- A hundred seconds later they agree, on the record and on the history. -/
theorem taken_alike :
    (BrowserTakesRecord rt₁ id decode (wire 100) ↔ NodeTakesRecord rt₁ (wire 100)) ∧
    (BrowserTakesHistory rt₁ id decode (historyWire 100) ↔
      NodeTakesHistory rt₁ (historyWire 100)) := by
  obtain ⟨hrecord, hhistory⟩ := chains_agree_iff id (recordAlike 100) (historyAlike 100)
  refine ⟨hrecord.mpr fun pb hpb _ => ?_, hhistory.mpr fun pb hpb _ => ?_⟩
  · rw [← Option.some.inj ((unmarshal_wire 100).symm.trans hpb)]
    exact iff_of_true (browserAsks_iff.mpr (by decide)) (nodeAsks (by decide))
  · rw [← Option.some.inj ((Codec.unmarshal_marshal ..).symm.trans hpb)]
    refine iff_of_true (browserAsksChain_iff.mpr (by decide)) ⟨?_, ?_, nodeAsksChain (by decide)⟩
    · exact show validateAddress account = true by decide
    · have hdomain : domainOf account = "example.org" := by decide
      change Strings.equalFold _ "example.org" (domainOf account) = true
      rw [hdomain]
      exact Strings.equalFold_refl _

end Dated

end Dmcn.Web.Chains
