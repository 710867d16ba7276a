import OpenDmcn.Relay.History
import OpenDmcn.Relay.Resign
import OpenDmcn.Web.SignRotation

/-! What a node makes of a rotation that the browser has signed. The entry and the record are those
of the Go producer, and the history goes on from the one held; one device credential is put into the
entries of all the addresses that are re-keyed, while a node asks of each that it be for the address
itself. -/

namespace Dmcn.Web.Rekeying

open Go Guard RecordStore

variable {rt : Runtime} {anchor : DarAnchor} {inputs : SigningInputs} {next : IdentityKeyPair}
  {rotatedAt : ℤ}

structure Signers (rt : Runtime) (inputs : SigningInputs) (next : IdentityKeyPair)
    (cred : Credential) (devicePriv : Bytes) :
    Prop where
  device : inputs.device.sign = rt.ed25519Sign devicePriv
  credential : inputs.deviceCredential = rt.credential.marshal cred.toProto
  decoded : Credential.fromProto cred.toProto = cred
  subject : AddressRemovalRecord.SignsFor rt devicePriv cred.subject
  outgoing : AddressRemovalRecord.SignsFor rt inputs.current.seed inputs.current.ed25519Public
  incoming : AddressRemovalRecord.SignsFor rt next.seed next.ed25519Public
  mailboxKey : next.x25519Public.length = 32
  newKey : inputs.current.ed25519Public ≠ next.ed25519Public
  newMailboxKey : inputs.current.x25519Public ≠ next.x25519Public

def heldHistory (rt : Runtime) (rs : RecordStore) (a : String) : List RotationEntry :=
  (rs.getHistory rt a).elim [] AddressHistoryRecord.chain

/-- The node holds the record of the address and all its history, and the browser has read both
there. -/
structure Holds (rt : Runtime) (r : Relay) (current : IdentityKeyPair) (sib : SiblingInput)
    (rec : IdentityRecord) : Prop where
  held : r.records.getIdentity rt sib.address = some rec
  address : validateAddress sib.address = true
  key : rec.ed25519Public = current.ed25519Public
  mailboxKey : rec.x25519Public.val = current.x25519Public
  state : sib.record = .of rec.toProto
  history : sib.priorHistory = (heldHistory rt r.records sib.address).map RotationEntry.toProto
  complete : rec.rotationChain = retained (heldHistory rt r.records sib.address)
  lands : ∀ last, rec.rotationChain.getLast? = some last →
    last.nextEd25519Public = rec.ed25519Public ∧ last.nextX25519Public = rec.x25519Public ∧
      last.nextRevision ≤ rec.revision
  revision : rec.revision.toNat < 2 ^ 53
  createdAt : rec.createdAt.unix.toInt.natAbs < 2 ^ 53
  expiresAt : (unixOrZero rec.expiresAt).toInt.natAbs < 2 ^ 53

def second (rotatedAt : ℤ) : Time := .ofUnix (Int64.ofInt rotatedAt)

structure Clock (rotatedAt : ℤ) (rec : IdentityRecord) : Prop where
  sane : 0 ≤ rotatedAt ∧ rotatedAt < 2 ^ 53
  later : ∀ last, rec.rotationChain.getLast? = some last → (second rotatedAt).after last.rotatedAt =
    true

/-- What the domain asks of a rotation and of the device, other than that it be enrolled for the
address. -/
structure DomainRule (rt : Runtime) (dar : DomainAuthorityRecord) (cred : Credential)
    (rotatedAt : ℤ) (now : Time) : Prop where
  allowed : dar.allowKeyRotation = true
  role : cred.hasRole roleDevice = true
  chain : verifyCredential rt cred (some dar) none (second rotatedAt) = .ok ()
  notAhead : (second rotatedAt).sub now ≤ rotationSkew
  tenure : dar.rotationMinDeviceAge ≤ (second rotatedAt).sub cred.issuedAt

def inherited (rec : IdentityRecord) : Pb.IdentityRecord :=
  { rec.core with ed25519PublicKey := [], x25519PublicKey := [], revision := 0, rotationChain :=
    [] }

/-- What is published of an address passes the node's checks of a rotation, and of a history once
the record is stored; it carries on what the owner had signed. -/
structure Accepts (rt : Runtime) (r : Relay) (now : Time) (s : RotatedSibling)
    (rec sent : IdentityRecord) (dar : DomainAuthorityRecord) (last : RotationEntry) : Prop where
  held : r.records.getIdentity rt s.address = some rec
  authority : r.records.getDAR rt (domainOf s.address) = some dar
  read : IdentityRecord.fromProtoBytes rt s.record = some sent
  ends : sent.rotationChain.getLast? = some last
  rotation : authorizeOwnerRotation rt rec sent last (r.records.storedRemoval rt dar s.address) dar
    now = .ok .ownerRotation
  history : ∃ rs, acceptHistory rt (r.records.putIdentity rt sent) s.history = .ok rs
  inherits : inherited sent = inherited rec

def Admitted (rt : Runtime) (r : Relay) (now : Time) (s : RotatedSibling) : Prop :=
  ∃ rec sent dar last, Accepts rt r now s rec sent dar last

/-- All that the rotation of an address needs, other than that the device be enrolled for the
address. -/
structure Prepared (rt : Runtime) (r : Relay) (inputs : SigningInputs) (next : IdentityKeyPair)
    (rotatedAt : ℤ) (cred : Credential) (now : Time) (sib : SiblingInput) (rec : IdentityRecord)
    (dar : DomainAuthorityRecord) : Prop where
  holds : Holds rt r inputs.current sib rec
  clock : Clock rotatedAt rec
  authority : r.records.getDAR rt (domainOf sib.address) = some dar
  rule : DomainRule rt dar cred rotatedAt now
  fresh : ∀ rm, r.records.storedRemoval rt dar sib.address = some rm → next.ed25519Public ∉ rm.keys

def rotation (inputs : SigningInputs) (next : IdentityKeyPair) (rotatedAt : ℤ) (cred : Credential)
    (devicePriv : Bytes) (rec : IdentityRecord) : Rotation where
  next := ⟨next.ed25519Public, next.seed, Fixed.copy 32 next.x25519Public⟩
  nextRevision := rec.revision + 1
  at_ := second rotatedAt
  consent := ⟨inputs.current.ed25519Public, inputs.current.seed, rec.x25519Public⟩
  device := some (cred, devicePriv)

theorem int64_number {n : Int64} (h : n.toInt.natAbs < 2 ^ 53) : Int64.ofInt
    (Js.number n.toInt) = n := by
  rw [Js.number_of_lt h, Int64.ofInt_toInt]

theorem revision_number {n : UInt64} (h : n.toNat < 2 ^ 53) :
    UInt64.ofNat (Js.number (Js.number n.toNat + 1)).toNat = n + 1 := by
  have hfirst : Js.number (n.toNat : ℤ) = n.toNat := Js.number_of_lt (by omega)
  have hnext : Js.number ((n.toNat : ℤ) + 1) = (n.toNat : ℤ) + 1 := Js.number_of_le (by omega)
  have hcast : ((n.toNat : ℤ) + 1).toNat = n.toNat + 1 := by omega
  rw [hfirst, hnext, hcast]
  apply UInt64.toNat_inj.mp
  rw [UInt64.toNat_ofNat', UInt64.toNat_add]
  rfl

theorem succ_revision {n : UInt64} (h : n.toNat < 2 ^ 53) : n < n + 1 := by
  rw [UInt64.lt_iff_toNat_lt, UInt64.toNat_add]
  change n.toNat < (n.toNat + 1) % 2 ^ 64
  omega

theorem signEntry_toProto {devicePriv : Bytes}
    (hdevice : inputs.device.sign = rt.ed25519Sign devicePriv) (e : RotationEntry) :
    let attested :=
  { e with deviceSignature := signCtx rt devicePriv .identityRotationDevice (e.deviceBytes rt) }
    let consented := { attested with
      signature := signCtx rt inputs.current.seed .identityRotation (attested.consentBytes rt) }
    signEntry rt inputs next e.toProto =
      ({ consented with
        nextSignature := signCtx rt next.seed .identityRotationAccept (consented.acceptBytes rt) } :
          RotationEntry).toProto := by
  unfold signEntry
  rw [hdevice]
  rfl

variable (rotatedAt) in
theorem Holds.ready {r : Relay} {cred : Credential} {devicePriv : Bytes} {sib : SiblingInput}
    {rec : IdentityRecord} (hsigners : Signers rt inputs next cred devicePriv)
    (h : Holds rt r inputs.current sib rec) :
    (rotation inputs next rotatedAt cred devicePriv rec).Ready rt rec := by
  refine ⟨hsigners.incoming, hsigners.outgoing, ?_, ?_, ?_⟩
  · intro cred' priv hdevice
    cases hdevice
    exact hsigners.subject
  · rw [h.key]
    exact hsigners.newKey
  · intro hsame
    have hval := congrArg Fixed.val hsame
    rw [h.mailboxKey] at hval
    exact hsigners.newMailboxKey (hval.trans (Fixed.val_copy_of_length hsigners.mailboxKey))

variable (rotatedAt) in
theorem Holds.entry {r : Relay} {cred : Credential} {devicePriv : Bytes} {sib : SiblingInput}
    {rec : IdentityRecord} (hsigners : Signers rt inputs next cred devicePriv)
    (hfiled : Filed rt r.records) (h : Holds rt r inputs.current sib rec) :
    ∃ e, buildRotation rt rec (rotation inputs next rotatedAt cred devicePriv rec) = .ok e ∧
      (rekey rt inputs next rotatedAt cred.toProto sib.address sib.record).1 = e.toProto := by
  obtain ⟨e, hbuild⟩ := exists_buildRotation (h.ready rotatedAt hsigners) (succ_revision h.revision)
  refine ⟨e, hbuild, ?_⟩
  simp only [buildRotation, newRotationEntry, attestDevice, rotation, RotationEntry.signDevice,
    RotationEntry.signConsent, RotationEntry.signAcceptance, bind_eq_ok, refuse_eq_ok, pure_eq_ok]
      at hbuild
  obtain ⟨e₀, ⟨-, -, rfl⟩, e₁, ⟨-, -, rfl⟩, e₂, ⟨-, -, rfl⟩, -, -, rfl⟩ := hbuild
  have haddress := (hfiled.identity sib.address rec h.held).1
  have hunsigned : unsignedEntry rt inputs next rotatedAt cred.toProto sib.address sib.record =
      ({ version := 1
         address := rec.address
         retiredEd25519Public := rec.ed25519Public
         retiredX25519Public := rec.x25519Public
         nextEd25519Public := next.ed25519Public
         nextX25519Public := Fixed.copy 32 next.x25519Public
         rotatedAt := second rotatedAt
         nextRevision := rec.revision + 1
         prevSignatureHash := rec.rotationChain.getLast?.elim [] fun last =>
           rt.sha256 last.signature
         authorizingEd25519Public := inputs.current.ed25519Public
         deviceCredential := some cred
         deviceSignature := []
         signature := []
         nextSignature := [] } : RotationEntry).toProto := by
    have hlast : sib.record.rotationChain.getLast?.elim [] (fun last => rt.sha256 last.signature) =
        rec.rotationChain.getLast?.elim [] fun last => rt.sha256 last.signature := by
      rw [h.state]
      change (rec.rotationChain.map RotationEntry.toProto).getLast?.elim [] _ = _
      rw [List.getLast?_map]
      cases rec.rotationChain.getLast? with
      | none => rfl
      | some last => rfl
    have hrevision : UInt64.ofNat (Js.number (sib.record.revision + 1)).toNat = rec.revision +
        1 := by
      rw [h.state]
      exact revision_number h.revision
    have hnext : (Fixed.copy 32 next.x25519Public).val = next.x25519Public :=
      Fixed.val_copy_of_length hsigners.mailboxKey
    have htime : (second rotatedAt).unix = Int64.ofInt rotatedAt := Time.unix_ofUnix _
    unfold unsignedEntry RotationEntry.toProto
    rw [hlast, hrevision, hnext, htime, h.key, h.mailboxKey, haddress]
    rfl
  unfold rekey
  dsimp only
  rw [hunsigned]
  exact signEntry_toProto hsigners.device _

def successor (rt : Runtime) (next : IdentityKeyPair) (rec : IdentityRecord) (e : RotationEntry) :
    IdentityRecord :=
  let unsigned := { rec with
    ed25519Public := next.ed25519Public, x25519Public :=
      Fixed.copy 32 next.x25519Public, relayHints := []
    addressCredential := none, routingCredential := none, operatorCredentials := [], revision :=
      rec.revision + 1
    rotationChain := appendRotation rec e }
  { unsigned with
    selfSignature :=
      Fixed.copy 64 (signCtx rt next.seed .identitySelf (unsigned.signableBytes rt)) }

theorem Holds.unsignedRecord {r : Relay} {cred : Credential} {devicePriv : Bytes}
    {sib : SiblingInput} {rec : IdentityRecord} (hsigners : Signers rt inputs next cred devicePriv)
    (hfiled : Filed rt r.records) (h : Holds rt r inputs.current sib rec) (e : RotationEntry) :
    unsignedRecord next sib.address sib.record e.toProto = (successor rt next rec e).core := by
  have haddress := (hfiled.identity sib.address rec h.held).1
  have hnext : (Fixed.copy 32 next.x25519Public).val = next.x25519Public :=
    Fixed.val_copy_of_length hsigners.mailboxKey
  have hrevision : UInt64.ofNat (Js.number (sib.record.revision + 1)).toNat = rec.revision + 1 := by
    rw [h.state]
    exact revision_number h.revision
  have hcreated : Int64.ofInt sib.record.createdAt = rec.createdAt.unix := by
    rw [h.state]
    exact int64_number h.createdAt
  have hexpires : Int64.ofInt sib.record.expiresAt = unixOrZero rec.expiresAt := by
    rw [h.state]
    exact int64_number h.expiresAt
  have hchain : (sib.record.rotationChain ++ [e.toProto]).rtake VerifyRotation.maxRotationChain =
      (appendRotation rec e).map RotationEntry.toProto := by
    have hmap : sib.record.rotationChain ++ [e.toProto] = (rec.rotationChain ++ [e]).map
        RotationEntry.toProto := by
      rw [h.state, List.map_append]
      rfl
    rw [hmap, appendRotation_eq_rtake, List.rtake, List.rtake, List.map_drop, List.length_map]
    rfl
  unfold Rekeying.unsignedRecord
  rw [hrevision, hcreated, hexpires, hchain, h.state, ← haddress]
  change _ = ({ (successor rt next rec e).toProto with
    relayHints := [], selfSignature := [], addressCredential := none, routingCredential := none
    operatorCredentials := [] } : Pb.IdentityRecord)
  unfold successor IdentityRecord.toProto
  dsimp only
  rw [hnext]
  rfl

theorem Holds.signRecord {r : Relay} {cred : Credential} {devicePriv : Bytes} {sib : SiblingInput}
    {rec : IdentityRecord} (hsigners : Signers rt inputs next cred devicePriv)
    (hfiled : Filed rt r.records) (h : Holds rt r inputs.current sib rec) (e : RotationEntry) :
    signRecord rt next (Rekeying.unsignedRecord next sib.address sib.record e.toProto) =
      (successor rt next rec e).toProto := by
  have hsize := (length_of_signsFor hsigners.incoming).2
  rw [h.unsignedRecord hsigners hfiled]
  unfold Rekeying.signRecord
  have hbytes : encodeIdentitySignableBytes rt (successor rt next rec e).core =
      (successor rt next rec e).signableBytes rt := rfl
  rw [hbytes]
  have hsig : (successor rt next rec e).selfSignature.val =
      rt.ed25519Sign next.seed
        (Ctx.identitySelf.tag ++ (successor rt next rec e).signableBytes rt) := by
    unfold successor
    dsimp only
    rw [signCtx, Fixed.val_copy_of_length (hsize _)]
    rfl
  rw [← hsig]
  rfl

theorem installs_successor {cred : Credential} {devicePriv : Bytes} {rec : IdentityRecord}
    (e : RotationEntry) :
    Installs rec (rotation inputs next rotatedAt cred devicePriv rec) e (successor rt next rec e) :=
  ⟨rfl, rfl, rfl, rfl, rfl⟩

theorem Holds.sent {r : Relay} {cred : Credential} {devicePriv : Bytes} {sib : SiblingInput}
    {rec : IdentityRecord} (hsigners : Signers rt inputs next cred devicePriv)
    (hfiled : Filed rt r.records) (h : Holds rt r inputs.current sib rec) {e : RotationEntry}
    (he : (rekey rt inputs next rotatedAt cred.toProto sib.address sib.record).1 = e.toProto) :
    ∃ sent, IdentityRecord.fromProtoBytes rt
      (rekey rt inputs next rotatedAt cred.toProto sib.address sib.record).2 = some sent ∧
      IdentityRecord.fromProtoBytes rt
      (rt.identityRecord.marshal (successor rt next rec e).toProto) = some sent := by
  have hbytes : (rekey rt inputs next rotatedAt cred.toProto sib.address sib.record).2 =
      rt.identityRecord.marshalDeterministic (successor rt next rec e).toProto := by
    rw [← h.signRecord hsigners hfiled e, ← he]
    rfl
  obtain ⟨data, -, hparsed⟩ := Option.bind_eq_some_iff.mp h.held
  obtain ⟨pb, -, hpb⟩ := Option.bind_eq_some_iff.mp hparsed
  obtain ⟨hrecovery, hforward, chain, -, hrec⟩ := IdentityRecord.fromProto_eq_some.mp hpb
  have hread : ∃ sent, IdentityRecord.fromProto rt (successor rt next rec e).toProto =
      some sent := by
    refine ⟨_, IdentityRecord.fromProto_eq_some.mpr ⟨?_, ?_, _, rotationChainFromProto_eq_reread _,
      rfl⟩⟩
    · rw [← hrec]
      exact hrecovery
    · rw [← hrec]
      exact hforward
  obtain ⟨sent, hsent⟩ := hread
  refine ⟨sent, ?_, ?_⟩
  · unfold IdentityRecord.fromProtoBytes
    rw [hbytes, Codec.unmarshal_deterministic, Option.bind_some, hsent]
  · unfold IdentityRecord.fromProtoBytes
    rw [Codec.unmarshal_marshal, Option.bind_some, hsent]

theorem inherited_sent {rec sent : IdentityRecord} {e : RotationEntry}
    (hsent : IdentityRecord.fromProtoBytes rt
      (rt.identityRecord.marshal (successor rt next rec e).toProto) = some sent)
    {data : Bytes} (hrec : IdentityRecord.fromProtoBytes rt data = some rec) :
    inherited sent = inherited rec := by
  unfold IdentityRecord.fromProtoBytes at hsent hrec
  rw [Codec.unmarshal_marshal, Option.bind_some] at hsent
  obtain ⟨-, -, chain, -, rfl⟩ := IdentityRecord.fromProto_eq_some.mp hsent
  obtain ⟨pb, -, hpb⟩ := Option.bind_eq_some_iff.mp hrec
  obtain ⟨-, -, chain', -, rfl⟩ := IdentityRecord.fromProto_eq_some.mp hpb
  simp [inherited, IdentityRecord.core, IdentityRecord.toProto, IdentityRecord.ofMessage, successor,
    unixOrZero_timeOrZero]

theorem Clock.later_reread {rec : IdentityRecord} {data : Bytes} (h : Clock rotatedAt rec)
    (hread : IdentityRecord.fromProtoBytes rt data = some rec) (last : RotationEntry)
    (hlast : rec.rotationChain.getLast? = some last) :
    (second rotatedAt).wholeSecond.after last.rotatedAt.wholeSecond = true := by
  have hsame :=
    List.map_inj_left.mp ((reread_of_fromProtoBytes hread).trans (List.map_id _).symm) last
    (List.mem_of_getLast? hlast)
  have hsecond : last.rotatedAt.wholeSecond = last.rotatedAt :=
    congrArg RotationEntry.rotatedAt hsame
  have hat : (second rotatedAt).wholeSecond = second rotatedAt := Time.wholeSecond_ofUnix _
  rw [hsecond, hat]
  exact h.later last hlast

theorem second_isZero (h : 0 ≤ rotatedAt ∧ rotatedAt < 2 ^ 53) :
    (second rotatedAt).wholeSecond.isZero = false := by
  rw [second, Time.wholeSecond_ofUnix, Bool.eq_false_iff, Ne, Time.isZero_iff]
  intro hzero
  have hunix := congrArg Time.unix hzero
  rw [Time.unix_ofUnix] at hunix
  have hint := congrArg Int64.toInt hunix
  rw [Int64.toInt_ofInt_of_le (by omega) (by omega)] at hint
  have hdefault : (default : Time).unix.toInt = -62135596800 := by decide
  rw [hdefault] at hint
  omega

theorem history_held {r : Relay} (h : r.Reachable rt anchor) (a : String)
    (rec : AddressHistoryRecord) (hheld : r.records.getHistory rt a = some rec) : rec.address = a ∧
    rec.verify rt = .ok () := by
  obtain ⟨seeds, hseeds⟩ := h
  refine hseeds.invariant (Q := fun r => ∀ a rec, r.records.getHistory rt a = some rec →
    rec.address = a ∧ rec.verify rt = .ok ()) ?_ ?_ a rec hheld
  · intro a rec hrec
    unfold RecordStore.getHistory at hrec
    rw [get_seed rt _ a (by decide)] at hrec
    cases hrec
  · intro r p hr a rec hrec
    rcases getHistory_push rt anchor r p a with hkeep | ⟨rec', live, -, hstored, haddress, hnew⟩
    · exact hr a rec (hkeep.symm.trans hrec)
    · cases hnew.symm.trans hrec
      exact ⟨haddress, hstored.verified⟩

theorem heldHistory_verified {r : Relay} (h : r.Reachable rt anchor) (a : String) :
    verifyChainLinks rt (heldHistory rt r.records a) a = .ok () ∧
      chainTruncated (heldHistory rt r.records a) = false ∧
      (heldHistory rt r.records a).map RotationEntry.reread = heldHistory rt r.records a := by
  unfold heldHistory
  cases hheld : r.records.getHistory rt a with
  | none => exact ⟨rfl, rfl, rfl⟩
  | some rec =>
    obtain ⟨rfl, hverify⟩ := history_held h a rec hheld
    obtain ⟨-, -, hwhole, hlinks⟩ := AddressHistoryRecord.verify_eq_ok.mp hverify
    exact ⟨hlinks, hwhole, reread_of_getHistory hheld⟩

theorem Holds.joined {r : Relay} {sib : SiblingInput} {rec : IdentityRecord}
    (hreach : r.Reachable rt anchor) (h : Holds rt r inputs.current sib rec) : Joined rt rec := by
  refine ⟨?_, h.lands⟩
  have haddress := (hreach.filed.identity sib.address rec h.held).1
  rw [h.complete, haddress]
  exact verifyChainLinks_drop (heldHistory_verified hreach sib.address).1 _

theorem Holds.stable {cred : Credential} {devicePriv : Bytes} {rec : IdentityRecord}
    {e : RotationEntry} (hsigners : Signers rt inputs next cred devicePriv)
    (hclock : Clock rotatedAt rec) (hbuilt :
      Built rt rec (rotation inputs next rotatedAt cred devicePriv rec) e) : e.Stable := by
  constructor
  · rw [hbuilt.rotatedAt]
    exact second_isZero hclock.sane
  · intro cred' hcred
    have hdevice := hbuilt.deviceCredential
    rw [hcred] at hdevice
    cases hdevice
    rw [hsigners.decoded]

theorem Holds.historyStored {r : Relay} {cred : Credential} {devicePriv : Bytes}
    {sib : SiblingInput} {rec sent : IdentityRecord} {e : RotationEntry}
    {dar : DomainAuthorityRecord} {data : Bytes} (hreach : r.Reachable rt anchor)
    (hsha : ∀ b, (rt.sha256 b).length = 32) (hsigners : Signers rt inputs next cred devicePriv)
    (h : Holds rt r inputs.current sib rec) (hclock : Clock rotatedAt rec)
    (hdar : r.records.getDAR rt (domainOf sib.address) = some dar)
    (hbuilt : Built rt rec (rotation inputs next rotatedAt cred devicePriv rec) e)
    (hsent : IdentityRecord.fromProtoBytes rt data = some sent)
    (hreload : Reloaded (successor rt next rec e) sent) :
    HistoryStored rt (r.records.putIdentity rt sent)
      (encodeHistory rt sib.address (sib.priorHistory ++ [e.toProto]))
      ⟨1, domainPart sib.address, sib.address, heldHistory rt r.records sib.address ++ [e.reread]⟩
      sent := by
  obtain ⟨hlinks, hwhole, hread⟩ := heldHistory_verified hreach sib.address
  have haddress := (hreach.filed.identity sib.address rec h.held).1
  have hstable := Holds.stable hsigners hclock hbuilt
  have hvalid : validateAddress rec.address = true := by
    rw [haddress]
    exact h.address
  obtain ⟨hdomain, hnamed⟩ := domainPart_eq h.address
  obtain ⟨stored, -, hparsed⟩ := Option.bind_eq_some_iff.mp h.held
  have hcont :=
    (h.joined hreach).continuable hparsed (hreach.filed.identity sib.address rec h.held).2 hvalid
  -- the last link of the history is the last link of the record's chain
  have hlink : verifyLink rt sib.address ((heldHistory rt r.records sib.address).getLast?.or none)
      e.reread = .ok () := by
    have hentry : e.verify rt = .ok () :=
      hbuilt.verify (h.ready rotatedAt hsigners) hsha hvalid hcont.key hstable
    have hnext := hcont.link hbuilt hentry hstable
      (by rw [hbuilt.rotatedAt]; exact hclock.later_reread hparsed)
    have hmap : rec.rotationChain.map RotationEntry.reread = rec.rotationChain := by
      rw [h.complete, retained, List.rtake, List.map_drop, hread]
    rw [haddress, hmap, h.complete, getLast?_retained] at hnext
    rw [Option.or_none]
    exact hnext
  refine ⟨?_, ?_, ?_, ?_, ?_, ?_, ?_⟩
  · unfold encodeHistory
    rw [Codec.unmarshal_deterministic, Option.bind_some, AddressHistoryRecord.fromProto]
    have hchain : sib.priorHistory ++ [e.toProto] =
        (heldHistory rt r.records sib.address ++ [e]).map RotationEntry.toProto := by
      rw [h.history, List.map_append]
      rfl
    dsimp only
    rw [hchain, rotationChainFromProto_eq_reread, Option.map_some, List.map_append, hread]
    rfl
  · rintro (hempty | hempty)
    · have hshape := h.address
      rw [show sib.address = "" from hempty] at hshape
      revert hshape
      decide
    · exact hnamed (hdomain.symm.trans hempty)
  · change ((r.records.putIdentity rt sent).getDAR rt (domainPart sib.address)).isSome = true
    have hkept : (r.records.putIdentity rt sent).getDAR rt (domainOf sib.address) =
        r.records.getDAR rt (domainOf sib.address) := getDAR_put_of_ne (by decide)
    rw [hdomain, hkept, hdar]
    rfl
  · have hsame : sent.address = sib.address := hreload.address.trans haddress
    rw [getIdentity_putIdentity hsent]
    exact if_pos hsame.symm
  · refine AddressHistoryRecord.verify_eq_ok.mpr ⟨h.address, ?_, ?_, ?_⟩
    · rw [hdomain]
      exact Strings.equalFold_refl _
    · change chainTruncated (heldHistory rt r.records sib.address ++ [e.reread]) = false
      cases hheld : heldHistory rt r.records sib.address with
      | nil =>
        have hhash := hbuilt.prevHash
        rw [h.complete, hheld] at hhash
        change (!e.prevSignatureHash.isEmpty) = false
        rw [hhash]
        rfl
      | cons first rest =>
        rw [hheld] at hwhole
        exact hwhole
    · exact verifyLinksAfter_concat.mpr ⟨hlinks, hlink⟩
  · intro prior hprior
    obtain ⟨hheld, hne⟩ := priorHistory_eq_some.mp hprior
    have hsame : r.records.getHistory rt sib.address = some prior := by
      unfold RecordStore.getHistory at hheld ⊢
      rw [← hheld]
      exact congrArg (fun b => Option.bind b _) (get_put_of_prefix_ne _ _ (by decide)).symm
    have hchain : heldHistory rt r.records sib.address = prior.chain := by
      rw [heldHistory, hsame]
      rfl
    refine ⟨?_, ?_⟩
    · rw [hchain, chainsEqual, beq_eq_false_iff_ne, List.map_append]
      intro heq
      have hlength := congrArg List.length heq
      rw [List.length_append, List.length_map, List.length_map] at hlength
      exact absurd hlength (by simp)
    · unfold AddressHistoryRecord.extends_
      dsimp only
      rw [hchain, if_neg (by simpa using hne), if_neg (by simp), sameSignatures_iff,
        List.map_append]
      exact List.prefix_append _ _
  · intro last hlast
    rw [AddressHistoryRecord.terminal, List.getLast?_concat] at hlast
    cases hlast
    rw [hreload.key]
    exact hbuilt.nextKey

theorem Prepared.not_tombstoned {r : Relay} {cred : Credential} {sib : SiblingInput}
    {rec sent : IdentityRecord} {dar : DomainAuthorityRecord} {now : Time}
    (h : Prepared rt r inputs next rotatedAt cred now sib rec dar)
    (hkey : sent.ed25519Public = next.ed25519Public) :
    incomingTombstoned rt sent (r.records.storedRemoval rt dar sib.address) dar = false := by
  unfold incomingTombstoned
  cases hrm : r.records.storedRemoval rt dar sib.address with
  | none => rfl
  | some rm =>
    have hlisted : (rm.removed sent.ed25519Public).isSome = false := by
      rw [Bool.eq_false_iff, Ne, AddressRemovalRecord.removed_isSome, hkey]
      exact h.fresh rm hrm
    dsimp only
    rw [hlisted, Bool.and_false]

theorem Prepared.admitted_iff {r : Relay} {cred : Credential} {devicePriv : Bytes}
    {sib : SiblingInput} {rec : IdentityRecord} {dar : DomainAuthorityRecord} {now : Time}
    (hreach : r.Reachable rt anchor) (hsha : ∀ b, (rt.sha256 b).length = 32)
    (hsigners : Signers rt inputs next cred devicePriv)
    (h : Prepared rt r inputs next rotatedAt cred now sib rec dar) :
    Admitted rt r now (rekeyed rt inputs next rotatedAt cred.toProto sib) ↔
      Strings.equalFold rt.unicode cred.address sib.address = true := by
  obtain ⟨e, hbuild, he⟩ := h.holds.entry rotatedAt hsigners hreach.filed
  obtain ⟨sent, hread, hsent⟩ := h.holds.sent hsigners hreach.filed he
  obtain ⟨data, -, hparsed⟩ := Option.bind_eq_some_iff.mp h.holds.held
  have haddress := (hreach.filed.identity sib.address rec h.holds.held).1
  have hready := h.holds.ready rotatedAt hsigners
  have hbuilt := built_of_buildRotation hready hbuild
  have hstable := Holds.stable hsigners h.clock hbuilt
  have hcred : e.reread.deviceCredential = some cred := by
    change e.deviceCredential.map (fun cred => Credential.fromProto cred.toProto) = some cred
    rw [hbuilt.deviceCredential]
    exact congrArg some hsigners.decoded
  have hentry : e.reread.address = sib.address := hbuilt.address.trans haddress
  have hat : e.reread.rotatedAt = second rotatedAt := by
    change e.rotatedAt.wholeSecond = second rotatedAt
    rw [hbuilt.rotatedAt]
    exact Time.wholeSecond_ofUnix _
  obtain ⟨hlast, hauthorize⟩ :=
    (h.holds.joined hreach).nextAuthorized hsha hreach.filed h.holds.held rec _ e _ sent
    h.holds.held hready hbuild hstable (h.clock.later_reread hparsed) (installs_successor e) hsent
  constructor
  · rintro ⟨rec₁, sent₁, dar₁, last₁, haccepts⟩
    have hsame : sent₁ = sent := Option.some.inj (haccepts.read.symm.trans hread)
    have hsameLast : last₁ = e.reread := Option.some.inj ((hsame ▸ haccepts.ends).symm.trans hlast)
    have hsameRec : rec₁ = rec := Option.some.inj (haccepts.held.symm.trans h.holds.held)
    subst hsame hsameLast hsameRec
    obtain ⟨cred', hdevice⟩ := ((hauthorize _ _ _).mp haccepts.rotation).device
    have hdeviceAddress := hdevice.address
    obtain rfl : cred' = cred := Option.some.inj (hdevice.named.symm.trans hcred)
    rw [hentry] at hdeviceAddress
    exact hdeviceAddress
  · intro hfold
    refine ⟨rec, sent, dar, e.reread, h.holds.held, h.authority, hread, hlast, ?_, ?_,
      inherited_sent hsent hparsed⟩
    · refine (hauthorize _ _ _).mpr
        ⟨?_, h.rule.allowed, .inl ?_, ⟨cred, hcred, h.rule.role, ?_, ?_, ?_, ?_⟩, ?_⟩
      · rw [haddress]
        exact h.holds.address
      · change e.authorizingEd25519Public = rec.ed25519Public
        rw [hbuilt.authorizing]
        exact h.holds.key.symm
      · rw [hentry]
        exact hfold
      · rw [hat]
        exact h.rule.chain
      · rw [hat]
        exact h.rule.notAhead
      · rw [hat]
        exact h.rule.tenure
      · exact h.not_tombstoned (reloaded_of_fromProtoBytes hsent).key
    · have hreload := reloaded_of_fromProtoBytes hsent
      have hstored :=
        h.holds.historyStored hreach hsha hsigners h.clock h.authority hbuilt hread hreload
      rw [← he] at hstored
      exact ⟨_, hstored.accepted⟩

structure Ordinary (rt : Runtime) (r : Relay) (rec : IdentityRecord) (dar : DomainAuthorityRecord)
    (now : Time) : Prop where
  plain : isEphemeralAddress rec.address = false
  unreserved : dar.reservesLocalPart rt (localPartOf rec.address) = false
  live : rec.expired now = false
  unfreed : ∀ rm, r.records.storedRemoval rt dar rec.address = some rm → rec.ed25519Public ∉ rm.keys
  budget : (r.rotationLimiter.allow now (Strings.toLower rt.unicode rec.address)).2 = true

theorem verify_sent {rec sent : IdentityRecord} {e : RotationEntry} {data : Bytes}
    (hincoming : AddressRemovalRecord.SignsFor rt next.seed next.ed25519Public) (hstable : e.Stable)
    (hrec : IdentityRecord.fromProtoBytes rt data = some rec)
    (hsent : IdentityRecord.fromProtoBytes rt
      (rt.identityRecord.marshal (successor rt next rec e).toProto) = some sent) :
    sent.verify rt = true ∧ sent.expiresAt = rec.expiresAt := by
  have hchain := (reloaded_of_fromProtoBytes hsent).chain
  have hread := reread_of_fromProtoBytes hrec
  unfold IdentityRecord.fromProtoBytes at hsent hrec
  rw [Codec.unmarshal_marshal, Option.bind_some] at hsent
  obtain ⟨-, -, chain, -, rfl⟩ := IdentityRecord.fromProto_eq_some.mp hsent
  obtain ⟨pb, -, hpb⟩ := Option.bind_eq_some_iff.mp hrec
  obtain ⟨-, -, chain', -, rfl⟩ := IdentityRecord.fromProto_eq_some.mp hpb
  change chain = (appendRotation (IdentityRecord.ofMessage pb chain') e).map RotationEntry.reread
    at hchain
  change chain'.map RotationEntry.reread = chain' at hread
  have hentries : chain.map RotationEntry.toProto =
      (appendRotation (IdentityRecord.ofMessage pb chain') e).map RotationEntry.toProto := by
    rw [hchain, List.map_map]
    refine List.map_congr_left fun e' he' => ?_
    rw [appendRotation_eq_rtake] at he'
    rcases List.mem_append.mp (List.mem_of_mem_drop he') with hold | hnew
    · have hsame := List.map_inj_left.mp (hread.trans (List.map_id _).symm) e' hold
      exact congrArg RotationEntry.toProto hsame
    · rw [List.mem_singleton.mp hnew]
      exact hstable.toProto_reread
  have hsize := (length_of_signsFor hincoming).2
  let unsigned := { IdentityRecord.ofMessage pb chain' with
    ed25519Public := next.ed25519Public, x25519Public :=
      Fixed.copy 32 next.x25519Public, relayHints := []
    addressCredential := none, routingCredential := none, operatorCredentials := [], revision :=
      pb.revision + 1
    rotationChain := appendRotation (IdentityRecord.ofMessage pb chain') e }
  have hcore : (IdentityRecord.ofMessage
    (successor rt next (IdentityRecord.ofMessage pb chain') e).toProto chain).core =
      unsigned.core := by
    simp [IdentityRecord.core, IdentityRecord.toProto, IdentityRecord.ofMessage, successor,
      unixOrZero_timeOrZero, unsigned]
    exact hentries
  constructor
  · unfold IdentityRecord.verify verifyCtx IdentityRecord.signableBytes
    rw [hcore]
    have hsig : (IdentityRecord.ofMessage
      (successor rt next (IdentityRecord.ofMessage pb chain') e).toProto
        chain).selfSignature.val =
          rt.ed25519Sign next.seed (Ctx.identitySelf.tag ++ unsigned.signableBytes rt) := by
      change (Fixed.copy 64 (Fixed.copy 64
        (signCtx rt next.seed .identitySelf (unsigned.signableBytes rt))).val).val = _
      rw [Fixed.copy_val, signCtx, Fixed.val_copy_of_length (hsize _)]
    rw [hsig]
    exact hincoming _
  · change timeOrZero (unixOrZero (timeOrZero pb.expiresAt)) = timeOrZero pb.expiresAt
    rw [unixOrZero_timeOrZero]

/-- What is published of an address of which all is prepared becomes its record, if the device is
enrolled for the address and nothing else is in the way. -/
theorem Prepared.taken {r : Relay} {cred : Credential} {devicePriv : Bytes} {sib : SiblingInput}
    {rec : IdentityRecord} {dar : DomainAuthorityRecord} {now : Time}
    (hreach : r.Reachable rt anchor) (hsha : ∀ b, (rt.sha256 b).length = 32)
    (hsigners : Signers rt inputs next cred devicePriv)
    (h : Prepared rt r inputs next rotatedAt cred now sib rec dar)
    (henrolled : Strings.equalFold rt.unicode cred.address sib.address = true)
    (hordinary : Ordinary rt r rec dar now) :
    ∃ sent, IdentityAdmitted rt r now (rekeyed rt inputs next rotatedAt cred.toProto sib).record
      sent ∧
      sent.address = sib.address ∧ sent.ed25519Public = next.ed25519Public := by
  obtain ⟨e, hbuild, he⟩ := h.holds.entry rotatedAt hsigners hreach.filed
  obtain ⟨sent, hread, hsent⟩ := h.holds.sent hsigners hreach.filed he
  obtain ⟨data, -, hparsed⟩ := Option.bind_eq_some_iff.mp h.holds.held
  have haddress := (hreach.filed.identity sib.address rec h.holds.held).1
  have hbuilt := built_of_buildRotation (h.holds.ready rotatedAt hsigners) hbuild
  have hstable := Holds.stable hsigners h.clock hbuilt
  have hreload := reloaded_of_fromProtoBytes hsent
  have hsame : sent.address = rec.address := hreload.address
  have hkey : sent.ed25519Public = next.ed25519Public := hreload.key
  obtain ⟨hverify, hexpires⟩ := verify_sent hsigners.incoming hstable hparsed hsent
  obtain ⟨rec₁, sent₁, dar₁, last, haccepts⟩ := (h.admitted_iff hreach hsha hsigners).mpr henrolled
  obtain rfl : sent = sent₁ := Option.some.inj (hread.symm.trans haccepts.read)
  obtain rfl : rec = rec₁ := Option.some.inj (h.holds.held.symm.trans haccepts.held)
  obtain rfl : dar = dar₁ := Option.some.inj (h.authority.symm.trans haccepts.authority)
  have hheld : r.records.getIdentity rt sent.address = some rec := by
    rw [hsame, haddress]
    exact h.holds.held
  have hauthority : r.records.getDAR rt (domainOf sent.address) = some dar := by
    rw [hsame, haddress]
    exact h.authority
  have harm : authorizeRebind rt (some rec) sent (r.records.storedRemoval rt dar sent.address)
      (some dar) now =
      .ok .ownerRotation := by
    have hnew : rec.ed25519Public ≠ sent.ed25519Public := by
      rw [h.holds.key, hkey]
      exact hsigners.newKey
    -- the domain's tombstone, if there is one, is not of the key that is given up
    have hnot : (r.records.storedRemoval rt dar sent.address).elim (.error .incumbentNotTombstoned)
        (rebindTombstoneFrees rt rec sent · dar) ≠ .ok () := by
      rw [hsame]
      cases hrm : r.records.storedRemoval rt dar rec.address with
      | none => exact fun hok => by cases hok
      | some rm => exact fun hok => hordinary.unfreed rm hrm (rebindTombstoneFrees_iff.mp hok).2.2.2
    have hrotation := haccepts.rotation
    rw [show (rekeyed rt inputs next rotatedAt cred.toProto sib).address =
      sent.address from (hsame.trans haddress).symm]
      at hrotation
    unfold authorizeRebind
    dsimp only
    rw [if_neg hnew]
    split
    · next hok => exact absurd hok hnot
    · rw [haccepts.ends]
      exact hrotation
  have hplain : isEphemeralAddress sent.address = false := by
    rw [hsame]
    exact hordinary.plain
  refine ⟨sent, ⟨hread, hverify, ?_, ?_, ?_⟩, hsame.trans haddress, hkey⟩
  · rw [IdentityRecord.expired, hexpires]
    exact hordinary.live
  · rw [checkDomainGates_eq_ok hplain, hauthority]
    refine ⟨checkReservedLocalPart_of_not_reserved fun d hd =>
      ?_, checkKeyContinuity_ownerRotation hheld harm ?_⟩
    · rw [← Option.some.inj hd, hsame]
      exact hordinary.unreserved
    · rw [hsame]
      exact hordinary.budget
  · rw [checkRollback_eq_ok]
    intro existing hexisting
    obtain rfl := Option.some.inj (hheld.symm.trans hexisting)
    have hadvance : rec.revision < sent.revision := by
      rw [hreload.revision]
      exact succ_revision h.holds.revision
    refine ⟨UInt64.le_of_lt hadvance, fun hsame => ?_⟩
    rw [hsame] at hadvance
    exact absurd hadvance (UInt64.lt_irrefl _)

def RotatedRecord.published (signed : RotatedRecord) (address : String) : List RotatedSibling :=
  ⟨address, signed.record, signed.history⟩ :: signed.siblings

variable (rotatedAt) in
theorem Signers.signRotation {cred : Credential} {devicePriv : Bytes}
    (h : Signers rt inputs next cred devicePriv) :
    ∃ signed, signRotation rt inputs next rotatedAt = some signed ∧
      signed.published inputs.address =
      inputs.all.map (rekeyed rt inputs next rotatedAt cred.toProto) ∧
      signed.compromise = declarations rt inputs next rotatedAt := by
  have hcred : cred.toProto ≠ default := by
    intro hdefault
    have hsubject := congrArg Pb.Credential.subject hdefault
    have hsize := (length_of_signsFor h.subject).1
    rw [show cred.subject = [] from hsubject] at hsize
    cases hsize
  have hgiven : inputs.deviceCredential ≠ [] := by
    rw [h.credential]
    exact rt.credential.marshal_ne_nil hcred
  unfold Rekeying.signRotation
  rw [guard, if_pos hgiven, h.credential, Codec.unmarshal_marshal]
  exact ⟨_, rfl, rfl, rfl⟩

/-- At every state that a node can be in, what the browser signs of an account and its siblings is
admitted exactly when the device is enrolled for each of the addresses. -/
theorem rotations_admitted_iff {r : Relay} {cred : Credential} {devicePriv : Bytes} {now : Time}
    (hreach : r.Reachable rt anchor) (hsha : ∀ b, (rt.sha256 b).length = 32)
    (hsigners : Signers rt inputs next cred devicePriv)
    (h : ∀ sib ∈ inputs.all, ∃ rec dar, Prepared rt r inputs next rotatedAt cred now sib rec dar) :
    ∃ signed, signRotation rt inputs next rotatedAt = some signed ∧
      ((∀ s ∈ signed.published inputs.address, Admitted rt r now s) ↔
        ∀ sib ∈ inputs.all, Strings.equalFold rt.unicode cred.address sib.address = true) := by
  obtain ⟨signed, hsigned, hpublished, -⟩ := hsigners.signRotation rotatedAt
  refine ⟨signed, hsigned, ?_⟩
  rw [hpublished, List.forall_mem_map]
  refine forall₂_congr fun sib hsib => ?_
  obtain ⟨rec, dar, hprepared⟩ := h sib hsib
  exact hprepared.admitted_iff hreach hsha hsigners

/-! An account with an alias, on a node that has the records of both; the device is enrolled for the
account. -/
namespace Aliased

noncomputable def rt₁ : Runtime :=
  { idealRuntime [] [] with
    ed25519Sign := fun priv _ => priv ++ priv, ed25519Verify := fun pub _ sig => sig == pub ++ pub }

theorem verify_twice (key : UInt8) (message : Bytes) :
    Crypto.verify rt₁ (keyOf key) message (keyOf key ++ keyOf key) = true := by
  simp [Crypto.verify, Crypto.ed25519PublicKeySize, Crypto.ed25519SignatureSize, rt₁]

def keyPair (key : UInt8) : IdentityKeyPair := ⟨keyOf key, keyOf key, keyOf key, [], [], 0⟩

theorem seed_keyPair (key : UInt8) : (keyPair key).seed = keyOf key :=
  List.take_of_length_le (by simp [keyPair])

theorem signsFor (key : UInt8) : AddressRemovalRecord.SignsFor rt₁ (keyOf key) (keyOf key) :=
  verify_twice key

def authority : Pb.DomainAuthorityRecord :=
  { plainAuthority "example.org" 1 with
    policyFlags := policyAllowKeyRotation, rotationMinDeviceAgeDays := rotationMinDeviceAgeNone }

def enrolled : Credential :=
  .fromProto
    { plainCredential "example.org" "alice@example.org" roleDevice 1 5 with
      signature := keyOf 1 ++ keyOf 1 }

def message (address : String) : Pb.IdentityRecord :=
  { plainRecord address 2 with x25519PublicKey := keyOf 2, selfSignature := keyOf 2 ++ keyOf 2 }

def record (address : String) : IdentityRecord := .ofMessage (message address) []

def account : String := "alice@example.org"

def shared : String := "sales@example.org"

noncomputable def send (address : String) : Push :=
  ⟨Time.ofUnix 100, .identity, rt₁.identityRecord.marshal (message address)⟩

noncomputable def seeded : Relay := seedOwnRecords rt₁ [.fromProto authority]

noncomputable def relay : Relay := (seeded.push rt₁ none (send account)).push rt₁ none (send shared)

noncomputable def sibling (address : String) : SiblingInput :=
  ⟨address, .of (record address).toProto, [], none⟩

noncomputable def inputsWith (siblings : List SiblingInput) : SigningInputs where
  address := account
  current := keyPair 2
  outgoingAliasRoot := none
  device := ⟨keyOf 5, rt₁.ed25519Sign (keyOf 5)⟩
  currentRecord := (sibling account).record
  severity := .routine
  priorRemoval := none
  deviceCredential := rt₁.credential.marshal enrolled.toProto
  priorHistory := []
  siblings := siblings

theorem signers (siblings : List SiblingInput) : Signers rt₁ (inputsWith siblings)
    (keyPair 3) enrolled (keyOf 5) where
  device := rfl
  credential := rfl
  decoded := Credential.fromProto_toProto_fromProto _
  subject := signsFor 5
  outgoing := by
    change AddressRemovalRecord.SignsFor rt₁ (keyPair 2).seed (keyOf 2)
    rw [seed_keyPair]
    exact signsFor 2
  incoming := by
    rw [seed_keyPair]
    exact signsFor 3
  mailboxKey := length_keyOf 3
  newKey := show keyOf 2 ≠ keyOf 3 by decide
  newMailboxKey := show keyOf 2 ≠ keyOf 3 by decide

theorem verify_record (address : String) : (record address).verify rt₁ = true := by
  have hsig : (record address).selfSignature.val = keyOf 2 ++ keyOf 2 :=
    Fixed.val_copy_of_length (by simp [message])
  unfold IdentityRecord.verify verifyCtx
  rw [hsig]
  exact verify_twice 2 _

theorem parsed (address : String) : IdentityRecord.fromProtoBytes rt₁ (send address).data = some
    (record address) :=
  IdentityRecord.fromProtoBytes_plain rfl rfl rfl

theorem push_record {r : Relay} {address : String} (hdomain : domainOf address = "example.org")
    (hdar : r.records.getDAR rt₁ "example.org" = some (.fromProto authority))
    (hnone : r.records.getIdentity rt₁ address = none) :
    r.push rt₁ none (send address) =
      ⟨r.records.putIdentity rt₁ (record address), r.rotationLimiter⟩ := by
  refine push_genesis (.genesis (parsed address) (verify_record address)
    (IdentityRecord.not_expired_of_unset rfl) hnone ?_) hnone
  intro d hd
  change r.records.getDAR rt₁ (domainOf address) = some d at hd
  rw [hdomain, hdar] at hd
  cases hd
  exact DomainAuthorityRecord.reservesLocalPart_nil rfl

theorem relay_eq : relay =
    ⟨(seeded.records.putIdentity rt₁ (record account)).putIdentity rt₁ (record shared),
      .newRotationLimiter⟩ := by
  have hfirst : seeded.push rt₁ none (send account) =
      ⟨seeded.records.putIdentity rt₁ (record account), .newRotationLimiter⟩ :=
    push_record (by decide) (getDAR_seed_singleton rfl) (getIdentity_seed _ _ _)
  unfold relay
  rw [hfirst]
  refine push_record (by decide) ((getDAR_put_of_ne (by decide)).trans (getDAR_seed_singleton rfl))
    ?_
  change (seeded.records.putIdentity rt₁ (record account)).getIdentity rt₁ shared = none
  rw [getIdentity_putIdentity (parsed account)]
  exact (if_neg (show shared ≠ account by decide)).trans (getIdentity_seed _ _ _)

theorem records_relay : relay.records =
    (seeded.records.putIdentity rt₁ (record account)).putIdentity rt₁ (record shared) :=
  congrArg Relay.records relay_eq

theorem reachable : relay.Reachable rt₁ none := ⟨[authority], [send account, send shared], rfl⟩

theorem getIdentity_relay {address : String} (h : address = account ∨ address = shared) :
    relay.records.getIdentity rt₁ address = some (record address) := by
  rw [records_relay, getIdentity_putIdentity (parsed shared)]
  rcases h with rfl | rfl
  · rw [getIdentity_putIdentity (parsed account)]
    exact (if_neg (show account ≠ shared by decide)).trans (if_pos rfl)
  · exact if_pos rfl

theorem getDAR_relay : relay.records.getDAR rt₁ "example.org" = some (.fromProto authority) := by
  rw [records_relay]
  exact (getDAR_put_of_ne (by decide)).trans
    ((getDAR_put_of_ne (by decide)).trans (getDAR_seed_singleton rfl))

theorem heldHistory_relay (address : String) : heldHistory rt₁ relay.records address = [] := by
  have hget : relay.records.get .history address = none := by
    rw [records_relay]
    exact (get_put_of_prefix_ne _ _ (by decide)).trans
      ((get_put_of_prefix_ne _ _ (by decide)).trans (get_seed _ _ _ (by decide)))
  unfold heldHistory RecordStore.getHistory
  rw [hget]
  rfl

theorem storedRemovalAny_relay (address : String) :
    relay.records.storedRemovalAny rt₁ address = none := by
  rw [records_relay]
  exact (storedRemovalAny_put_of_ne (by decide)).trans
    ((storedRemovalAny_put_of_ne (by decide)).trans (storedRemovalAny_seed _ _ _))

theorem verifyCredential_enrolled {at' : Time} :
    verifyCredential rt₁ enrolled (some (.fromProto authority)) none at' = .ok () := by
  have hsig : enrolled.verifySignature rt₁ = true := by
    unfold Credential.verifySignature
    rw [Bool.and_eq_true]
    exact ⟨by decide, verify_twice 1 _⟩
  exact verifyCredential_of_root hsig rfl rfl rfl (rootKeyAt_plainAuthority "example.org" 1) rfl
    (by decide) (by decide) rfl
    (by decide)

theorem domainRule : DomainRule rt₁ (.fromProto authority) enrolled 200 (Time.ofUnix 200) where
  allowed := by decide
  role := by decide
  chain := verifyCredential_enrolled
  notAhead := by decide
  tenure := by decide

theorem holds {address : String} (h : address = account ∨ address = shared) :
    Holds rt₁ relay (keyPair 2) (sibling address) (record address) where
  held := getIdentity_relay h
  address := by rcases h with rfl | rfl <;> decide
  key := rfl
  mailboxKey := Fixed.val_copy_of_length (length_keyOf 2)
  state := rfl
  history := by
    rw [show (sibling address).address = address from rfl, heldHistory_relay]
    rfl
  complete := by
    rw [show (sibling address).address = address from rfl, heldHistory_relay]
    rfl
  lands := fun last hlast => by cases hlast
  revision := show 1 < 2 ^ 53 by decide
  createdAt := show (Time.ofUnix 0).unix.toInt.natAbs < 2 ^ 53 by decide
  expiresAt := show (unixOrZero (timeOrZero 0)).toInt.natAbs < 2 ^ 53 by decide

theorem prepared {siblings : List SiblingInput} {address : String}
    (h : address = account ∨ address = shared) :
    Prepared rt₁ relay (inputsWith siblings) (keyPair 3) 200 enrolled (Time.ofUnix 200)
      (sibling address) (record address) (.fromProto authority) where
  holds := holds h
  clock := ⟨by decide, fun last hlast => by cases hlast⟩
  authority := by
    have hdomain : domainOf address = "example.org" := by rcases h with rfl | rfl <;> decide
    exact (congrArg (relay.records.getDAR rt₁) hdomain).trans getDAR_relay
  rule := domainRule
  fresh := by
    intro rm hrm
    cases (storedRemovalAny_relay address).symm.trans (storedRemoval_eq_some.mp hrm).1

theorem length_sha256 (b : Bytes) : (rt₁.sha256 b).length = 32 := Fixed.length_val _

/-- Everything is prepared, and what is signed for the alias is refused: the device is enrolled for
the account. -/
theorem alias_refused :
    relay.Reachable rt₁ none ∧ Signers rt₁ (inputsWith [sibling shared]) (keyPair 3) enrolled
      (keyOf 5) ∧
    (∀ sib ∈ (inputsWith [sibling shared]).all, ∃ rec dar,
      Prepared rt₁ relay (inputsWith [sibling shared]) (keyPair 3) 200 enrolled (Time.ofUnix 200)
        sib rec dar) ∧
    ∃ signed, signRotation rt₁ (inputsWith [sibling shared]) (keyPair 3) 200 = some signed ∧
      ∃ s ∈ signed.published account, s.address = shared ∧
      ¬ Admitted rt₁ relay (Time.ofUnix 200) s := by
  obtain ⟨signed, hsigned, hpublished, -⟩ := (signers [sibling shared]).signRotation 200
  refine ⟨reachable, signers _, ?_, signed, hsigned, ?_⟩
  · intro sib hsib
    rcases List.mem_cons.mp hsib with rfl | hshared
    · exact ⟨_, _, prepared (.inl rfl)⟩
    · obtain rfl := List.mem_singleton.mp hshared
      exact ⟨_, _, prepared (.inr rfl)⟩
  · refine ⟨rekeyed rt₁ (inputsWith [sibling shared]) (keyPair 3) 200 enrolled.toProto
      (sibling shared), ?_, rfl, ?_⟩
    · have hmem : sibling shared ∈ (inputsWith [sibling shared]).all :=
        List.mem_cons_of_mem _ (List.mem_singleton.mpr rfl)
      rw [show account = (inputsWith [sibling shared]).address from rfl, hpublished]
      exact List.mem_map_of_mem hmem
    · rw [(prepared (.inr rfl)).admitted_iff reachable length_sha256 (signers _)]
      decide

/-- The account alone is admitted. -/
theorem account_admitted : ∃ signed, signRotation rt₁ (inputsWith [])
    (keyPair 3) 200 = some signed ∧
    ∀ s ∈ signed.published account, Admitted rt₁ relay (Time.ofUnix 200) s := by
  have hprepared : ∀ sib ∈ (inputsWith []).all, ∃ rec dar,
      Prepared rt₁ relay (inputsWith []) (keyPair 3) 200 enrolled (Time.ofUnix 200) sib rec
        dar := by
    intro sib hsib
    obtain rfl := List.mem_singleton.mp hsib
    exact ⟨_, _, prepared (.inl rfl)⟩
  obtain ⟨signed, hsigned, hadmitted⟩ :=
    rotations_admitted_iff reachable length_sha256 (signers []) hprepared
  refine ⟨signed, hsigned, hadmitted.mpr ?_⟩
  intro sib hsib
  obtain rfl := List.mem_singleton.mp hsib
  exact Strings.equalFold_refl _

end Aliased

end Dmcn.Web.Rekeying
