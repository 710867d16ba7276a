import OpenDmcn.Web.DeclareStolen
import OpenDmcn.Web.Lineage
import OpenDmcn.Web.SameChains

/-! What a reader who has pinned a key is told while the account goes on to other keys. The
tombstone is judged under the key of the record as it is read, and it is signed again only by a
rotation that declares another key stolen. -/

namespace Dmcn.Web.Rekeying

open Go Guard RecordStore Lineage Chains

section Reader

variable (rt : Runtime)

def numbered (pb : Pb.AddressRemovalRecord) : Pb.AddressRemovalRecord :=
  { pb with
    removedBindings := pb.removedBindings.map fun b =>
      ⟨b.ed25519PublicKey, Int64.ofInt (Js.number b.removedAt.toInt)⟩
    revision := UInt64.ofNat (Js.number pb.revision.toNat).toNat
    createdAt := Int64.ofInt (Js.number pb.createdAt.toInt) }

def decodedRemoval (pb : Pb.AddressRemovalRecord) : DecodedRemoval where
  address := pb.address
  removedBindings := pb.removedBindings
  selfSignature := pb.selfSignature
  signableBytes := encodeRemovalSignableBytes rt (numbered pb)

def decoders : Decoders where
  identityRecord text :=
    (Base64.decode text.toList).bind rt.identityRecord.unmarshal |>.map (decodedRecord rt)
  addressHistory text :=
    (Base64.decode text.toList).bind rt.addressHistoryRecord.unmarshal |>.map (decodedHistory rt)
  addressRemoval text :=
    (Base64.decode text.toList).bind rt.addressRemovalRecord.unmarshal |>.map (decodedRemoval rt)

def files (rs : RecordStore) (a : String) : Option Bytes × Option Bytes × Option Bytes :=
  (rs.getIdentityBytes a, rs.getHistoryBytes a, rs.getRemovalBytes a)

/-- The answer of the directory with what the node has; none for an address that has no record. -/
def served (rs : RecordStore) (a : String) : Option Served :=
  (files rs a).1.map fun record =>
    ⟨toBase64 record, (files rs a).2.1.map toBase64, (files rs a).2.2.map toBase64⟩

def explained (lower : String → String) (r : Relay) (a : String) (pinned : Bytes) :
    Option KeyChange :=
  (served r.records a).bind (explainKeyChange (browser rt lower) (decoders rt) a (toBase64 pinned))

def Reported (lower : String → String) (a : String) (pinned : Bytes) (r : Relay) : Prop :=
  ∃ at', explained rt lower r a pinned = some (.reportedStolen at')

end Reader

/-- A ceremony as far as one address goes: what is signed for it, and what else the node is sent
meanwhile. -/
structure Turn where
  inputs : SigningInputs
  next : IdentityKeyPair
  rotatedAt : ℤ
  cred : Credential
  devicePriv : Bytes
  sib : SiblingInput
  now : Time
  /-- Between the record and the history. -/
  afterRecord : List Push
  /-- Between the history and the tombstone. -/
  afterHistory : List Push

namespace Turn

variable (rt : Runtime) (anchor : DarAnchor) (t : Turn)

def published : RotatedSibling := rekeyed rt t.inputs t.next t.rotatedAt t.cred.toProto t.sib

def record : Push := ⟨t.now, .identity, (t.published rt).record⟩

def history : Push := ⟨t.now, .history, (t.published rt).history⟩

def declaration : Option CompromiseDeclaration :=
  match t.inputs.severity with
  | .routine => none
  | .compromised => (signCompromise rt t.next t.rotatedAt t.sib.address t.sib.priorRemoval
    t.inputs.current.ed25519Public).map
      (CompromiseDeclaration.mk t.sib.address)

def recorded (r : Relay) : Relay :=
  Machine.run (Relay.push rt anchor) (r.push rt anchor (t.record rt)) t.afterRecord

def filed (r : Relay) : Relay :=
  Machine.run (Relay.push rt anchor) ((t.recorded rt anchor r).push rt anchor (t.history rt))
    t.afterHistory

def after (r : Relay) : Relay :=
  Machine.run (Relay.push rt anchor) (t.filed rt anchor r)
    ((t.declaration rt).toList.map (declare t.now))

end Turn

def LeavesAlone (rt : Runtime) (anchor : DarAnchor) (a : String) (r : Relay) (p : Push) : Prop :=
  files (r.push rt anchor p).records a = files r.records a

/-- The browser has read the record of the address, its history and its removal at the node, each in
numbers that can hold them. -/
structure ReadsAddress (rt : Runtime) (r : Relay) (current : IdentityKeyPair) (sib : SiblingInput)
    (rec : IdentityRecord) :
    Prop where
  key : rec.ed25519Public = current.ed25519Public
  mailboxKey : rec.x25519Public.val = current.x25519Public
  state : sib.record = .of rec.toProto
  history : sib.priorHistory = (heldHistory rt r.records sib.address).map RotationEntry.toProto
  removal : sib.priorRemoval = (r.records.storedRemovalAny rt sib.address).map fun rm =>
    RemovalState.of rm.toProto
  revision : rec.revision.toNat < 2 ^ 53
  removalRevision : ∀ rm, r.records.storedRemovalAny rt sib.address = some rm →
    rm.revision.toNat < 2 ^ 53
  createdAt : rec.createdAt.unix.toInt.natAbs < 2 ^ 53
  expiresAt : (unixOrZero rec.expiresAt).toInt.natAbs < 2 ^ 53

/-- A rotation of the address whose record, history and tombstone the node accepts. -/
structure Turn.Taken (rt : Runtime) (anchor : DarAnchor) (a : String) (r : Relay) (t : Turn) :
    Prop where
  signers : Signers rt t.inputs t.next t.cred t.devicePriv
  own : Own rt t.next
  among : t.sib ∈ t.inputs.all
  address : t.sib.address = a
  reads : ∀ rec, r.records.getIdentity rt a = some rec →
    ReadsAddress rt r t.inputs.current t.sib rec
  clock : 0 < t.rotatedAt ∧ t.rotatedAt < 2 ^ 53
  record : (acceptRecord rt anchor r (t.record rt)).2 = .ok ()
  afterRecord : Machine.Along (Relay.push rt anchor) (LeavesAlone rt anchor a)
    (r.push rt anchor (t.record rt)) t.afterRecord
  history : (acceptRecord rt anchor (t.recorded rt anchor r) (t.history rt)).2 = .ok ()
  afterHistory : Machine.Along (Relay.push rt anchor) (LeavesAlone rt anchor a)
    ((t.recorded rt anchor r).push rt anchor (t.history rt)) t.afterHistory
  declaration : ∀ d, t.declaration rt = some d →
    (acceptRecord rt anchor (t.filed rt anchor r) (declare t.now d)).2 = .ok ()

/-- The rotation declares the key it retires stolen, and the address has no tombstone of that key
yet. -/
def Turn.Declares (rt : Runtime) (a : String) (r : Relay) (t : Turn) : Prop :=
  t.inputs.severity = .compromised ∧
    ∀ rm, r.records.storedRemovalAny rt a = some rm → t.inputs.current.ed25519Public ∉ rm.keys

/-- What the node is sent: the rotations of the address, and what has nothing to do with it. -/
inductive Deed where
  | rekeyed (t : Turn)
  | other (p : Push)

namespace Deed

variable (rt : Runtime) (anchor : DarAnchor) (a : String) (r : Relay)

def step (r : Relay) : Deed → Relay
  | .rekeyed t => t.after rt anchor r
  | .other p => r.push rt anchor p

def Taken : Deed → Prop
  | .rekeyed t => t.Taken rt anchor a r
  | .other p => LeavesAlone rt anchor a r p

def Declares : Deed → Prop
  | .rekeyed t => t.Declares rt a r
  | .other _ => True

end Deed

/-- The node has the record of the address and all its history, in a chain that the browser
takes. -/
structure Standing (rt : Runtime) (lower : String → String) (a : String) (r : Relay)
    (rec : IdentityRecord) : Prop where
  held : r.records.getIdentity rt a = some rec
  address : validateAddress a = true
  complete : rec.rotationChain = retained (heldHistory rt r.records a)
  lands : ∀ last, rec.rotationChain.getLast? = some last →
    last.nextEd25519Public = rec.ed25519Public ∧ last.nextX25519Public = rec.x25519Public ∧
      last.nextRevision ≤ rec.revision
  asks : BrowserAsksChain lower a (rec.rotationChain.map RotationEntry.toProto)
  dated : ∀ last, rec.rotationChain.getLast? = some last → last.rotatedAt.unix.toInt.natAbs < 2 ^ 53

variable {rt : Runtime} {anchor : DarAnchor} {lower : String → String} {a : String}

section Files

section Slots

variable {rs rs' : RecordStore}

theorem getIdentity_congr (h : rs'.getIdentityBytes a = rs.getIdentityBytes a) :
    rs'.getIdentity rt a = rs.getIdentity rt a :=
  congrArg (fun b => Option.bind b (IdentityRecord.fromProtoBytes rt)) h

theorem getHistory_congr (h : rs'.getHistoryBytes a = rs.getHistoryBytes a) :
    rs'.getHistory rt a = rs.getHistory rt a := by
  unfold RecordStore.getHistory
  rw [show rs'.get .history a = rs.get .history a from h]

end Slots

theorem files_run {r : Relay} {ps : List Push}
    (h : Machine.Along (Relay.push rt anchor) (LeavesAlone rt anchor a) r ps) :
    files (Machine.run (Relay.push rt anchor) r ps).records a = files r.records a := by
  induction ps generalizing r with
  | nil => rfl
  | cons p ps ih => exact (ih h.2).trans h.1

variable (rt) in
theorem files_putIdentity (rs : RecordStore) (rec : IdentityRecord) :
    files (rs.putIdentity rt rec) rec.address =
    (some (rt.identityRecord.marshal rec.toProto), (files rs rec.address).2) := by
  unfold files getIdentityBytes getHistoryBytes getRemovalBytes RecordStore.putIdentity
  rw [get_put_self, get_put_of_prefix_ne _ _ (by decide), get_put_of_prefix_ne _ _ (by decide)]

variable (rt) in
theorem files_putHistory (rs : RecordStore) (h : AddressHistoryRecord) :
    files (rs.putHistory rt h) h.address =
    ((files rs h.address).1, some (rt.addressHistoryRecord.marshal h.toProto),
      (files rs h.address).2.2) := by
  unfold files getIdentityBytes getHistoryBytes getRemovalBytes RecordStore.putHistory
  rw [get_put_self, get_put_of_prefix_ne _ _ (by decide), get_put_of_prefix_ne _ _ (by decide)]

variable (rt) in
theorem files_putRemoval (rs : RecordStore) (rm : AddressRemovalRecord) :
    files (rs.putRemoval rt rm) rm.address =
    ((files rs rm.address).1, (files rs rm.address).2.1,
      some (rt.addressRemovalRecord.marshal rm.toProto)) := by
  unfold files getIdentityBytes getHistoryBytes getRemovalBytes RecordStore.putRemoval
  rw [get_put_self, get_put_of_prefix_ne _ _ (by decide), get_put_of_prefix_ne _ _ (by decide)]

end Files

theorem int64_number_again (n : Int64) :
    Int64.ofInt (Js.number (Int64.ofInt (Js.number n.toInt)).toInt) =
      Int64.ofInt (Js.number n.toInt) := by
  have hlow := n.le_toInt
  have hhigh := n.toInt_lt
  have habs : (Js.number n.toInt).natAbs ≤ 2 ^ 63 := by
    have hbound := Js.nearest_le_pow (n := n.toInt.natAbs) (k := 63) (by omega)
    unfold Js.number
    rw [Int.natAbs_mul, Int.natAbs_natCast]
    have hsign : n.toInt.sign.natAbs ≤ 1 := by
      rcases Int.sign_trichotomy n.toInt with h | h | h
      all_goals rw [h]; decide
    exact (Nat.mul_le_mul hsign hbound).trans (Nat.le_of_eq (Nat.one_mul _))
  by_cases htop : Js.number n.toInt = 2 ^ 63
  · rw [htop]
    decide
  · rw [Int64.toInt_ofInt_of_le (by omega) (by omega), Js.number_number]

theorem toInt_clock {n : ℤ} (h : 0 < n ∧ n < 2 ^ 53) : (Int64.ofInt n).toInt = n :=
  Int64.toInt_ofInt_of_le (by omega) (by omega)

theorem toInt_add_unixToInternal {n : Int64} (h : n.toInt.natAbs < 2 ^ 53) :
    (n + Time.unixToInternal).toInt = n.toInt + 62135596800 := by
  have hconst : Time.unixToInternal.toInt = 62135596800 := by decide
  rw [Int64.toInt_add, hconst]
  exact Int.bmod_eq_of_le (by omega) (by omega)

theorem unix_lt_of_after {last : Time} {rotatedAt : ℤ} (hdated : last.unix.toInt.natAbs < 2 ^ 53)
    (hclock : 0 < rotatedAt ∧ rotatedAt < 2 ^ 53) (h : (second rotatedAt).after last = true) :
    last.unix.toInt < rotatedAt := by
  have hnow := toInt_clock hclock
  have hsecond : (second rotatedAt).sec.toInt = rotatedAt + 62135596800 := by
    have hsum := toInt_add_unixToInternal (n := Int64.ofInt rotatedAt) (by omega)
    rw [hnow] at hsum
    exact hsum
  have hlast : last.sec.toInt = last.unix.toInt + 62135596800 := by
    have hsum := toInt_add_unixToInternal hdated
    rw [Time.unix, Int64.sub_add_cancel] at hsum
    exact hsum
  rw [Time.after_iff, Time.nanos, Time.nanos, hsecond, hlast] at h
  have hzero : ((second rotatedAt).nsec.val : ℤ) = 0 := rfl
  omega

structure Shown (rt : Runtime) (lower : String → String) (a : String) (r : Relay)
    (rec : IdentityRecord) : Prop where
  stored : r.records.getIdentityBytes a = some (rt.identityRecord.marshal rec.toProto)
  read : IdentityRecord.fromProtoBytes rt (rt.identityRecord.marshal rec.toProto) = some rec
  address : rec.address = a
  verified : rec.verify rt = true
  chain : verifyRotationChain rt rec = .ok ()
  asks : BrowserAsksChain lower a (rec.rotationChain.map RotationEntry.toProto)

theorem ne_empty_of_valid (h : validateAddress a = true) : a ≠ "" := by
  rintro rfl
  exact absurd h (by decide)

theorem reencodes_of_read {rec : IdentityRecord} {data : Bytes}
    (h : IdentityRecord.fromProtoBytes rt data = some rec) :
    Reencodes (rec.rotationChain.map RotationEntry.toProto) := by
  intro pb hpb cred hcred
  obtain ⟨e, he, rfl⟩ := List.mem_map.mp hpb
  have hsame : e.reread = e :=
    List.map_inj_left.mp ((reread_of_fromProtoBytes h).trans (List.map_id _).symm) e he
  have hdevice : e.deviceCredential.map (fun cred => Credential.fromProto cred.toProto) =
      e.deviceCredential :=
    congrArg RotationEntry.deviceCredential hsame
  obtain ⟨cred', hcred', rfl⟩ := Option.map_eq_some_iff.mp hcred
  rw [hcred', Option.map_some] at hdevice
  rw [Option.some.inj hdevice]

variable (rt) in
theorem decode_identityRecord (rec : IdentityRecord) :
    (decoders rt).identityRecord (toBase64 (rt.identityRecord.marshal rec.toProto)) =
      some (decodedRecord rt rec.toProto) := by
  unfold decoders toBase64
  dsimp only
  rw [String.toList_ofList, Base64.decode_encode, Option.bind_some, Codec.unmarshal_marshal,
    Option.map_some]

theorem Shown.accepted {r : Relay} {rec : IdentityRecord} (h : Shown rt lower a r rec) :
    Accepted (browser rt lower) a (decodedRecord rt rec.toProto) := by
  have hlast : ∀ pb, (rec.rotationChain.map RotationEntry.toProto).getLast? = some pb →
      ∃ last, rec.rotationChain.getLast? = some last ∧ last.toProto = pb := by
    intro pb hpb
    rw [List.getLast?_map] at hpb
    exact Option.map_eq_some_iff.mp hpb
  refine ⟨?_, ?_, ?_⟩
  · exact congrArg lower h.address
  · obtain ⟨hkey, hsig⟩ := verifyCtx_ed25519 h.verified
    unfold VerifyRotation.verifySelfSignature
    rw [Bool.and_eq_true, Bool.and_eq_true]
    refine ⟨⟨?_, ?_⟩, h.verified⟩
    · exact beq_iff_eq.mpr hkey
    · exact beq_iff_eq.mpr (Fixed.length_val _)
  · have hread := h.read
    rw [IdentityRecord.fromProtoBytes, Codec.unmarshal_marshal, Option.bind_some] at hread
    obtain ⟨hshared, -⟩ := (node_record_iff (reencodes_of_read h.read)).mp ⟨rec, hread, h.chain⟩
    refine browser_record_iff.mpr ⟨hshared, ?_, ?_⟩
    · rw [show rec.toProto.address = a from h.address]
      exact h.asks
    · intro pb hpb
      obtain ⟨last, hlast', rfl⟩ := hlast pb hpb
      obtain ⟨-, -, -, hmailbox, hrevision⟩ := verifyRotationChain_last h.chain hlast'
      refine ⟨congrArg Fixed.val hmailbox, ?_⟩
      rw [show last.toProto.nextRevision = rec.toProto.revision from hrevision]

structure Marked (rt : Runtime) (a : String) (pinned : Bytes) (r : Relay)
    (signer : IdentityKeyPair) : Prop where
  own : Own rt signer
  named : a ≠ ""
  stored : ∃ rotatedAt prior retired,
    r.records.getRemovalBytes a =
      some (rt.addressRemovalRecord.marshal
        (tombstoneOf rt signer rotatedAt a prior retired).toProto) ∧
    pinned ∈ (tombstoneOf rt signer rotatedAt a prior retired).keys ∧
    (∀ rm, prior = some rm → rm.revision.toNat < 2 ^ 53) ∧ rotatedAt.natAbs < 2 ^ 53

section Tombstone

variable {signer : IdentityKeyPair} {rotatedAt : ℤ} {prior : Option AddressRemovalRecord}
  {retired : Bytes}

variable (rt a signer rotatedAt prior retired) in
theorem toProto_tombstoneOf :
    ({ (tombstoneOf rt signer rotatedAt a prior retired).toProto with selfSignature := [] } :
    Pb.AddressRemovalRecord) = unsignedRemoval rotatedAt a
      (prior.map fun rm => RemovalState.of rm.toProto) retired := by
  simp [tombstoneOf, signRemoval, AddressRemovalRecord.toProto, AddressRemovalRecord.fromProto,
    RemovedBinding.toProto, RemovedBinding.fromProto, Function.comp_def, unsignedRemoval]

theorem storedRemovalAny_tombstoneOf {rs : RecordStore} (hnamed : a ≠ "")
    (h : rs.getRemovalBytes a =
    some (rt.addressRemovalRecord.marshal
      (tombstoneOf rt signer rotatedAt a prior retired).toProto)) :
    rs.storedRemovalAny rt a = some (tombstoneOf rt signer rotatedAt a prior retired) := by
  have hmsg : (tombstoneOf rt signer rotatedAt a prior retired).toProto ≠ default :=
    fun hdefault => hnamed (congrArg Pb.AddressRemovalRecord.address hdefault)
  have hfile : rs.get .removal a = _ := h
  unfold RecordStore.storedRemovalAny
  rw [hfile, Option.bind_some, if_neg]
  · exact (AddressRemovalRecord.fromProtoBytes_marshal rt _).trans
      (congrArg some (AddressRemovalRecord.fromProto_toProto_fromProto _))
  · rw [List.isEmpty_iff]
    exact rt.addressRemovalRecord.marshal_ne_nil hmsg

theorem signableBytes_decodedRemoval
    (hrevision : ∀ rm, prior = some rm → rm.revision.toNat < 2 ^ 53)
    (hat : rotatedAt.natAbs < 2 ^ 53) :
    (decodedRemoval rt (tombstoneOf rt signer rotatedAt a prior retired).toProto).signableBytes =
      encodeRemovalSignableBytes rt
        (unsignedRemoval rotatedAt a (prior.map fun rm => RemovalState.of rm.toProto) retired) := by
  let base := unsignedRemoval rotatedAt a (prior.map fun rm => RemovalState.of rm.toProto) retired
  have hnow : Int64.ofInt (Js.number (Int64.ofInt rotatedAt).toInt) = Int64.ofInt rotatedAt := by
    rw [Int64.toInt_ofInt_of_le (by omega) (by omega), Js.number_of_lt hat]
  -- the times listed before were numbers when they were signed, and are the same numbers now
  have hbindings : (numbered base).removedBindings = base.removedBindings := by
    change ((((prior.map fun rm => RemovalState.of rm.toProto).map
      RemovalState.removedBindings).getD [] ++ [(retired, rotatedAt)]).map fun b =>
        (⟨b.1, Int64.ofInt b.2⟩ : Pb.RemovedBinding)).map _ = _
    rw [List.map_map]
    refine List.map_congr_left fun b hb => ?_
    rcases List.mem_append.mp hb with hold | hnew
    · cases prior with
      | none => exact absurd hold List.not_mem_nil
      | some rm =>
        obtain ⟨listed, -, rfl⟩ := List.mem_map.mp hold
        change (⟨listed.ed25519PublicKey, _⟩ : Pb.RemovedBinding) = ⟨listed.ed25519PublicKey, _⟩
        rw [int64_number_again]
    · rw [List.mem_singleton.mp hnew]
      change (⟨retired, _⟩ : Pb.RemovedBinding) = ⟨retired, _⟩
      rw [hnow]
  have hnumber : (numbered base).revision = base.revision := by
    have hvalue : base.revision = (prior.map AddressRemovalRecord.revision).getD 0 + 1 :=
      revision_tombstoneOf rt signer rotatedAt a retired hrevision
    have hprior : ((prior.map AddressRemovalRecord.revision).getD 0).toNat < 2 ^ 53 := by
      cases prior with
      | none => decide
      | some rm => exact hrevision rm rfl
    have hsmall : base.revision.toNat ≤ 2 ^ 53 := by
      rw [hvalue, UInt64.toNat_add]
      exact (Nat.mod_le _ _).trans hprior
    change UInt64.ofNat (Js.number base.revision.toNat).toNat = base.revision
    rw [Js.number_of_le (by omega), Int.toNat_natCast, UInt64.ofNat_toNat]
  have hcreated : (numbered base).createdAt = base.createdAt := hnow
  have hsame : numbered base = base :=
    calc numbered base = ⟨base.version, base.domain, base.address, (numbered base).removedBindings,
      (numbered base).revision,
        (numbered base).createdAt, base.selfSignature⟩ := rfl
      _ = base := by rw [hbindings, hnumber, hcreated]
  change rt.addressRemovalRecord.marshalDeterministic (numbered
    { (tombstoneOf rt signer rotatedAt a prior retired).toProto with selfSignature := [] }) = _
  rw [toProto_tombstoneOf, hsame]
  rfl

end Tombstone

theorem declaredStolen_eq {b : Browser} {decode : Decoders} {address pinned text : String}
    {rec : DecodedRecord} {rm : DecodedRemoval} {hit : Pb.RemovedBinding}
    (hgiven : given (some text) = some text) (hdecoded : decode.addressRemoval text = some rm)
    (haddress : b.toLowerCase rm.address = b.toLowerCase address)
    (hfind : (rm.removedBindings.find? fun binding => toBase64 binding.ed25519PublicKey = pinned) =
      some hit) :
    declaredStolen b decode address pinned rec (some text) =
      if b.verify rec.ed25519PublicKey (removalSigningBytes rm) rm.selfSignature
      then some (some (Js.number hit.removedAt.toInt))
      else some none := by
  unfold declaredStolen
  rw [hgiven]
  dsimp only
  rw [hdecoded]
  dsimp only
  rw [if_neg (not_not.mpr haddress), hfind]

variable (lower) in
theorem Marked.declaredStolen {r : Relay} {pinned : Bytes} {signer : IdentityKeyPair}
    (h : Marked rt a pinned r signer) (rec : IdentityRecord) :
    ∃ at', Lineage.declaredStolen (browser rt lower) (decoders rt) a (toBase64 pinned)
      (decodedRecord rt rec.toProto) ((files r.records a).2.2.map toBase64) =
      some (if rec.ed25519Public = signer.ed25519Public then some at' else none) := by
  obtain ⟨rotatedAt, prior, retired, hstored, hlisted, hrevision, hat⟩ := h.stored
  let rm := tombstoneOf rt signer rotatedAt a prior retired
  have hmsg : rm.toProto ≠ default :=
    fun hdefault => h.named (congrArg Pb.AddressRemovalRecord.address hdefault)
  have hdecoded :
      (decoders rt).addressRemoval (toBase64 (rt.addressRemovalRecord.marshal rm.toProto)) =
      some (decodedRemoval rt rm.toProto) := by
    unfold decoders toBase64
    dsimp only
    rw [String.toList_ofList, Base64.decode_encode, Option.bind_some, Codec.unmarshal_marshal,
      Option.map_some]
  have hgiven : given (some (toBase64 (rt.addressRemovalRecord.marshal rm.toProto))) =
      some (toBase64 (rt.addressRemovalRecord.marshal rm.toProto)) := by
    refine Option.filter_eq_some_iff.mpr ⟨rfl, decide_eq_true fun hempty => ?_⟩
    have hnil : toBase64 (rt.addressRemovalRecord.marshal rm.toProto) = toBase64 [] := hempty
    exact rt.addressRemovalRecord.marshal_ne_nil hmsg (toBase64_injective hnil)
  have hverify : (browser rt lower).verify rec.ed25519Public
      (removalSigningBytes (decodedRemoval rt rm.toProto))
      rm.toProto.selfSignature = true ↔ rec.ed25519Public = signer.ed25519Public := by
    have hsig : rm.toProto.selfSignature = _ :=
      selfSignature_tombstoneOf rotatedAt a prior retired h.own
    rw [removalSigningBytes, signableBytes_decodedRemoval hrevision hat, hsig]
    constructor
    · exact h.own.only _ _
    · intro heq
      rw [heq]
      exact h.own.signs _
  -- the pinned key is among the bindings that the browser reads
  obtain ⟨hit, hfind⟩ : ∃ hit, (decodedRemoval rt rm.toProto).removedBindings.find?
      (fun binding => toBase64 binding.ed25519PublicKey = toBase64 pinned) = some hit := by
    obtain ⟨binding, hbinding, rfl⟩ := List.mem_map.mp hlisted
    refine Option.isSome_iff_exists.mp
      (List.find?_isSome.mpr ⟨binding.toProto, List.mem_map_of_mem hbinding, ?_⟩)
    exact decide_eq_true rfl
  have hfile : (files r.records a).2.2 = some (rt.addressRemovalRecord.marshal rm.toProto) :=
    hstored
  have haddress : (browser rt lower).toLowerCase (decodedRemoval rt rm.toProto).address =
      (browser rt lower).toLowerCase a := rfl
  refine ⟨Js.number hit.removedAt.toInt, ?_⟩
  rw [hfile, Option.map_some, declaredStolen_eq hgiven hdecoded haddress hfind]
  change (if (browser rt lower).verify rec.ed25519Public
    (removalSigningBytes (decodedRemoval rt rm.toProto))
    rm.toProto.selfSignature = true then _ else _) = _
  by_cases hkey : rec.ed25519Public = signer.ed25519Public
  · rw [if_pos (hverify.mpr hkey), if_pos hkey]
  · rw [if_neg (fun htrue => hkey (hverify.mp htrue)), if_neg hkey]

theorem Shown.explained {r : Relay} {rec : IdentityRecord} (h : Shown rt lower a r rec)
    (pinned : Bytes) :
    explained rt lower r a pinned = explainKeyChange (browser rt lower) (decoders rt) a
      (toBase64 pinned)
      ⟨toBase64 (rt.identityRecord.marshal rec.toProto), (files r.records a).2.1.map toBase64,
        (files r.records a).2.2.map toBase64⟩ := by
  have hfile : (files r.records a).1 = some (rt.identityRecord.marshal rec.toProto) := h.stored
  unfold Rekeying.explained served
  rw [hfile]
  rfl

section Shown

variable {r : Relay} {rec : IdentityRecord} {pinned : Bytes} {signer : IdentityKeyPair}
  (hshown : Shown rt lower a r rec)
  (hmarked : Marked rt a pinned r signer)

include hshown hmarked

/-- The reader is told that the key was reported stolen exactly while the record is under the key
that has signed the tombstone. -/
theorem reported_iff : Reported rt lower a pinned r ↔ rec.ed25519Public = signer.ed25519Public := by
  obtain ⟨at', hdeclared⟩ := hmarked.declaredStolen lower rec
  have htold : ∀ stolenAt, explained rt lower r a pinned = some (.reportedStolen stolenAt) ↔
      (if rec.ed25519Public = signer.ed25519Public then some at' else none) = some stolenAt := by
    intro stolenAt
    rw [hshown.explained, reportedStolen_iff (decode_identityRecord rt rec) hshown.accepted]
    dsimp only
    rw [hdeclared, Option.some.injEq]
  unfold Reported
  simp only [htold]
  by_cases hkey : rec.ed25519Public = signer.ed25519Public
  · simp [hkey]
  · simp [hkey]

theorem replaced_of_other_key {at' : ℤ} (hkey : rec.ed25519Public ≠ signer.ed25519Public)
    (hretired : retiredAt (decodedRecord rt rec.toProto).rotationChain (toBase64 pinned) =
      some ⟨at', false⟩) :
    explained rt lower r a pinned = some (.replaced at') := by
  obtain ⟨_, hdeclared⟩ := hmarked.declaredStolen lower rec
  rw [hshown.explained, replaced_iff (decode_identityRecord rt rec) hshown.accepted]
  refine ⟨?_, ?_⟩
  · dsimp only
    rw [hdeclared, if_neg hkey]
  · unfold retiredInLineage
    rw [hretired]

end Shown

theorem acceptHistory_of_new {rs rs' : RecordStore} {data : Bytes} {rec : AddressHistoryRecord}
    (h : acceptHistory rt rs data = .ok rs')
    (hread : (rt.addressHistoryRecord.unmarshal data).bind AddressHistoryRecord.fromProto =
      some rec)
    (hnew : ∀ prior, priorHistory rt rs rec.address = some prior →
      chainsEqual prior.chain rec.chain = false) :
    rec.verify rt = .ok () ∧ rs' = rs.putHistory rt rec := by
  simp only [acceptHistory, need_bind, unit_bind, refuse_eq_ok, require_eq_ok, wrap_eq_ok] at h
  obtain ⟨pb, hpb, rec', hrec', -, -, live, -, hverified, h⟩ := h
  rw [hpb, Option.bind_some, hrec'] at hread
  obtain rfl := Option.some.inj hread
  have hwrites : ¬ (priorHistory rt rs rec'.address).elim false
      (fun p => chainsEqual p.chain rec'.chain) = true := by
    cases hprior : priorHistory rt rs rec'.address with
    | none => simp
    | some prior => simp [hnew prior hprior]
  rw [if_neg hwrites] at h
  simp only [unit_bind, require_eq_ok, pure_eq_ok] at h
  exact ⟨hverified, h.2.2.symm⟩

section Turn

variable {r : Relay} {t : Turn} {rec : IdentityRecord}

theorem Standing.holds {current : IdentityKeyPair} {sib : SiblingInput}
    (hstanding : Standing rt lower a r rec) (hreads : ReadsAddress rt r current sib rec)
    (haddress : sib.address = a) : Holds rt r current sib rec := by
  rw [← haddress] at hstanding
  exact ⟨hstanding.held, hstanding.address, hreads.key, hreads.mailboxKey, hreads.state,
    hreads.history, hstanding.complete, hstanding.lands, hreads.revision, hreads.createdAt,
      hreads.expiresAt⟩

structure Turn.Sent (rt : Runtime) (t : Turn) (rec : IdentityRecord) (e : RotationEntry)
    (sent : IdentityRecord) : Prop where
  built : Built rt rec (rotation t.inputs t.next t.rotatedAt t.cred t.devicePriv rec) e
  entry : (rekey rt t.inputs t.next t.rotatedAt t.cred.toProto t.sib.address t.sib.record).1 =
    e.toProto
  read : IdentityRecord.fromProtoBytes rt (t.record rt).data = some sent
  reload : Reloaded (successor rt t.next rec e) sent
  inherits : inherited sent = inherited rec
  verified : sent.verify rt = true

theorem Turn.Taken.sent (hfiled : Filed rt r.records) (h : t.Taken rt anchor a r)
    (hstanding : Standing rt lower a r rec) :
    ∃ e sent, t.Sent rt rec e sent ∧
      (r.push rt anchor (t.record rt)).records = r.records.putIdentity rt sent := by
  have hholds := hstanding.holds (h.reads rec hstanding.held) h.address
  obtain ⟨e, hbuild, he⟩ := hholds.entry t.rotatedAt h.signers hfiled
  obtain ⟨sent, hread, hsent⟩ := hholds.sent h.signers hfiled he
  obtain ⟨data, -, hparsed⟩ := Option.bind_eq_some_iff.mp hholds.held
  obtain ⟨sent', hadm⟩ := (acceptRecord_identity_iff rfl).mp h.record
  obtain rfl : sent' = sent := Option.some.inj (hadm.parsed.symm.trans hread)
  refine ⟨e, sent', ⟨?_, he, hread, ?_, ?_, hadm.verified⟩, (acceptRecord_identity rfl hadm).2⟩
  · exact built_of_buildRotation (hholds.ready t.rotatedAt h.signers) hbuild
  · exact reloaded_of_fromProtoBytes hsent
  · exact inherited_sent hsent hparsed

theorem Turn.Taken.history_read (h : t.Taken rt anchor a r) (hstanding : Standing rt lower a r rec)
    {e : RotationEntry} {sent : IdentityRecord} (hsent : t.Sent rt rec e sent)
    (hread : (heldHistory rt r.records a).map RotationEntry.reread = heldHistory rt r.records a) :
    (rt.addressHistoryRecord.unmarshal (t.history rt).data).bind AddressHistoryRecord.fromProto =
      some ⟨1, domainPart a, a, heldHistory rt r.records a ++ [e.reread]⟩ := by
  have hprior : t.sib.priorHistory ++ [e.toProto] = (heldHistory rt r.records a ++ [e]).map
      RotationEntry.toProto := by
    rw [(h.reads rec hstanding.held).history, h.address, List.map_append]
    rfl
  have hdata : (t.history rt).data = encodeHistory rt a (t.sib.priorHistory ++ [e.toProto]) := by
    rw [← hsent.entry, ← h.address]
    rfl
  rw [hdata, hprior]
  unfold encodeHistory
  rw [Codec.unmarshal_deterministic, Option.bind_some, AddressHistoryRecord.fromProto]
  dsimp only
  rw [rotationChainFromProto_eq_reread, Option.map_some, List.map_append, hread]
  rfl

structure Turn.Left (rt : Runtime) (a : String) (r s : Relay) (e : RotationEntry)
    (sent : IdentityRecord) : Prop where
  identity : s.records.getIdentityBytes a = some (rt.identityRecord.marshal sent.toProto)
  history : heldHistory rt s.records a = heldHistory rt r.records a ++ [e.reread]
  links : verifyChainLinks rt (heldHistory rt r.records a ++ [e.reread]) a = .ok ()

theorem Turn.Taken.left (hreach : r.Reachable rt anchor) (h : t.Taken rt anchor a r)
    (hstanding : Standing rt lower a r rec) :
    ∃ e sent, t.Sent rt rec e sent ∧ Turn.Left rt a r (t.filed rt anchor r) e sent ∧
      (t.filed rt anchor r).records.getRemovalBytes a = r.records.getRemovalBytes a := by
  obtain ⟨e, sent, hsent, hrecords⟩ := h.sent hreach.filed hstanding
  have haddress : sent.address = a :=
    hsent.reload.address.trans (hreach.filed.identity a rec hstanding.held).1
  obtain ⟨-, -, hreread⟩ := heldHistory_verified hreach a
  have hrecorded : files (t.recorded rt anchor r).records a =
      (some (rt.identityRecord.marshal sent.toProto), (files r.records a).2) := by
    refine (files_run h.afterRecord).trans ?_
    rw [hrecords, ← haddress]
    exact files_putIdentity rt _ _
  have hheld : (t.recorded rt anchor r).records.getHistory rt a = r.records.getHistory rt a :=
    getHistory_congr (congrArg (fun f => f.2.1) hrecorded)
  -- the history goes on, so it is not the one there is
  have hnew : ∀ prior, priorHistory rt (t.recorded rt anchor r).records a = some prior →
      chainsEqual prior.chain (heldHistory rt r.records a ++ [e.reread]) = false := by
    intro prior hprior
    have hchain : heldHistory rt r.records a = prior.chain := by
      rw [heldHistory, ← hheld, (priorHistory_eq_some.mp hprior).1]
      rfl
    rw [hchain, chainsEqual, beq_eq_false_iff_ne, List.map_append]
    intro heq
    have hlength := congrArg List.length heq
    rw [List.length_append, List.length_map, List.length_map] at hlength
    exact absurd hlength (by simp)
  obtain ⟨rs, hok⟩ : ∃ rs, acceptHistory rt (t.recorded rt anchor r).records (t.history rt).data =
      .ok rs :=
    (commit_verdict _ _).mp h.history
  have hparse := h.history_read hstanding hsent hreread
  obtain ⟨hverified, rfl⟩ := acceptHistory_of_new hok hparse hnew
  have hstored : ((t.recorded rt anchor r).push rt anchor (t.history rt)).records =
      (t.recorded rt anchor r).records.putHistory rt
        ⟨1, domainPart a, a, heldHistory rt r.records a ++ [e.reread]⟩ := by
    have hpush : (t.recorded rt anchor r).push rt anchor (t.history rt) =
        ((t.recorded rt anchor r).commit
          (acceptHistory rt (t.recorded rt anchor r).records (t.history rt).data)).1 := rfl
    rw [hpush, hok]
    rfl
  have hkept := files_run h.afterHistory
  rw [hstored] at hkept
  have hfiles := hkept.trans (files_putHistory rt (t.recorded rt anchor r).records _)
  rw [hrecorded] at hfiles
  refine ⟨e, sent, hsent,
    ⟨congrArg Prod.fst hfiles, ?_, (AddressHistoryRecord.verify_eq_ok.mp hverified).2.2.2⟩,
    congrArg (fun f => f.2.2) hfiles⟩
  obtain ⟨pb, -, hpb⟩ := Option.bind_eq_some_iff.mp hparse
  have hread : (t.filed rt anchor r).records.getHistory rt a = some _ :=
    (getHistory_congr (congrArg (fun f => f.2.1) hkept)).trans
      ((getHistory_putHistory hpb a).trans (if_pos rfl))
  unfold heldHistory
  rw [hread]
  rfl

section Left

variable {s : Relay} {e : RotationEntry} {sent : IdentityRecord} (hreach : r.Reachable rt anchor)
  (hstanding : Standing rt lower a r rec) (h : t.Taken rt anchor a r) (hsent : t.Sent rt rec e sent)
  (hleft : Turn.Left rt a r s e sent)

include hreach hstanding hsent in
theorem Turn.Sent.chain : sent.rotationChain = retained
    (heldHistory rt r.records a ++ [e.reread]) := by
  obtain ⟨-, -, hread⟩ := heldHistory_verified hreach a
  have hmap : ((heldHistory rt r.records a).rtake 7).map RotationEntry.reread =
      (heldHistory rt r.records a).rtake 7 := by
    rw [List.rtake, List.map_drop, hread]
  rw [hsent.reload.chain]
  change (appendRotation rec e).map RotationEntry.reread = _
  rw [appendRotation_eq, hstanding.complete, rtake_retained, List.map_append, hmap, retained,
    maxRotationChain, List.rtake_concat_succ]
  rfl

include hreach hstanding hsent in
theorem Turn.Sent.getLast? : sent.rotationChain.getLast? = some e.reread := by
  rw [hsent.chain hreach hstanding, getLast?_retained, List.getLast?_concat]

include hreach hstanding hsent in
theorem Turn.Sent.lands (last : RotationEntry) (hlast : sent.rotationChain.getLast? = some last) :
    last.nextEd25519Public = sent.ed25519Public ∧ last.nextX25519Public = sent.x25519Public ∧
      last.nextRevision = sent.revision := by
  obtain rfl : e.reread = last :=
    Option.some.inj ((hsent.getLast? hreach hstanding).symm.trans hlast)
  rw [hsent.reload.key, hsent.reload.mailboxKey, hsent.reload.revision]
  exact ⟨hsent.built.nextKey, hsent.built.nextMailboxKey, hsent.built.nextRevision⟩

include hreach hstanding h hsent hleft in
theorem Turn.Left.asks : BrowserAsksChain lower a
    (sent.rotationChain.map RotationEntry.toProto) := by
  have hreads := h.reads rec hstanding.held
  have haddress := (hreach.filed.identity a rec hstanding.held).1
  have hnow := toInt_clock h.clock
  have hat : e.reread.toProto.rotatedAt = Int64.ofInt t.rotatedAt := by
    have hsecond : e.rotatedAt = second t.rotatedAt := hsent.built.rotatedAt
    exact (Time.unix_wholeSecond _).trans ((congrArg Time.unix hsecond).trans (Time.unix_ofUnix _))
  have hkept : ((heldHistory rt r.records a).rtake 7).map RotationEntry.toProto <:+
      (retained (heldHistory rt r.records a)).map RotationEntry.toProto := by
    rw [← rtake_retained]
    exact (List.drop_suffix _ _).map _
  have hasks := hstanding.asks
  rw [hstanding.complete] at hasks
  rw [hsent.chain hreach hstanding, retained, maxRotationChain, List.rtake_concat_succ,
    List.map_append, List.map_singleton]
  constructor
  · intro pb hpb
    rcases List.mem_append.mp hpb with hold | hnew
    · exact hasks.entries pb (hkept.mem hold)
    · rw [List.mem_singleton.mp hnew]
      refine ⟨?_, ?_, ?_⟩
      · exact fun hempty => ne_empty_of_valid hstanding.address
          ((hsent.built.address.trans haddress).symm.trans hempty)
      · rw [hat]
        intro hzero
        rw [hzero] at hnow
        exact absurd h.clock.1 (by rw [← hnow]; decide)
      · exact congrArg lower (hsent.built.address.trans haddress)
  · refine List.isChain_append.mpr ⟨hasks.links.suffix hkept, .singleton _, ?_⟩
    intro prev hprev pb hpb
    obtain rfl : e.reread.toProto = pb := Option.some.inj hpb
    obtain ⟨last, hlast, rfl⟩ : ∃ last, (heldHistory rt r.records a).getLast? = some last ∧
        last.toProto = prev := by
      have hmem : ((heldHistory rt r.records a).rtake 7).getLast?.map RotationEntry.toProto =
          some prev :=
        (List.getLast?_map ..).symm.trans hprev
      rw [getLast?_rtake] at hmem
      exact Option.map_eq_some_iff.mp hmem
    have hend : rec.rotationChain.getLast? = some last := by
      rw [hstanding.complete, getLast?_retained]
      exact hlast
    obtain ⟨-, hlink⟩ := verifyLinksAfter_concat.mp hleft.links
    rw [Option.or_none, hlast] at hlink
    simp only [verifyLink, RotationEntry.continues, unit_bind, require_eq_ok, refuse_eq_ok] at hlink
    constructor
    · have hlater : last.rotatedAt.unix.toInt < t.rotatedAt := by
        refine unix_lt_of_after (hstanding.dated last hend) h.clock ?_
        have hafter : e.reread.rotatedAt.after last.rotatedAt = true := hlink.2.2.2.2.1
        have hsecond : e.reread.rotatedAt = second t.rotatedAt := by
          change e.rotatedAt.wholeSecond = _
          rw [show e.rotatedAt = second t.rotatedAt from hsent.built.rotatedAt]
          exact Time.wholeSecond_ofUnix _
        rw [hsecond] at hafter
        exact hafter
      have hdated := hstanding.dated last hend
      have hclock := h.clock
      rw [hat, hnow, show last.toProto.rotatedAt = last.rotatedAt.unix from rfl,
        Js.number_of_lt hdated, Js.number_of_lt (by omega)]
      exact hlater
    · have hrevision : e.reread.toProto.nextRevision = rec.revision + 1 := hsent.built.nextRevision
      have hreads := (h.reads rec hstanding.held).revision
      have hbefore : last.nextRevision.toNat ≤ rec.revision.toNat :=
        UInt64.le_iff_toNat_le.mp (hstanding.lands last hend).2.2
      have hnext : (rec.revision + 1).toNat = rec.revision.toNat + 1 := by
        rw [UInt64.toNat_add]
        change (rec.revision.toNat + 1) % 2 ^ 64 = _
        omega
      rw [hrevision, hnext, show last.toProto.nextRevision = last.nextRevision from rfl,
        Js.number_of_le (by omega), Js.number_of_le (by omega)]
      omega

include hreach hstanding h hsent hleft in
theorem Turn.Left.shown : Shown rt lower a s sent := by
  have haddress : sent.address = a :=
    hsent.reload.address.trans (hreach.filed.identity a rec hstanding.held).1
  refine ⟨hleft.identity, IdentityRecord.fromProtoBytes_marshal hsent.read, haddress,
    hsent.verified, ?_, Turn.Left.asks hreach hstanding h hsent hleft⟩
  refine node_record_eq_ok.mpr ⟨?_, ?_, hsent.lands hreach hstanding⟩
  · rw [hsent.chain hreach hstanding, retained, List.rtake, List.length_drop, maxRotationChain]
    omega
  · rw [hsent.chain hreach hstanding, haddress]
    exact verifyChainLinks_drop hleft.links _

include hreach hstanding h hsent hleft in
theorem Turn.Left.standing : Standing rt lower a s sent := by
  refine ⟨?_, hstanding.address, ?_, ?_, Turn.Left.asks hreach hstanding h hsent hleft, ?_⟩
  · have hbytes : s.records.get .identity a = some (rt.identityRecord.marshal sent.toProto) :=
      hleft.identity
    unfold RecordStore.getIdentity
    rw [hbytes]
    exact IdentityRecord.fromProtoBytes_marshal hsent.read
  · rw [hleft.history]
    exact hsent.chain hreach hstanding
  · intro last hlast
    obtain ⟨hkey, hmailbox, hrevision⟩ := hsent.lands hreach hstanding last hlast
    exact ⟨hkey, hmailbox, UInt64.le_of_eq hrevision⟩
  · intro last hlast
    obtain rfl : e.reread = last :=
      Option.some.inj ((hsent.getLast? hreach hstanding).symm.trans hlast)
    have hclock := h.clock
    have hsecond : e.rotatedAt = second t.rotatedAt := hsent.built.rotatedAt
    have hunix : e.reread.rotatedAt.unix = Int64.ofInt t.rotatedAt :=
      (Time.unix_wholeSecond _).trans ((congrArg Time.unix hsecond).trans (Time.unix_ofUnix _))
    rw [hunix, toInt_clock hclock]
    omega

end Left

theorem Turn.Taken.declaration_cases (h : t.Taken rt anchor a r)
    (hstanding : Standing rt lower a r rec) :
    t.declaration rt = none ∧ ¬ t.Declares rt a r ∨
    ∃ d, t.declaration rt = some d ∧ t.Declares rt a r ∧
      AddressRemovalRecord.fromProtoBytes rt d.removal =
      some (tombstoneOf rt t.next t.rotatedAt a (r.records.storedRemovalAny rt a)
        t.inputs.current.ed25519Public) := by
  have hprior := (h.reads rec hstanding.held).removal
  rw [h.address] at hprior
  have hlisted : ((t.sib.priorRemoval.map RemovalState.removedBindings).getD []).any
      (fun b => b.1 == t.inputs.current.ed25519Public) = true ↔
        ∃ rm, r.records.storedRemovalAny rt a = some rm ∧ t.inputs.current.ed25519Public ∈
          rm.keys := by
    rw [hprior]
    cases r.records.storedRemovalAny rt a with
    | none => simp
    | some rm =>
      simp [RemovalState.of, AddressRemovalRecord.toProto, RemovedBinding.toProto,
      AddressRemovalRecord.keys]
  unfold Turn.declaration Turn.Declares
  rw [h.address]
  cases t.inputs.severity with
  | routine => exact .inl ⟨rfl, fun hdeclares => by cases hdeclares.1⟩
  | compromised =>
    cases hsign : signCompromise rt t.next t.rotatedAt a t.sib.priorRemoval
      t.inputs.current.ed25519Public with
    | none =>
      refine .inl ⟨rfl, fun hdeclares => ?_⟩
      unfold signCompromise at hsign
      split at hsign
      · next hany =>
        obtain ⟨rm, hrm, hmem⟩ := hlisted.mp hany
        exact hdeclares.2 rm hrm hmem
      · cases hsign
    | some data =>
      refine .inr ⟨_, rfl, ⟨rfl, fun rm hrm hmem => ?_⟩, ?_⟩
      · unfold signCompromise at hsign
        rw [if_pos (hlisted.mpr ⟨rm, hrm, hmem⟩)] at hsign
        cases hsign
      · rw [hprior] at hsign
        exact signCompromise_eq_some hsign

theorem Turn.Taken.files_after (h : t.Taken rt anchor a r) (hstanding : Standing rt lower a r rec) :
    ¬ t.Declares rt a r ∧ files (t.after rt anchor r).records a =
      files (t.filed rt anchor r).records a ∨
    t.Declares rt a r ∧ files (t.after rt anchor r).records a =
      ((files (t.filed rt anchor r).records a).1, (files (t.filed rt anchor r).records a).2.1,
        some (rt.addressRemovalRecord.marshal
          (tombstoneOf rt t.next t.rotatedAt a (r.records.storedRemovalAny rt a)
          t.inputs.current.ed25519Public).toProto)) := by
  rcases h.declaration_cases hstanding with ⟨hnone, hnot⟩ | ⟨d, hd, hdeclares, hread⟩
  · refine .inl ⟨hnot, ?_⟩
    unfold Turn.after
    rw [hnone]
    rfl
  · refine .inr ⟨hdeclares, ?_⟩
    obtain ⟨rm, dar, hadm⟩ := (acceptRecord_removal_iff rfl).mp (h.declaration d hd)
    obtain rfl := Option.some.inj (hadm.parsed.symm.trans hread)
    have hrecords : ((t.filed rt anchor r).push rt anchor (declare t.now d)).records = _ :=
      (acceptRecord_removal rfl hadm).2
    unfold Turn.after
    rw [hd]
    change files ((t.filed rt anchor r).push rt anchor (declare t.now d)).records a = _
    rw [hrecords]
    exact files_putRemoval rt _ _

/-- After a rotation the address has a record under the new key that the reader takes; the tombstone
is the new key's if the rotation declares, and else what it was. -/
theorem Turn.Taken.after (hreach : r.Reachable rt anchor) (h : t.Taken rt anchor a r)
    (hstanding : Standing rt lower a r rec) :
    ∃ e sent, t.Sent rt rec e sent ∧ Standing rt lower a (t.after rt anchor r) sent ∧
      Shown rt lower a (t.after rt anchor r) sent ∧
      (¬ t.Declares rt a r ∧
          (t.after rt anchor r).records.getRemovalBytes a = r.records.getRemovalBytes a ∨
        t.Declares rt a r ∧ (t.after rt anchor r).records.getRemovalBytes a =
          some (rt.addressRemovalRecord.marshal
            (tombstoneOf rt t.next t.rotatedAt a (r.records.storedRemovalAny rt a)
            t.inputs.current.ed25519Public).toProto)) := by
  obtain ⟨e, sent, hsent, hleft, hremoval⟩ := h.left hreach hstanding
  have hfiles := h.files_after hstanding
  have hkept : (t.after rt anchor r).records.getIdentityBytes a =
      (t.filed rt anchor r).records.getIdentityBytes a ∧
      (t.after rt anchor r).records.getHistoryBytes a =
        (t.filed rt anchor r).records.getHistoryBytes a := by
    rcases hfiles with ⟨-, hsame⟩ | ⟨-, hsame⟩
    all_goals exact ⟨congrArg Prod.fst hsame, congrArg (fun f => f.2.1) hsame⟩
  have hafter : Turn.Left rt a r (t.after rt anchor r) e sent := by
    refine ⟨hkept.1.trans hleft.identity, ?_, hleft.links⟩
    rw [← hleft.history, heldHistory, heldHistory, getHistory_congr hkept.2]
  refine ⟨e, sent, hsent, Turn.Left.standing hreach hstanding h hsent hafter,
    Turn.Left.shown hreach hstanding h hsent hafter, ?_⟩
  rcases hfiles with ⟨hnot, hsame⟩ | ⟨hdeclares, hsame⟩
  · exact .inl ⟨hnot, (congrArg (fun f => f.2.2) hsame).trans hremoval⟩
  · exact .inr ⟨hdeclares, congrArg (fun f => f.2.2) hsame⟩

end Turn

/-- The reader takes the record of the address, and it is under the key that has signed the
tombstone of the pinned one. -/
def Told (rt : Runtime) (anchor : DarAnchor) (lower : String → String) (a : String) (pinned : Bytes)
    (r : Relay) : Prop :=
  r.Reachable rt anchor ∧ ∃ rec signer, Standing rt lower a r rec ∧ Shown rt lower a r rec ∧
    Marked rt a pinned r signer ∧
    rec.ed25519Public = signer.ed25519Public

section Told

variable {r : Relay} {t : Turn} {pinned : Bytes}

theorem Told.reported (h : Told rt anchor lower a pinned r) : Reported rt lower a pinned r := by
  obtain ⟨-, rec, signer, -, hshown, hmarked, hkey⟩ := h
  exact (reported_iff hshown hmarked).mpr hkey

theorem Relay.Reachable.run {r : Relay} (h : r.Reachable rt anchor) (ps : List Push) :
    (Machine.run (Relay.push rt anchor) r ps).Reachable rt anchor := by
  induction ps generalizing r with
  | nil => exact h
  | cons p ps ih => exact ih (h.push p)

theorem Turn.reachable_after (t : Turn) (h : r.Reachable rt anchor) :
    (t.after rt anchor r).Reachable rt anchor :=
  Relay.Reachable.run (Relay.Reachable.run ((Relay.Reachable.run (h.push _) _).push _) _) _

theorem Turn.Taken.marked {rec : IdentityRecord} (h : t.Taken rt anchor a r)
    (hstanding : Standing rt lower a r rec) {s : Relay} (hbytes : s.records.getRemovalBytes a =
      some (rt.addressRemovalRecord.marshal (tombstoneOf rt t.next t.rotatedAt a
      (r.records.storedRemovalAny rt a) t.inputs.current.ed25519Public).toProto))
    (hlisted : (∃ rm, r.records.storedRemovalAny rt a = some rm ∧ pinned ∈ rm.keys) ∨
      pinned = t.inputs.current.ed25519Public) : Marked rt a pinned s t.next := by
  have hclock := h.clock
  refine ⟨h.own, ne_empty_of_valid hstanding.address, _, _, _, hbytes, ?_, ?_, by omega⟩
  · rw [keys_tombstoneOf, List.mem_append]
    rcases hlisted with ⟨rm, hrm, hmem⟩ | rfl
    · left
      rw [hrm]
      exact hmem
    · exact .inr (List.mem_singleton.mpr rfl)
  · have hreads := (h.reads rec hstanding.held).removalRevision
    rw [h.address] at hreads
    exact hreads

theorem Marked.congr {s : Relay} {signer : IdentityKeyPair} (h : Marked rt a pinned r signer)
    (hbytes : s.records.getRemovalBytes a = r.records.getRemovalBytes a) :
    Marked rt a pinned s signer := by
  obtain ⟨rotatedAt, prior, retired, hstored, hrest⟩ := h.stored
  exact ⟨h.own, h.named, rotatedAt, prior, retired, hbytes.trans hstored, hrest⟩

theorem Marked.listed {signer : IdentityKeyPair} (h : Marked rt a pinned r signer) :
    ∃ rm, r.records.storedRemovalAny rt a = some rm ∧ pinned ∈ rm.keys := by
  obtain ⟨rotatedAt, prior, retired, hstored, hlisted, -⟩ := h.stored
  exact ⟨_, storedRemovalAny_tombstoneOf h.named hstored, hlisted⟩

theorem Told.other {p : Push} (h : Told rt anchor lower a pinned r)
    (hp : LeavesAlone rt anchor a r p) :
    Told rt anchor lower a pinned (r.push rt anchor p) := by
  obtain ⟨hreach, rec, signer, hstanding, hshown, hmarked, hkey⟩ := h
  have hidentity : (r.push rt anchor p).records.getIdentityBytes a = r.records.getIdentityBytes a :=
    congrArg Prod.fst hp
  have hhistory : heldHistory rt (r.push rt anchor p).records a = heldHistory rt r.records a := by
    rw [heldHistory, heldHistory, getHistory_congr (congrArg (fun f => f.2.1) hp)]
  refine ⟨hreach.push p, rec, signer, ?_, ?_, hmarked.congr (congrArg (fun f => f.2.2) hp), hkey⟩
  · refine ⟨(getIdentity_congr hidentity).trans hstanding.held, hstanding.address, ?_,
      hstanding.lands, hstanding.asks, hstanding.dated⟩
    rw [hhistory]
    exact hstanding.complete
  · exact ⟨hidentity.trans hshown.stored, hshown.read, hshown.address, hshown.verified,
      hshown.chain, hshown.asks⟩

theorem Turn.Taken.told {rec : IdentityRecord} (hreach : r.Reachable rt anchor)
    (h : t.Taken rt anchor a r) (hstanding : Standing rt lower a r rec)
    (hdeclares : t.Declares rt a r)
    (hlisted : (∃ rm, r.records.storedRemovalAny rt a = some rm ∧ pinned ∈ rm.keys) ∨
      pinned = t.inputs.current.ed25519Public) : Told rt anchor lower a pinned
      (t.after rt anchor r) := by
  obtain ⟨e, sent, hsent, hstands, hshown, ⟨hnot, -⟩ | ⟨-, hbytes⟩⟩ := h.after hreach hstanding
  · exact absurd hdeclares hnot
  · exact ⟨t.reachable_after hreach, sent, t.next, hstands, hshown,
      h.marked hstanding hbytes hlisted, hsent.reload.key⟩

theorem Told.untold (h : Told rt anchor lower a pinned r) (htaken : t.Taken rt anchor a r)
    (hnot : ¬ t.Declares rt a r) :
    ¬ Reported rt lower a pinned (t.after rt anchor r) := by
  obtain ⟨hreach, rec, signer, hstanding, -, hmarked, hkey⟩ := h
  obtain ⟨e, sent, hsent, -, hshown, ⟨-, hbytes⟩ | ⟨hdeclares, -⟩⟩ := htaken.after hreach hstanding
  · rw [reported_iff hshown (hmarked.congr hbytes), ← hkey, (htaken.reads rec hstanding.held).key]
    intro hsame
    exact htaken.signers.newKey (hsame.symm.trans hsent.reload.key)
  · exact absurd hdeclares hnot

end Told

/-- After a rotation that declares the key A stolen, a reader who has pinned A is told so in every
state that further rotations lead to exactly when each of these declares the key that it retires,
too. -/
theorem always_reported_iff {r : Relay} {t : Turn} {rec : IdentityRecord} {ds : List Deed}
    (hreach : r.Reachable rt anchor) (hstanding : Standing rt lower a r rec)
    (htaken : t.Taken rt anchor a r) (hdeclares : t.Declares rt a r)
    (hlater : Machine.Along (Deed.step rt anchor) (Deed.Taken rt anchor a) (t.after rt anchor r)
      ds) :
    Machine.Throughout (Deed.step rt anchor) (Reported rt lower a t.inputs.current.ed25519Public)
      (t.after rt anchor r) ds ↔
      Machine.Along (Deed.step rt anchor) (Deed.Declares rt a) (t.after rt anchor r) ds := by
  have hfirst : Told rt anchor lower a t.inputs.current.ed25519Public (t.after rt anchor r) :=
    htaken.told hreach hstanding hdeclares (.inr rfl)
  refine Machine.throughout_iff_along_of_seen hlater hfirst (fun s hs => hs.reported) ?_ ?_
  · intro s d hd hs hP
    cases d with
    | other p => exact hs.other hd
    | rekeyed t' =>
      obtain ⟨hreach', rec', signer, hstands, -, hmarked, -⟩ := hs
      exact hd.told hreach' hstands hP (.inl hmarked.listed)
  · intro s d hd hs hnot
    cases d with
    | other p => exact absurd trivial hnot
    | rekeyed t' => exact hs.untold hd hnot

/-! The account of `Aliased`, re-keyed twice; only the first key is declared stolen. -/
namespace Restored

open Aliased

/-- An account under the key, which its domain has no tombstone of, and which may rotate. -/
structure Account (r : Relay) (rec : IdentityRecord) (key : UInt8) : Prop where
  reachable : r.Reachable rt₁ none
  standing : Standing rt₁ id account r rec
  holder : rec.ed25519Public = keyOf key
  mailbox : rec.x25519Public.val = keyOf key
  revision : rec.revision.toNat < 2 ^ 53
  created : rec.createdAt.unix = 0
  expires : rec.expiresAt = default
  domain : r.records.getDAR rt₁ "example.org" = some (.fromProto authority)
  untombstoned : r.records.storedRemoval rt₁ (.fromProto authority) account = none
  removalRevision : ∀ rm, r.records.storedRemovalAny rt₁ account = some rm →
    rm.revision.toNat < 2 ^ 53
  budget : ∀ now sender, (r.rotationLimiter.allow now sender).2 = true

noncomputable def reading (r : Relay) (rec : IdentityRecord) : SiblingInput where
  address := account
  record := .of rec.toProto
  priorHistory := (heldHistory rt₁ r.records account).map RotationEntry.toProto
  priorRemoval := (r.records.storedRemovalAny rt₁ account).map fun rm => RemovalState.of rm.toProto

noncomputable def turn (r : Relay) (rec : IdentityRecord) (key next : UInt8)
    (severity : RotationSeverity) (rotatedAt : ℤ) : Turn where
  inputs :=
    { inputsWith [] with
      current := keyPair key, currentRecord := (reading r rec).record, severity := severity
      priorRemoval := (reading r rec).priorRemoval, priorHistory := (reading r rec).priorHistory }
  next := keyPair next
  rotatedAt := rotatedAt
  cred := enrolled
  devicePriv := keyOf 5
  sib := reading r rec
  now := second rotatedAt
  afterRecord := []
  afterHistory := []

section Account

variable {r : Relay} {rec : IdentityRecord} {key next : UInt8} {severity : RotationSeverity}
  {rotatedAt : ℤ}

theorem signers_turn (h : keyOf key ≠ keyOf next) :
    Signers rt₁ (turn r rec key next severity rotatedAt).inputs (keyPair next) enrolled (keyOf 5)
      where
  device := rfl
  credential := rfl
  decoded := Credential.fromProto_toProto_fromProto _
  subject := signsFor 5
  outgoing := (Stolen.own_keyPair key).signs
  incoming := (Stolen.own_keyPair next).signs
  mailboxKey := length_keyOf next
  newKey := h
  newMailboxKey := h

theorem Account.reads (h : Account r rec key) :
    ReadsAddress rt₁ r (turn r rec key next severity rotatedAt).inputs.current (reading r rec) rec
      where
  key := h.holder
  mailboxKey := h.mailbox
  state := rfl
  history := rfl
  removal := rfl
  revision := h.revision
  removalRevision := h.removalRevision
  createdAt := by
    rw [h.created]
    decide
  expiresAt := by
    rw [h.expires]
    decide

theorem Account.prepared (h : Account r rec key) (hclock : Clock rotatedAt rec)
    (hrule : DomainRule rt₁ (.fromProto authority) enrolled rotatedAt (second rotatedAt)) :
    Prepared rt₁ r (turn r rec key next severity rotatedAt).inputs (keyPair next) rotatedAt enrolled
      (second rotatedAt) (reading r rec) rec (.fromProto authority) where
  holds := h.standing.holds h.reads rfl
  clock := hclock
  authority :=
    (congrArg (r.records.getDAR rt₁) (show domainOf account = "example.org" by decide)).trans
      h.domain
  rule := hrule
  fresh := by
    intro rm hrm
    cases h.untombstoned.symm.trans hrm

theorem Account.ordinary (h : Account r rec key) (now : Time) : Ordinary rt₁ r rec
    (.fromProto authority) now := by
  have haddress : rec.address = account :=
    (h.reachable.filed.identity account rec h.standing.held).1
  refine ⟨?_, DomainAuthorityRecord.reservesLocalPart_nil rfl, ?_, ?_, h.budget _ _⟩
  · rw [haddress]
    decide
  · unfold IdentityRecord.expired
    rw [h.expires]
    rfl
  · rw [haddress]
    intro rm hrm
    cases h.untombstoned.symm.trans hrm

structure Published (r : Relay) (t : Turn) (next : UInt8) (sent : IdentityRecord) : Prop where
  record : (acceptRecord rt₁ none r (t.record rt₁)).2 = .ok ()
  records : (r.push rt₁ none (t.record rt₁)).records = r.records.putIdentity rt₁ sent
  read : IdentityRecord.fromProtoBytes rt₁ (t.record rt₁).data = some sent
  address : sent.address = account
  key : sent.ed25519Public = keyOf next
  history : ∃ rs, acceptHistory rt₁ (r.records.putIdentity rt₁ sent) (t.history rt₁).data = .ok rs

variable (severity) in
theorem Account.published (h : Account r rec key) (hnew : keyOf key ≠ keyOf next)
    (hclock : Clock rotatedAt rec)
    (hrule : DomainRule rt₁ (.fromProto authority) enrolled rotatedAt (second rotatedAt)) :
    ∃ sent, Published r (turn r rec key next severity rotatedAt) next sent := by
  let t := turn r rec key next severity rotatedAt
  have hprepared : Prepared rt₁ r t.inputs (keyPair next) rotatedAt enrolled (second rotatedAt)
      (reading r rec) rec
      (.fromProto authority) := h.prepared hclock hrule
  have hsigners : Signers rt₁ t.inputs (keyPair next) enrolled (keyOf 5) := signers_turn hnew
  have henrolled : Strings.equalFold rt₁.unicode enrolled.address account = true :=
    Strings.equalFold_refl _
  obtain ⟨sent, hadm, haddress, hkey⟩ :=
    hprepared.taken h.reachable length_sha256 hsigners henrolled (h.ordinary _)
  obtain ⟨hok, hrecords⟩ : (acceptRecord rt₁ none r (t.record rt₁)).2 = .ok () ∧
      (r.push rt₁ none (t.record rt₁)).records = r.records.putIdentity rt₁ sent :=
        acceptRecord_identity rfl hadm
  obtain ⟨held, sent', dar, last, haccepts⟩ :=
    (hprepared.admitted_iff h.reachable length_sha256 hsigners).mpr henrolled
  obtain rfl : sent' = sent := Option.some.inj (haccepts.read.symm.trans hadm.parsed)
  exact ⟨sent', hok, hrecords, hadm.parsed, haddress, hkey, haccepts.history⟩

theorem Published.accepted {t : Turn} {sent : IdentityRecord} (h : Published r t next sent) :
    (acceptRecord rt₁ none (r.push rt₁ none (t.record rt₁)) (t.history rt₁)).2 = .ok () := by
  refine (commit_verdict _ _).mpr ?_
  rw [h.records]
  exact h.history

theorem publishes (t : Turn) : Publishes [t.record rt₁, t.history rt₁] := by
  intro p hp
  rcases List.mem_cons.mp hp with rfl | hhistory
  · exact .inl rfl
  · rw [List.mem_singleton.mp hhistory]
    exact .inr rfl

theorem Published.held {t : Turn} {sent : IdentityRecord} (h : Published r t next sent) :
    ((r.push rt₁ none (t.record rt₁)).push rt₁ none (t.history rt₁)).records.getIdentity rt₁
      account = some sent := by
  have hstored : (r.push rt₁ none (t.record rt₁)).records.getIdentity rt₁ account = some sent := by
    rw [h.records, getIdentity_putIdentity h.read]
    exact if_pos h.address.symm
  rcases getIdentity_push rt₁ none (r.push rt₁ none (t.record rt₁)) (t.history rt₁) account with
    hkeep | ⟨_, hkind, -⟩
  · exact hkeep.trans hstored
  · cases hkind

theorem Account.declared (h : Account r rec key) (hnew : keyOf key ≠ keyOf next)
    (hclock : Clock rotatedAt rec) (hrule : DomainRule rt₁ (.fromProto authority) enrolled rotatedAt
      (second rotatedAt)) (d : CompromiseDeclaration)
    (hd : (turn r rec key next severity rotatedAt).declaration rt₁ = some d) :
    (acceptRecord rt₁ none ((turn r rec key next severity rotatedAt).filed rt₁ none r)
      (declare (second rotatedAt) d)).2 =
      .ok () := by
  let t := turn r rec key next severity rotatedAt
  let tomb := tombstoneOf rt₁ (keyPair next) rotatedAt account
    (r.records.storedRemovalAny rt₁ account) (keyOf key)
  have hdomain : domainOf account = "example.org" := by decide
  obtain ⟨hremoval, hdar⟩ := published_frame rt₁ none (r := r) (publishes t)
  obtain ⟨sent, hpublished⟩ := h.published severity hnew hclock hrule
  have hheld : (t.filed rt₁ none r).records.getIdentity rt₁ account = some sent := hpublished.held
  have hread : AddressRemovalRecord.fromProtoBytes rt₁ d.removal = some tomb := by
    cases severity with
    | routine => cases hd
    | compromised =>
      obtain ⟨data, hdata, rfl⟩ := Option.map_eq_some_iff.mp hd
      exact signCompromise_eq_some hdata
  refine (acceptRecord_removal_iff rfl).mpr
    ⟨tomb, _, hread, show account ≠ "" by decide, show "example.org" ≠ "" by decide, ?_,
    (hdar _).trans h.domain, .inr ?_, ?_⟩
  · change Strings.equalFold _ "example.org" (domainOf account) = true
    rw [hdomain]
    exact Strings.equalFold_refl _
  · unfold ownerSignedBy
    rw [show tomb.address = account from rfl, hheld]
    simp only [removalIsOwnerSigned, Bool.and_eq_true, hpublished.address]
    refine ⟨⟨?_, Strings.equalFold_refl _⟩, (verify_own (Stolen.own_keyPair next)).mpr
      hpublished.key⟩
    rw [hpublished.key, Bool.not_eq_true', List.isEmpty_eq_false_iff, ← List.length_pos_iff,
      length_keyOf]
    decide
  · intro existing hexisting
    have hprior : r.records.storedRemovalAny rt₁ account = some existing :=
      (hremoval account).symm.trans hexisting
    have hrevision :=
      revision_tombstoneOf rt₁ (keyPair next) rotatedAt account (keyOf key) h.removalRevision
    refine ⟨fun hroot => ?_, ?_, ?_⟩
    · cases h.untombstoned.symm.trans (storedRemoval_eq_some.mpr ⟨hprior, hroot⟩)
    · have hsmall := h.removalRevision existing hprior
      rw [hrevision, hprior]
      exact UInt64.le_of_lt (succ_revision hsmall)
    · rw [keys_tombstoneOf, hprior]
      exact List.subset_append_left _ _

theorem Account.taken (h : Account r rec key) (hnew : keyOf key ≠ keyOf next)
    (hclock : Clock rotatedAt rec) (hrule : DomainRule rt₁ (.fromProto authority) enrolled rotatedAt
      (second rotatedAt)) (hpositive : 0 < rotatedAt) :
    (turn r rec key next severity rotatedAt).Taken rt₁ none account r := by
  obtain ⟨sent, hpublished⟩ := h.published severity hnew hclock hrule
  refine ⟨signers_turn hnew, Stolen.own_keyPair next, List.mem_cons_self .., rfl, ?_,
    ⟨hpositive, hclock.sane.2⟩, hpublished.record, trivial, hpublished.accepted, trivial,
      h.declared hnew hclock hrule⟩
  intro rec' hheld
  obtain rfl : rec = rec' := Option.some.inj (h.standing.held.symm.trans hheld)
  exact h.reads

end Account

theorem first : Account relay (record account) 2 where
  reachable := Aliased.reachable
  standing := by
    refine ⟨getIdentity_relay (.inl rfl),
      by decide, ?_, fun last hlast => ?_, ⟨fun e he => ?_, .nil⟩, fun last hlast => ?_⟩
    · rw [Aliased.heldHistory_relay]
      rfl
    · cases hlast
    · cases he
    · cases hlast
  holder := rfl
  mailbox := Fixed.val_copy_of_length (length_keyOf 2)
  revision := show 1 < 2 ^ 53 by decide
  created := show (Time.ofUnix 0).unix = 0 by decide
  expires := rfl
  domain := getDAR_relay
  untombstoned := by
    unfold RecordStore.storedRemoval
    rw [Aliased.storedRemovalAny_relay]
    rfl
  removalRevision := by
    intro rm hrm
    cases (Aliased.storedRemovalAny_relay account).symm.trans hrm
  budget := by
    intro now sender
    rw [relay_eq]
    rfl

theorem domainRule_later : DomainRule rt₁ (.fromProto authority) enrolled 300 (second 300) where
  allowed := by decide
  role := by decide
  chain := verifyCredential_enrolled
  notAhead := by decide
  tenure := by decide

noncomputable def away : Turn := turn relay (record account) 2 3 .compromised 200

theorem clock_away : Clock 200 (record account) := ⟨by decide, fun last hlast => by cases hlast⟩

theorem taken_away : away.Taken rt₁ none account relay :=
  first.taken (by decide) clock_away domainRule (by decide)

theorem declares_away : away.Declares rt₁ account relay := by
  refine ⟨rfl, fun rm hrm => ?_⟩
  cases (Aliased.storedRemovalAny_relay account).symm.trans hrm

noncomputable def moved : Relay := away.after rt₁ none relay

theorem told_away : Told rt₁ none id account (keyOf 2) moved :=
  taken_away.told first.reachable first.standing declares_away (.inr rfl)

theorem rotationLimiter_record (r : Relay) (p : Push) (hkind : p.kind = .identity) :
    (r.push rt₁ none p).rotationLimiter = r.rotationLimiter ∨
      ∃ sender, (r.push rt₁ none p).rotationLimiter = (r.rotationLimiter.allow p.now sender).1 := by
  have hcommit : ∀ limiter result,
      (Relay.commit { r with rotationLimiter := limiter } result).1.rotationLimiter = limiter := by
    intro limiter result
    cases result with
    | ok rs => rfl
    | error e => rfl
  have hpush : (r.push rt₁ none p).rotationLimiter = (acceptIdentity rt₁ r p.now p.data).1 := by
    unfold Relay.push acceptRecord
    rw [hkind]
    exact hcommit _ _
  rw [hpush]
  unfold acceptIdentity
  split
  · exact .inl rfl
  · next rec hopen =>
    change (checkDomainGates rt₁ r rec p.now).1 = _ ∨ ∃ sender,
      (checkDomainGates rt₁ r rec p.now).1 = _
    unfold checkDomainGates
    split
    · exact .inl rfl
    · dsimp only
      split
      · exact .inl rfl
      · unfold checkKeyContinuity
        split
        · exact .inl rfl
        · dsimp only
          split
          · exact .inr ⟨_, rfl⟩
          · exact .inl rfl
          · exact .inl rfl
          · exact .inl rfl

theorem allow_again (now now' : Time) (sender sender' : String) :
    ((RateLimiter.newRotationLimiter.allow now sender).1.allow now' sender').2 = true := by
  have hfirst : (RateLimiter.newRotationLimiter.allow now sender).1 =
      ⟨4, 24 * Duration.hour, Function.update (fun _ => []) sender [now]⟩ := rfl
  have hlisted : (Function.update (fun _ => ([] : List Time)) sender [now] sender').length ≤ 1 := by
    unfold Function.update
    split
    · next h =>
      subst h
      exact Nat.le_refl 1
    · exact Nat.zero_le 1
  rw [hfirst]
  unfold RateLimiter.allow
  dsimp only
  rw [if_neg]
  have hpruned := (List.length_filter_le (fun t => t.after (now'.add (-(24 * Duration.hour))))
    (Function.update (fun _ => ([] : List Time)) sender [now] sender')).trans hlisted
  omega

theorem declared_frame (s : Relay) (ds : List CompromiseDeclaration) (now : Time) :
    (∀ d, (Machine.run (Relay.push rt₁ none) s (ds.map (declare now))).records.getDAR rt₁ d =
      s.records.getDAR rt₁ d) ∧
      (Machine.run (Relay.push rt₁ none) s (ds.map (declare now))).rotationLimiter =
      s.rotationLimiter := by
  induction ds generalizing s with
  | nil => exact ⟨fun _ => rfl, rfl⟩
  | cons x xs ih =>
    obtain ⟨hdar, hlimiter⟩ := ih (s.push rt₁ none (declare now x))
    refine ⟨fun d => (hdar d).trans ?_,
      hlimiter.trans (rotationLimiter_push fun hkind => by cases hkind)⟩
    rcases getDAR_push rt₁ none s (declare now x) d with hkeep | ⟨_, hkind, -⟩
    · exact hkeep
    · cases hkind

theorem expiresAt_inherited {sent : IdentityRecord} {data : Bytes}
    (hsent : IdentityRecord.fromProtoBytes rt₁ data = some sent)
    (h : inherited sent = inherited (record account)) : sent.expiresAt = default := by
  obtain ⟨pb, -, hpb⟩ := Option.bind_eq_some_iff.mp hsent
  obtain ⟨-, -, chain, -, rfl⟩ := IdentityRecord.fromProto_eq_some.mp hpb
  have hsame : unixOrZero (timeOrZero pb.expiresAt) = 0 := congrArg Pb.IdentityRecord.expiresAt h
  have hread := unixOrZero_timeOrZero pb.expiresAt
  rw [hsame] at hread
  exact hread.symm

theorem second_account : ∃ e sent, away.Sent rt₁ (record account) e sent ∧
    Account moved sent 3 ∧ Clock 300 sent ∧
    moved.records.storedRemovalAny rt₁ account =
      some (tombstoneOf rt₁ (keyPair 3) 200 account none (keyOf 2)) := by
  obtain ⟨e, sent, hsent, hstanding, -, ⟨hnot, -⟩ | ⟨-, hbytes⟩⟩ :=
    taken_away.after first.reachable first.standing
  · exact absurd declares_away hnot
  · have hstored : moved.records.storedRemovalAny rt₁ account =
        some (tombstoneOf rt₁ (keyPair 3) 200 account
        none (keyOf 2)) := by
      rw [Aliased.storedRemovalAny_relay] at hbytes
      exact storedRemovalAny_tombstoneOf (show account ≠ "" by decide) hbytes
    obtain ⟨hdar, hlimiter⟩ :=
      declared_frame (away.filed rt₁ none relay) ((away.declaration rt₁).toList) (second 200)
    refine ⟨e, sent, hsent, ⟨away.reachable_after first.reachable, hstanding, hsent.reload.key, ?_,
      ?_, ?_, ?_, ?_, ?_, ?_, ?_⟩, ?_, hstored⟩
    · rw [hsent.reload.mailboxKey]
      exact Fixed.val_copy_of_length (length_keyOf 3)
    · have hrevision : sent.revision = 2 := hsent.reload.revision
      rw [hrevision]
      decide
    · have hcreated : sent.createdAt.unix = (record account).createdAt.unix :=
        congrArg Pb.IdentityRecord.createdAt hsent.inherits
      rw [hcreated]
      decide
    · exact expiresAt_inherited hsent.read hsent.inherits
    · exact (hdar _).trans (((published_frame rt₁ none (publishes away)).2 _).trans first.domain)
    · have hunsigned : removalIsRootSigned rt₁ (.fromProto authority)
          (tombstoneOf rt₁ (keyPair 3) 200 account none (keyOf 2)) = false := by
        rw [Bool.eq_false_iff, Ne, removalIsRootSigned_iff]
        rintro ⟨pub, hroot, hverify⟩
        obtain rfl : pub = keyOf 1 := List.mem_singleton.mp hroot
        exact absurd ((verify_own (Stolen.own_keyPair 3)).mp hverify) (by decide)
      unfold RecordStore.storedRemoval
      rw [hstored, Option.filter_some, hunsigned]
      rfl
    · intro rm hrm
      have hrevision : (tombstoneOf rt₁ (keyPair 3) 200 account none (keyOf 2)).revision = 1 :=
        revision_tombstoneOf rt₁ (keyPair 3) 200 account (keyOf 2) fun rm hrm => by cases hrm
      rw [← Option.some.inj (hstored.symm.trans hrm), hrevision]
      decide
    · intro now sender
      have hhistory : (away.filed rt₁ none relay).rotationLimiter =
          (relay.push rt₁ none (away.record rt₁)).rotationLimiter :=
        rotationLimiter_push fun hkind => by cases hkind
      have hmoved : moved.rotationLimiter =
          (relay.push rt₁ none (away.record rt₁)).rotationLimiter := hlimiter.trans hhistory
      rw [hmoved]
      rcases rotationLimiter_record relay (away.record rt₁) rfl with hsame | ⟨spent, hsame⟩
      · rw [hsame]
        exact first.budget now sender
      · rw [hsame, relay_eq]
        exact allow_again ..
    · refine ⟨by decide, fun last hlast => ?_⟩
      obtain rfl : e.reread = last :=
        Option.some.inj ((hsent.getLast? first.reachable first.standing).symm.trans hlast)
      have hsecond : e.reread.rotatedAt = second 200 := by
        change e.rotatedAt.wholeSecond = _
        rw [show e.rotatedAt = second 200 from hsent.built.rotatedAt]
        exact Time.wholeSecond_ofUnix _
      rw [hsecond]
      decide

noncomputable def onward (sent : IdentityRecord) (severity : RotationSeverity) : Turn :=
  turn moved sent 3 4 severity 300

theorem taken_onward {sent : IdentityRecord} (h : Account moved sent 3) (hclock : Clock 300 sent)
    (severity : RotationSeverity) :
    (onward sent severity).Taken rt₁ none account moved :=
  h.taken (by decide) hclock domainRule_later (by decide)

/-- The first key was declared stolen; the second is retired by a rotation that declares nothing,
and the reader who has pinned the first is told that it was replaced. -/
theorem told_replaced : ∃ t t' : Turn, relay.Reachable rt₁ none ∧ Standing rt₁ id account relay
    (record account) ∧
    t.Taken rt₁ none account relay ∧ t.Declares rt₁ account relay ∧
      t'.Taken rt₁ none account (t.after rt₁ none relay) ∧
    Reported rt₁ id account t.inputs.current.ed25519Public (t.after rt₁ none relay) ∧
    explained rt₁ id (t'.after rt₁ none (t.after rt₁ none relay)) account
      t.inputs.current.ed25519Public =
      some (.replaced 200) := by
  obtain ⟨e, sent, hsent, haccount, hclock, -⟩ := second_account
  have htaken := taken_onward haccount hclock .routine
  refine ⟨away, onward sent .routine, first.reachable, first.standing, taken_away, declares_away,
    htaken, told_away.reported, ?_⟩
  obtain ⟨-, rec, signer, hstanding, -, hmarked, hkey⟩ := told_away
  obtain rfl : rec = sent := Option.some.inj (hstanding.held.symm.trans haccount.standing.held)
  obtain ⟨e', sent', hsent', -, hshown, ⟨-, hbytes⟩ | ⟨hdeclares, -⟩⟩ :=
    htaken.after haccount.reachable haccount.standing
  · refine replaced_of_other_key hshown (hmarked.congr hbytes) ?_ ?_
    · have hnext : sent'.ed25519Public = keyOf 4 := hsent'.reload.key
      rw [← hkey, hnext, haccount.holder]
      decide
    · -- the first entry of the chain is the rotation that declared
      have hchain : rec.rotationChain = [e.reread] := by
        rw [hsent.chain first.reachable first.standing, Aliased.heldHistory_relay]
        rfl
      have hchain' : sent'.rotationChain = [e.reread.reread, e'.reread] := by
        rw [hsent'.reload.chain]
        change (appendRotation rec e').map RotationEntry.reread = _
        rw [appendRotation_eq, hchain]
        rfl
      have hretired : e.reread.reread.toProto.retiredEd25519PublicKey = keyOf 2 :=
        hsent.built.retiredKey
      have hauthorizing : e.reread.reread.toProto.authorizingEd25519PublicKey = keyOf 2 :=
        hsent.built.authorizing
      have hat : e.reread.reread.toProto.rotatedAt = 200 := by
        change e.rotatedAt.wholeSecond.wholeSecond.unix = 200
        rw [Time.unix_wholeSecond, Time.unix_wholeSecond, show e.rotatedAt =
          second 200 from hsent.built.rotatedAt]
        exact Time.unix_ofUnix _
      have hentries : (decodedRecord rt₁ sent'.toProto).rotationChain =
          [decodedEntry rt₁ e.reread.reread.toProto, decodedEntry rt₁ e'.reread.toProto] := by
        change (sent'.rotationChain.map RotationEntry.toProto).map (decodedEntry rt₁) = _
        rw [hchain']
        rfl
      have hfound : retiring (decodedRecord rt₁ sent'.toProto).rotationChain (toBase64 (keyOf 2)) =
          some (decodedEntry rt₁ e.reread.reread.toProto) := by
        rw [hentries]
        refine List.find?_cons_of_pos (decide_eq_true ?_)
        exact congrArg toBase64 hretired
      unfold retiredAt
      change (retiring (decodedRecord rt₁ sent'.toProto).rotationChain (toBase64 (keyOf 2))).map _ =
        _
      rw [hfound, Option.map_some]
      change some (Handover.mk (Js.number e.reread.reread.toProto.rotatedAt.toInt)
        (toBase64 e.reread.reread.toProto.authorizingEd25519PublicKey ≠ toBase64 (keyOf 2))) = _
      rw [hat, hauthorizing]
      have hnumber : Js.number (200 : Int64).toInt = 200 := by decide
      rw [hnumber]
      simp
  · cases hdeclares.1

/-- If the second key is declared stolen too, the reader goes on to be told so of the first. -/
theorem told_throughout : ∃ (t : Turn) (d : Deed), Machine.Throughout (Deed.step rt₁ none)
    (Reported rt₁ id account t.inputs.current.ed25519Public) (t.after rt₁ none relay) [d] := by
  obtain ⟨e, sent, hsent, haccount, hclock, hstored⟩ := second_account
  refine ⟨away, .rekeyed (onward sent .compromised), ?_⟩
  have hlater : Machine.Along (Deed.step rt₁ none) (Deed.Taken rt₁ none account)
      (away.after rt₁ none relay)
      [.rekeyed (onward sent .compromised)] := ⟨taken_onward haccount hclock .compromised, trivial⟩
  refine (always_reported_iff first.reachable first.standing taken_away declares_away hlater).mpr
    ⟨⟨rfl, ?_⟩, trivial⟩
  intro rm hrm hlisted
  rw [← Option.some.inj (hstored.symm.trans hrm), keys_tombstoneOf] at hlisted
  exact absurd (List.mem_singleton.mp hlisted) (show keyOf 3 ≠ keyOf 2 by decide)

end Restored

end Dmcn.Web.Rekeying
