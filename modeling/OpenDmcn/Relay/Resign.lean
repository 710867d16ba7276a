import OpenDmcn.Identity.Rotate
import OpenDmcn.Relay.Invariant

/-! Owner re-signs at a rotated address. A re-sign raises the revision and keeps the chain, and the
last entry of the chain names the revision it minted: the chain of the record held then verifies no
more, although the next rotation made from that record is still authorized. -/

namespace Dmcn

open Go Guard RecordStore Machine

variable {rt : Runtime} {anchor : DarAnchor}

/-- The owner signs again under the same key, at a higher revision and with the same chain. -/
structure Resigned (rec rec' : IdentityRecord) : Prop where
  key : rec'.ed25519Public = rec.ed25519Public
  chain : rec'.rotationChain = rec.rotationChain
  revision : rec.revision < rec'.revision

structure Republished (rec rec' : IdentityRecord) : Prop where
  key : rec'.ed25519Public = rec.ed25519Public
  mailboxKey : rec'.x25519Public = rec.x25519Public
  chain : rec'.rotationChain = rec.rotationChain
  revision : rec'.revision = rec.revision

inductive OwnerStep (rt : Runtime) (rec rec' : IdentityRecord) : Prop
  | republished (h : Republished rec rec')
  | resigned (h : Resigned rec rec')
  | rotated {last : RotationEntry} {rm : Option AddressRemovalRecord} {dar : DomainAuthorityRecord}
      {now : Time} (hlast : rec'.rotationChain.getLast? = some last)
      (h : OwnerRotation rt rec rec' last rm dar now)

/-- What the push does to the record of the address, pushes of anything else included, is what its
owner may do. -/
def OwnerPush (rt : Runtime) (anchor : DarAnchor) (a : String) (r : Relay) (p : Push) : Prop :=
  ∃ rec rec', r.records.getIdentity rt a = some rec ∧
    (r.push rt anchor p).records.getIdentity rt a = some rec' ∧ OwnerStep rt rec rec'

def ResignsRotated (rt : Runtime) (anchor : DarAnchor) (a : String) (r : Relay) (p : Push) : Prop :=
  ∃ rec rec', r.records.getIdentity rt a = some rec ∧
    (r.push rt anchor p).records.getIdentity rt a = some rec' ∧ Resigned rec rec' ∧
    rec.rotationChain ≠ []

def KeepsMailboxKey (rt : Runtime) (anchor : DarAnchor) (a : String) (r : Relay) (p : Push) :
    Prop :=
  ∀ rec rec', r.records.getIdentity rt a = some rec →
    (r.push rt anchor p).records.getIdentity rt a = some rec' →
    rec'.ed25519Public = rec.ed25519Public → rec'.x25519Public = rec.x25519Public

def ChainValid (rt : Runtime) (a : String) (r : Relay) : Prop :=
  ∃ rec, r.records.getIdentity rt a = some rec ∧ verifyRotationChain rt rec = .ok ()

structure Permitted (rt : Runtime) (rec next : IdentityRecord) (e : RotationEntry)
    (rm : Option AddressRemovalRecord) (dar : DomainAuthorityRecord) (now : Time) : Prop where
  address : validateAddress rec.address = true
  allowed : dar.allowKeyRotation = true
  consent : e.authorizingEd25519Public = rec.ed25519Public ∨
    e.authorizingEd25519Public = rec.recoveryEd25519Public
  device : ∃ cred, DeviceAuthorized rt e cred dar now
  notTombstoned : incomingTombstoned rt next rm dar = false

/-- A rotation built from the record held and sent as a record that installs it is authorized, in
any domain that permits it and in no other. -/
def NextAuthorized (rt : Runtime) (a : String) (r : Relay) : Prop :=
  ∀ rec rot e next sent, r.records.getIdentity rt a = some rec → rot.Ready rt rec →
    buildRotation rt rec rot = .ok e → e.Stable →
    (∀ last, rec.rotationChain.getLast? = some last →
      rot.at_.wholeSecond.after last.rotatedAt.wholeSecond = true) →
    Installs rec rot e next →
    IdentityRecord.fromProtoBytes rt (rt.identityRecord.marshal next.toProto) = some sent →
    sent.rotationChain.getLast? = some e.reread ∧
    ∀ rm dar now, authorizeOwnerRotation rt rec sent e.reread rm dar now = .ok .ownerRotation ↔
      Permitted rt rec sent e.reread rm dar now

structure Joined (rt : Runtime) (rec : IdentityRecord) : Prop where
  linked : verifyChainLinks rt rec.rotationChain rec.address = .ok ()
  lands : ∀ last, rec.rotationChain.getLast? = some last →
    last.nextEd25519Public = rec.ed25519Public ∧ last.nextX25519Public = rec.x25519Public ∧
    last.nextRevision ≤ rec.revision

variable {rec : IdentityRecord}

theorem joined_of_verifyRotationChain (h : verifyRotationChain rt rec = .ok ()) :
    Joined rt rec := by
  refine ⟨verifyChainLinks_of_verifyRotationChain h, ?_⟩
  intro last hlast
  obtain ⟨-, -, hed, hx, hrev⟩ := verifyRotationChain_last h hlast
  exact ⟨hed, hx, UInt64.le_of_eq hrev⟩

theorem RotationEntry.stable_of_reread {e : RotationEntry} (h : e.reread = e)
    (hverify : e.verify rt = .ok ()) : e.Stable := by
  have htime : e.rotatedAt.wholeSecond = e.rotatedAt := congrArg RotationEntry.rotatedAt h
  have hshape := (RotationEntry.verify_eq_ok.mp hverify).1
  have hset := (RotationEntry.checkShape_eq_ok.mp hshape).2.2.2.2.2.1
  constructor
  · rw [htime]
    exact hset
  · intro cred hcred
    have hdevice : e.deviceCredential.map (fun cred => Credential.fromProto cred.toProto) =
        e.deviceCredential := congrArg RotationEntry.deviceCredential h
    rw [hcred, Option.map_some] at hdevice
    rw [Option.some.inj hdevice]

theorem Joined.continuable {data : Bytes} (h : Joined rt rec)
    (hread : IdentityRecord.fromProtoBytes rt data = some rec) (hverify : rec.verify rt = true)
    (haddress : validateAddress rec.address = true) : Continuable rt rec := by
  have hchain := reread_of_fromProtoBytes hread
  refine ⟨haddress, (verifyCtx_ed25519 hverify).1, ?_, ?_, h.lands⟩
  · intro e he
    have hentry := (verifyChainLinks_entry h.linked e he).1
    have hsame : e.reread = e := List.map_inj_left.mp (hchain.trans (List.map_id _).symm) e he
    exact ⟨hentry, e.stable_of_reread hsame hentry⟩
  · rw [hchain]
    exact h.linked

theorem length_appendRotation_le (prev : IdentityRecord) (e : RotationEntry) :
    (appendRotation prev e).length ≤ maxRotationChain := by
  rw [appendRotation_eq_rtake, List.rtake, List.length_drop]
  omega

/-- The record that installs a rotation of a record that can be continued has a chain that verifies,
also as it is read back. -/
theorem Continuable.verify_sent {rec next sent : IdentityRecord} {rot : Rotation}
    {e : RotationEntry} (h : Continuable rt rec) (hsha : ∀ b, (rt.sha256 b).length = 32)
    (hready : rot.Ready rt rec) (hbuilt : Built rt rec rot e) (hstable : e.Stable)
    (hlater : ∀ last, rec.rotationChain.getLast? = some last →
      rot.at_.wholeSecond.after last.rotatedAt.wholeSecond = true)
    (hnext : Installs rec rot e next) (hsent : Reloaded next sent)
    (hlast : sent.rotationChain.getLast? = some e.reread) :
    verifyRotationChain rt sent = .ok () := by
  have hlength : sent.rotationChain.length ≤ maxRotationChain := by
    rw [hsent.chain, List.length_map, hnext.chain]
    exact length_appendRotation_le rec e
  rw [← hbuilt.rotatedAt] at hlater
  refine verifyRotationChain_of_continuable ?_ hlength ?_
  · exact (h.installs hready hsha hbuilt hstable hlater hnext).reload hsent
  · intro last hlast'
    cases hlast.symm.trans hlast'
    rw [hsent.revision, hnext.revision]
    exact hbuilt.nextRevision

theorem Joined.nextAuthorized {r : Relay} {a : String} (hsha : ∀ b, (rt.sha256 b).length = 32)
    (hfiled : Filed rt r.records) (hheld : r.records.getIdentity rt a = some rec)
    (h : Joined rt rec) :
    NextAuthorized rt a r := by
  intro rec' rot e next sent hheld' hready hbuild hstable hlater hnext hread
  cases hheld.symm.trans hheld'
  obtain ⟨data, -, hparsed⟩ := Option.bind_eq_some_iff.mp hheld
  have hbuilt := built_of_buildRotation hready hbuild
  have hsent := reloaded_of_fromProtoBytes hread
  have hlast : sent.rotationChain.getLast? = some e.reread := by
    rw [hsent.chain, hnext.chain, appendRotation_eq, List.getLast?_map, List.getLast?_concat,
      Option.map_some]
  refine ⟨hlast, ?_⟩
  intro rm dar now
  rw [authorizeOwnerRotation_eq_ok]
  constructor
  · rintro ⟨-, hrot⟩
    have hentry := (verifyRotationChain_last hrot.chain hlast).1
    have hshape := (RotationEntry.verify_eq_ok.mp hentry).1
    have haddress : validateAddress e.address = true :=
      (RotationEntry.checkShape_eq_ok.mp hshape).2.1
    rw [hbuilt.address] at haddress
    exact ⟨haddress, hrot.allowed, hrot.authorized, hrot.device, hrot.notTombstoned⟩
  · intro hpermitted
    have hcont := h.continuable hparsed (hfiled.identity a rec hheld).2 hpermitted.address
    have hchain := hcont.verify_sent hsha hready hbuilt hstable hlater hnext hsent hlast
    refine ⟨rfl, hpermitted.allowed, hchain, hbuilt.retiredKey, hbuilt.retiredMailboxKey,
      hpermitted.consent, ?_, hpermitted.device, hpermitted.notTombstoned⟩
    rw [hsent.revision, hnext.revision]
    exact hbuilt.advances

theorem verifyRotationChain_republished {rec rec' : IdentityRecord} (h : Republished rec rec')
    (haddress : rec'.address = rec.address) : verifyRotationChain rt rec' =
    verifyRotationChain rt rec := by
  unfold verifyRotationChain
  rw [h.chain, h.key, h.mailboxKey, h.revision, haddress]

theorem Resigned.chain_eq_nil {rec rec' : IdentityRecord} (h : Resigned rec rec')
    (hbefore : verifyRotationChain rt rec = .ok ())
    (hafter : verifyRotationChain rt rec' = .ok ()) :
    rec.rotationChain = [] := by
  cases hlast : rec.rotationChain.getLast? with
  | none => exact List.getLast?_eq_none_iff.mp hlast
  | some last =>
    have hminted := (verifyRotationChain_last hbefore hlast).2.2.2.2
    rw [← h.chain] at hlast
    have hpinned := (verifyRotationChain_last hafter hlast).2.2.2.2
    have hraised := h.revision
    rw [← hminted, ← hpinned] at hraised
    exact absurd hraised (UInt64.lt_irrefl _)

theorem verifyRotationChain_of_nil (h : rec.rotationChain = []) :
    verifyRotationChain rt rec = .ok () := by
  unfold verifyRotationChain
  rw [h]
  rfl

theorem chainValid_push_iff {a : String} {r : Relay} {p : Push} (hfiled : Filed rt r.records)
    (hstep : OwnerPush rt anchor a r p) (hvalid : ChainValid rt a r) :
    ChainValid rt a (r.push rt anchor p) ↔ ¬ ResignsRotated rt anchor a r p := by
  obtain ⟨rec, rec', hheld, hheld', hstep⟩ := hstep
  obtain ⟨rec₀, hheld₀, hchain⟩ := hvalid
  cases hheld.symm.trans hheld₀
  constructor
  · rintro ⟨rec₁, hheld₁, hchain'⟩ ⟨rec₂, rec₃, hheld₂, hheld₃, hresigned, hrotated⟩
    cases hheld.symm.trans hheld₂
    cases hheld'.symm.trans hheld₁
    cases hheld'.symm.trans hheld₃
    exact hrotated (hresigned.chain_eq_nil hchain hchain')
  · intro hplain
    refine ⟨rec', hheld', ?_⟩
    cases hstep with
    | republished h =>
      have haddress : rec'.address = rec.address := by
        rw [((filed_push r p hfiled).identity a rec' hheld').1, (hfiled.identity a rec hheld).1]
      rw [verifyRotationChain_republished h haddress]
      exact hchain
    | resigned h =>
      by_cases hnil : rec.rotationChain = []
      · exact verifyRotationChain_of_nil (h.chain.trans hnil)
      · exact absurd ⟨rec, rec', hheld, hheld', h, hnil⟩ hplain
    | rotated hlast h => exact h.chain

theorem joined_push {a : String} {r : Relay} {p : Push} (hfiled : Filed rt r.records)
    (hheld : r.records.getIdentity rt a = some rec) (h : Joined rt rec)
    (hstep : OwnerPush rt anchor a r p) (hmailbox : KeepsMailboxKey rt anchor a r p) :
    ∃ rec', (r.push rt anchor p).records.getIdentity rt a = some rec' ∧ Joined rt rec' := by
  obtain ⟨rec₀, rec', hheld₀, hheld', hstep⟩ := hstep
  cases hheld.symm.trans hheld₀
  have haddress : rec'.address = rec.address := by
    rw [((filed_push r p hfiled).identity a rec' hheld').1, (hfiled.identity a rec hheld).1]
  refine ⟨rec', hheld', ?_⟩
  cases hstep with
  | republished hsame =>
    refine ⟨?_, ?_⟩
    · rw [hsame.chain, haddress]
      exact h.linked
    · rw [hsame.chain, hsame.key, hsame.mailboxKey, hsame.revision]
      exact h.lands
  | resigned hresigned =>
    have hkept := hmailbox rec rec' hheld hheld' hresigned.key
    refine ⟨?_, ?_⟩
    · rw [hresigned.chain, haddress]
      exact h.linked
    · intro last hlast
      rw [hresigned.chain] at hlast
      obtain ⟨hed, hx, hrev⟩ := h.lands last hlast
      rw [hresigned.key, hkept]
      exact ⟨hed, hx, UInt64.le_trans hrev (UInt64.le_of_lt hresigned.revision)⟩
  | rotated hlast hrot => exact joined_of_verifyRotationChain hrot.chain

/-- Over every run in which the record of an address is republished, re-signed and rotated by its
owner, in any order: the chain held verifies in every state, and the next rotation is authorized,
exactly when no re-sign comes after a rotation. The next rotation alone is authorized in every state
of every such run that keeps the mailbox key with the owner's. -/
theorem chain_stays_valid_iff {r : Relay} {a : String} {rec : IdentityRecord} {ps : List Push}
    (hsha : ∀ b, (rt.sha256 b).length = 32) (hr : r.Reachable rt anchor)
    (hheld : r.records.getIdentity rt a = some rec) (hvalid : verifyRotationChain rt rec = .ok ())
    (hrun : Along (Relay.push rt anchor) (OwnerPush rt anchor a) r ps) :
    (Throughout (Relay.push rt anchor) (fun r => ChainValid rt a r ∧ NextAuthorized rt a r) r ps ↔
      Along (Relay.push rt anchor) (fun r p => ¬ ResignsRotated rt anchor a r p) r ps) ∧
    (Along (Relay.push rt anchor) (KeepsMailboxKey rt anchor a) r ps →
      Throughout (Relay.push rt anchor) (NextAuthorized rt a) r ps) := by
  have hfiled : Throughout (Relay.push rt anchor) (fun r => Filed rt r.records) r ps :=
    throughout_of_invariant hr.filed filed_push
  have hauthorized : ∀ r : Relay, Filed rt r.records → ChainValid rt a r →
      NextAuthorized rt a r := by
    rintro r hf ⟨rec', hheld', hchain⟩
    exact (joined_of_verifyRotationChain hchain).nextAuthorized hsha hf hheld'
  constructor
  · have hsteps := hrun.and (Along.of_throughout hfiled fun _ _ h => h)
    refine throughout_iff_along_of_steps hsteps ?_ ?_
    · exact ⟨⟨rec, hheld, hvalid⟩, hauthorized r hr.filed ⟨rec, hheld, hvalid⟩⟩
    · rintro r p ⟨hstep, hf⟩ ⟨hchain, -⟩
      have hnext := chainValid_push_iff hf hstep hchain
      refine ⟨fun h => hnext.mp h.1, fun h => ⟨hnext.mpr h, ?_⟩⟩
      exact hauthorized _ (filed_push r p hf) (hnext.mpr h)
  · intro hmailbox
    -- the weaker invariant: the chain ends in the keys of the record, at a revision it has passed
    have hjoined : Throughout (Relay.push rt anchor) (fun r => Filed rt r.records ∧
        ∃ rec, r.records.getIdentity rt a = some rec ∧ Joined rt rec) r ps := by
      refine throughout_of_along ?_ ?_ (hrun.and hmailbox)
      · exact ⟨hr.filed, rec, hheld, joined_of_verifyRotationChain hvalid⟩
      · rintro r p ⟨hf, rec', hheld', hj⟩ ⟨hstep, hkeeps⟩
        exact ⟨filed_push r p hf, joined_push hf hheld' hj hstep hkeeps⟩
    refine hjoined.imp ?_
    rintro r ⟨hf, rec', hheld', hj⟩
    exact hj.nextAuthorized hsha hf hheld'

/-! A rotated record is pushed, and then signed again at the next revision. -/
namespace Resign

open Rotated

noncomputable def rt₀ : Runtime := runtime fun _ => zeros

def now : Time := Time.ofUnix 200

def message (e : RotationEntry) (revision : UInt64) : Pb.IdentityRecord :=
  { (successor (record "alice@example.org") (rotation (Time.ofUnix 100) none) e).toProto with
    revision := revision }

def held (e : RotationEntry) (revision : UInt64) : IdentityRecord :=
  .ofMessage (message e revision)
    ((appendRotation (record "alice@example.org") e).map RotationEntry.reread)

noncomputable def send (e : RotationEntry) (revision : UInt64) : Push :=
  ⟨now, .identity, rt₀.identityRecord.marshal (message e revision)⟩

theorem fromProtoBytes_message (e : RotationEntry) (revision : UInt64) :
    IdentityRecord.fromProtoBytes rt₀ (send e revision).data = some (held e revision) := by
  unfold IdentityRecord.fromProtoBytes send
  rw [Codec.unmarshal_marshal, Option.bind_some]
  refine IdentityRecord.fromProto_eq_some.mpr ⟨.inl rfl, ?_, _, rotationChainFromProto_eq_reread _,
    rfl⟩
  change validateForwardTo rt₀ "alice@example.org" "" = true
  simp [validateForwardTo]

theorem verify_held (e : RotationEntry) (revision : UInt64) :
    (held e revision).verify rt₀ = true := by
  refine verify_of_zeros (fun _ => rfl) (length_keyOf 3) ?_
  change (Fixed.copy 64 (Fixed.copy 64 []).val).val = zeros
  decide

theorem live_held (e : RotationEntry) (revision : UInt64) :
    (held e revision).expired now = false := by
  refine IdentityRecord.not_expired_of_unset ?_
  change unixOrZero (timeOrZero 0) = 0
  decide

noncomputable def rotated (e : RotationEntry) : Relay :=
  (seedOwnRecords rt₀ []).push rt₀ none (send e 2)

theorem reachable_rotated (e : RotationEntry) : (rotated e).Reachable rt₀ none :=
  ⟨[], [send e 2], rfl⟩

theorem admitted_rotated (e : RotationEntry) :
    IdentityAdmitted rt₀ (seedOwnRecords rt₀ []) now (send e 2).data (held e 2) := by
  refine .genesis (fromProtoBytes_message e 2) (verify_held e 2) (live_held e 2)
    (getIdentity_seed _ _ _) ?_
  intro d hd
  cases hd

theorem getIdentity_rotated (e : RotationEntry) :
    (rotated e).records.getIdentity rt₀ "alice@example.org" = some (held e 2) := by
  rw [rotated, (acceptRecord_identity rfl (admitted_rotated e)).2,
    getIdentity_putIdentity (fromProtoBytes_message e 2)]
  rfl

theorem getDAR_rotated (e : RotationEntry) (d : String) :
    (rotated e).records.getDAR rt₀ d = none := by
  rw [rotated, (acceptRecord_identity rfl (admitted_rotated e)).2]
  rfl

theorem admitted_resigned (e : RotationEntry) :
    IdentityAdmitted rt₀ (rotated e) now (send e 3).data (held e 3) := by
  refine ⟨fromProtoBytes_message e 3, verify_held e 3, live_held e 3, ?_, ?_⟩
  · refine checkDomainGates_sameKey ?_ ?_
    · intro d hd
      cases (getDAR_rotated e _).symm.trans hd
    · intro prev hprev
      cases (getIdentity_rotated e).symm.trans hprev
      rfl
  · rw [checkRollback_eq_ok]
    intro existing hexisting
    cases (getIdentity_rotated e).symm.trans hexisting
    refine ⟨show (2 : UInt64) ≤ 3 by decide, ?_⟩
    intro hsame
    cases hsame

theorem accepted_resigned (e : RotationEntry) :
    (acceptRecord rt₀ none (rotated e) (send e 3)).2 = .ok () :=
  (acceptRecord_identity rfl (admitted_resigned e)).1

theorem getIdentity_resigned (e : RotationEntry) :
    ((rotated e).push rt₀ none (send e 3)).records.getIdentity rt₀ "alice@example.org" =
      some (held e 3) := by
  rw [(acceptRecord_identity rfl (admitted_resigned e)).2,
    getIdentity_putIdentity (fromProtoBytes_message e 3)]
  rfl

theorem resigned_held (e : RotationEntry) : Resigned (held e 2) (held e 3) :=
  ⟨rfl, rfl, show (2 : UInt64) < 3 by decide⟩

theorem exists_valid : ∃ e, verifyRotationChain rt₀ (held e 2) = .ok () ∧
    (held e 2).rotationChain.length = 1 := by
  obtain ⟨e, hbuilt, hproduced⟩ := produced rt₀ "alice@example.org" (Time.ofUnix 100) none
    (signsFor (fun _ => by decide) []) (by simp)
  have hstable : ∀ e' ∈ [e], e'.Stable := by
    intro e' he'
    cases List.mem_singleton.mp he'
    exact stable_of_plain hbuilt
  have hreload : Produced rt₀ (record "alice@example.org") [e] (held e 2) :=
    .reload hproduced (fromProtoBytes_message e 2)
  have hinvariant :=
    produced_invariant (fun b => Fixed.length_val _) (verify_record _ fun _ => rfl) rfl
    (by decide) hreload hstable
  refine ⟨e, ?_, hinvariant.2.length⟩
  refine verifyRotationChain_of_continuable hinvariant.1 ?_ hinvariant.2.revision
  rw [hinvariant.2.length]
  exact Nat.min_le_right _ _

theorem resign_breaks_chain : ∃ e,
    (rotated e).Reachable rt₀ none ∧
    (rotated e).records.getIdentity rt₀ "alice@example.org" = some (held e 2) ∧
    verifyRotationChain rt₀ (held e 2) = .ok () ∧
    (acceptRecord rt₀ none (rotated e) (send e 3)).2 = .ok () ∧
    ((rotated e).push rt₀ none (send e 3)).records.getIdentity rt₀ "alice@example.org" =
      some (held e 3) ∧
    Resigned (held e 2) (held e 3) ∧ (held e 3).x25519Public = (held e 2).x25519Public ∧
    verifyRotationChain rt₀ (held e 3) ≠ .ok () := by
  obtain ⟨e, hvalid, hlength⟩ := exists_valid
  refine ⟨e, reachable_rotated e, getIdentity_rotated e, hvalid, accepted_resigned e,
    getIdentity_resigned e, resigned_held e, rfl, ?_⟩
  intro hafter
  have hnil := (resigned_held e).chain_eq_nil hvalid hafter
  rw [hnil] at hlength
  cases hlength

theorem ownerPush_resigned (e : RotationEntry) :
    OwnerPush rt₀ none "alice@example.org" (rotated e) (send e 3) :=
  ⟨held e 2, held e 3, getIdentity_rotated e, getIdentity_resigned e, .resigned (resigned_held e)⟩

theorem resign_keeps_next_rotation : ∃ e,
    verifyRotationChain rt₀ (held e 2) = .ok () ∧
    NextAuthorized rt₀ "alice@example.org" ((rotated e).push rt₀ none (send e 3)) := by
  obtain ⟨e, hvalid, -⟩ := exists_valid
  have hsteps : Along (Relay.push rt₀ none) (OwnerPush rt₀ none "alice@example.org") (rotated e)
      [send e 3] := ⟨ownerPush_resigned e, trivial⟩
  have hrun := chain_stays_valid_iff (fun b => Fixed.length_val _) (reachable_rotated e)
    (getIdentity_rotated e) hvalid hsteps
  have hkeeps : KeepsMailboxKey rt₀ none "alice@example.org" (rotated e) (send e 3) := by
    intro rec rec' hrec hrec' _
    cases (getIdentity_rotated e).symm.trans hrec
    cases (getIdentity_resigned e).symm.trans hrec'
    rfl
  exact ⟨e, hvalid, (hrun.2 ⟨hkeeps, trivial⟩).last⟩

end Resign

end Dmcn
