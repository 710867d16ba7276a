import OpenDmcn.Lib.Base64
import OpenDmcn.Lib.Signature
import OpenDmcn.Web.VerifyRotation

/-! What has happened to a key that was pinned (`lib/trust/lineage.ts`): the reader explains it from
the answer of the directory, which it does not trust. -/

namespace Dmcn.Web.Lineage

open Go VerifyRotation

structure DecodedRemoval where
  address : String
  removedBindings : List Pb.RemovedBinding
  selfSignature : Bytes
  signableBytes : Bytes

structure Served where
  record : String
  history : Option String
  removal : Option String

structure Decoders where
  identityRecord : String → Option DecodedRecord
  addressHistory : String → Option DecodedHistory
  addressRemoval : String → Option DecodedRemoval

inductive KeyChange where
  | replaced (at' : ℤ)
  | recovered (at' : ℤ)
  | reportedStolen (at' : ℤ)
  | unexplained
  deriving DecidableEq

structure Handover where
  at' : ℤ
  byRecoveryKey : Bool
  deriving DecidableEq

def toBase64 (b : Bytes) : String := String.ofList (Base64.encode b)

def given (s : Option String) : Option String := s.filter (· ≠ "")

def retiring (chain : List DecodedEntry) (pinned : String) : Option DecodedEntry :=
  chain.find? fun e => toBase64 e.fields.retiredEd25519PublicKey = pinned

def retiredAt (chain : List DecodedEntry) (pinned : String) : Option Handover :=
  (retiring chain pinned).map fun e =>
    ⟨Js.number e.fields.rotatedAt.toInt, toBase64 e.fields.authorizingEd25519PublicKey ≠ pinned⟩

section Reader

variable (b : Browser) (decode : Decoders)

def historyChain (address : String) (rec : DecodedRecord) (history : Option String) :
    Option (List DecodedEntry) :=
  match given history with
  | none => some []
  | some text =>
    match decode.addressHistory text with
    | none => none
    | some h =>
      if verifyHistory b h address ≠ .ok () then some []
      else
        match h.chain.getLast? with
        | none => some []
        | some last =>
          if toBase64 last.fields.nextEd25519PublicKey ≠ toBase64 rec.ed25519PublicKey then some []
          else if VerifyRotation.verifyChainLinks b h.chain address ≠ .ok () then some []
          else some h.chain

def retiredInLineage (address pinned : String) (rec : DecodedRecord) (history : Option String) :
    Option (Option Handover) :=
  match retiredAt rec.rotationChain pinned with
  | some handover => some (some handover)
  | none => (historyChain b decode address rec history).map fun chain => retiredAt chain pinned

def removalSigningBytes (rm : DecodedRemoval) : Bytes := Ctx.addressRemoval.tag ++ rm.signableBytes

def declaredStolen (address pinned : String) (rec : DecodedRecord) (removal : Option String) :
    Option (Option ℤ) :=
  match given removal with
  | none => some none
  | some text =>
    match decode.addressRemoval text with
    | none => none
    | some rm =>
      if b.toLowerCase rm.address ≠ b.toLowerCase address then some none
      else
        match rm.removedBindings.find? fun binding => toBase64 binding.ed25519PublicKey =
          pinned with
        | none => some none
        | some hit =>
          if b.verify rec.ed25519PublicKey (removalSigningBytes rm) rm.selfSignature then
            some (some (Js.number hit.removedAt.toInt))
          else some none

def explainKeyChange (address pinned : String) (served : Served) : Option KeyChange :=
  match decode.identityRecord served.record with
  | none => none
  | some rec =>
    if b.toLowerCase rec.address ≠ b.toLowerCase address then some .unexplained
    else if verifySelfSignature b rec.ed25519PublicKey rec.signableBytes rec.selfSignature =
        false then
      some .unexplained
    else if verifyRecordChain b rec ≠ .ok () then some .unexplained
    else
      match declaredStolen b decode address pinned rec served.removal with
      | none => none
      | some (some stolenAt) => some (.reportedStolen stolenAt)
      | some none =>
        match retiredInLineage b decode address pinned rec served.history with
        | none => none
        | some none => some .unexplained
        | some (some handover) => some (if handover.byRecoveryKey then .recovered handover.at'
          else .replaced handover.at')

structure Accepted (address : String) (rec : DecodedRecord) : Prop where
  address : b.toLowerCase rec.address = b.toLowerCase address
  signature : verifySelfSignature b rec.ed25519PublicKey rec.signableBytes rec.selfSignature = true
  chain : verifyRecordChain b rec = .ok ()

/-- Who has which keys: the party that answers, and the owner of the address, with the key that the
reader has pinned, those that followed it, and those of the records that the owner has published. -/
structure World where
  party : Ideal.Party Bytes Bytes
  pinned : Bytes
  followed : Bytes → Prop
  published : Bytes → Prop
  unforgeable : Ideal.Unforgeable b.verify party
  binding : Ideal.Binding b.verify
  not_holds_pinned : ¬ party.holds pinned
  not_holds_followed : ∀ k, followed k → ¬ party.holds k

end Reader

section Verdict

variable {b : Browser} (w : World b) (decode : Decoders) (address : String) (served : Served)

structure Honest : Prop where
  replaced : ∀ rec at', decode.identityRecord served.record = some rec →
    explainKeyChange b decode address (toBase64 w.pinned) served = some (.replaced at') →
    w.followed rec.ed25519PublicKey ∧
      w.party.signed rec.ed25519PublicKey (Ctx.identitySelf.tag ++ rec.signableBytes) ∧
      ∃ e, (e ∈ rec.rotationChain ∨ ∃ chain, historyChain b decode address rec served.history =
        some chain ∧ e ∈ chain) ∧
        e.fields.retiredEd25519PublicKey = w.pinned ∧
        w.party.signed w.pinned (Ctx.identityRotation.tag ++ e.consentBytes)
  reportedStolen : ∀ at', explainKeyChange b decode address (toBase64 w.pinned) served =
    some (.reportedStolen at') →
    ∃ text rm k, given served.removal = some text ∧ decode.addressRemoval text = some rm ∧
      w.published k ∧
      b.verify k (removalSigningBytes rm) rm.selfSignature = true

/-- The key of a record that is accepted is one of the owner's, wherever it counts: with a tombstone
under it, one of a record that was published; with a handover that the pinned key is named to
authorize, one that followed. -/
def Anchored : Prop :=
  ∀ rec, decode.identityRecord served.record = some rec → Accepted b address rec →
    (∀ at', declaredStolen b decode address (toBase64 w.pinned) rec served.removal =
      some (some at') → w.published rec.ed25519PublicKey) ∧
    (∀ handover, declaredStolen b decode address (toBase64 w.pinned) rec served.removal =
      some none → retiredInLineage b decode address (toBase64 w.pinned) rec served.history =
        some (some handover) →
      handover.byRecoveryKey = false → w.followed rec.ed25519PublicKey)

end Verdict

theorem toBase64_injective {x y : Bytes} (h : toBase64 x = toBase64 y) : x = y := by
  have hdecode := congrArg (fun s : String => Base64.decode s.toList) h
  simp only [toBase64, String.toList_ofList, Base64.decode_encode, Option.some.injEq] at hdecode
  exact hdecode

section Spec

variable {b : Browser} {decode : Decoders} {address pinned : String} {served : Served}
  {rec : DecodedRecord}

theorem explainKeyChange_accepted (hrec : decode.identityRecord served.record = some rec)
    (h : Accepted b address rec) :
    explainKeyChange b decode address pinned served =
      match declaredStolen b decode address pinned rec served.removal with
      | none => none
      | some (some stolenAt) => some (.reportedStolen stolenAt)
      | some none =>
        match retiredInLineage b decode address pinned rec served.history with
        | none => none
        | some none => some .unexplained
        | some (some handover) => some (if handover.byRecoveryKey then .recovered handover.at'
          else .replaced handover.at') := by
  rw [explainKeyChange, hrec]
  dsimp only
  rw [if_neg (by simp [h.address]), if_neg (by simp [h.signature]), if_neg (by simp [h.chain])]

theorem accepted_of_explained {change : KeyChange}
    (hrec : decode.identityRecord served.record = some rec) (h : explainKeyChange b decode address
      pinned served = some change) (hchange : change ≠ .unexplained) :
    Accepted b address rec := by
  rw [explainKeyChange, hrec] at h
  dsimp only at h
  split at h
  · exact absurd (Option.some.inj h).symm hchange
  · next haddress =>
    split at h
    · exact absurd (Option.some.inj h).symm hchange
    · next hsignature =>
      split at h
      · exact absurd (Option.some.inj h).symm hchange
      · next hchain => exact ⟨not_not.mp haddress, by simpa using hsignature, not_not.mp hchain⟩

theorem replaced_iff {at' : ℤ} (hrec : decode.identityRecord served.record = some rec)
    (h : Accepted b address rec) :
    explainKeyChange b decode address pinned served = some (.replaced at') ↔
      declaredStolen b decode address pinned rec served.removal = some none ∧
        retiredInLineage b decode address pinned rec served.history = some (some ⟨at', false⟩) := by
  rw [explainKeyChange_accepted hrec h]
  constructor
  · intro heq
    split at heq
    · cases heq
    · cases heq
    · next hnone =>
      split at heq
      · cases heq
      · cases heq
      · next handover hsome =>
        obtain ⟨when, byRecovery⟩ := handover
        cases byRecovery with
        | true => cases heq
        | false =>
          obtain rfl : when = at' := by simpa using heq
          exact ⟨hnone, hsome⟩
  · rintro ⟨hnone, hsome⟩
    rw [hnone, hsome]
    rfl

theorem reportedStolen_iff {at' : ℤ} (hrec : decode.identityRecord served.record = some rec)
    (h : Accepted b address rec) :
    explainKeyChange b decode address pinned served = some (.reportedStolen at') ↔
      declaredStolen b decode address pinned rec served.removal = some (some at') := by
  rw [explainKeyChange_accepted hrec h]
  constructor
  · intro heq
    split at heq
    · cases heq
    · next hsome =>
      obtain rfl : _ = at' := by simpa using heq
      exact hsome
    · split at heq
      · cases heq
      · cases heq
      · next handover hsome =>
        obtain ⟨when, byRecovery⟩ := handover
        cases byRecovery with
        | true => cases heq
        | false => cases heq
  · intro hsome
    rw [hsome]

theorem retiredAt_entry {key : Bytes} {chain : List DecodedEntry} {at' : ℤ}
    (hchain : ∀ e ∈ chain, verifyRotationEntry b e = .ok ())
    (h : retiredAt chain (toBase64 key) = some ⟨at', false⟩) :
    ∃ e ∈ chain, e.fields.retiredEd25519PublicKey = key ∧
      b.verify key (Ctx.identityRotation.tag ++ e.consentBytes) e.fields.signature = true := by
  obtain ⟨e, hfind, hhandover⟩ := Option.map_eq_some_iff.mp h
  have hretired : toBase64 e.fields.retiredEd25519PublicKey = toBase64 key := by
    simpa using List.find?_some hfind
  have hmem : e ∈ chain := List.mem_of_find?_eq_some hfind
  have hauthorizing : toBase64 e.fields.authorizingEd25519PublicKey = toBase64 key := by
    have hby := congrArg Handover.byRecoveryKey hhandover
    simpa using hby
  have hconsent := verifyRotationEntry_consent (hchain e hmem)
  rw [toBase64_injective hauthorizing] at hconsent
  exact ⟨e, hmem, toBase64_injective hretired, hconsent⟩

theorem historyChain_entry {history : Option String} {chain : List DecodedEntry}
    (h : historyChain b decode address rec history = some chain) : ∀ e ∈ chain,
    verifyRotationEntry b e = .ok () := by
  unfold historyChain at h
  have hnil : ∀ chain', some ([] : List DecodedEntry) = some chain' → ∀ e ∈ chain',
      verifyRotationEntry b e = .ok () := by
    intro chain' heq e he
    rw [← Option.some.inj heq] at he
    exact absurd he List.not_mem_nil
  split at h
  · exact hnil chain h
  · split at h
    · cases h
    · split at h
      · exact hnil chain h
      · split at h
        · exact hnil chain h
        · split at h
          · exact hnil chain h
          · split at h
            · exact hnil chain h
            · next hlinks =>
              rw [← Option.some.inj h]
              exact VerifyRotation.verifyChainLinks_entry (not_not.mp hlinks)

theorem retiredInLineage_entry {key : Bytes} {history : Option String} {at' : ℤ}
    (hrec : verifyRecordChain b rec = .ok ()) (h : retiredInLineage b decode address (toBase64 key)
      rec history = some (some ⟨at', false⟩)) :
    ∃ e, (e ∈ rec.rotationChain ∨ ∃ chain, historyChain b decode address rec history = some chain ∧
      e ∈ chain) ∧
      e.fields.retiredEd25519PublicKey = key ∧
      b.verify key (Ctx.identityRotation.tag ++ e.consentBytes) e.fields.signature = true := by
  unfold retiredInLineage at h
  split at h
  · next handover hrecord =>
    rw [Option.some.inj (Option.some.inj h)] at hrecord
    obtain ⟨e, hmem, hspec⟩ := retiredAt_entry (verifyRecordChain_entry hrec) hrecord
    exact ⟨e, .inl hmem, hspec⟩
  · obtain ⟨chain, hchain, hretired⟩ := Option.map_eq_some_iff.mp h
    obtain ⟨e, hmem, hspec⟩ := retiredAt_entry (historyChain_entry hchain) hretired
    exact ⟨e, .inr ⟨chain, hchain, hmem⟩, hspec⟩

theorem declaredStolen_verified {removal : Option String} {at' : ℤ}
    (h : declaredStolen b decode address pinned rec removal = some (some at')) :
    ∃ text rm, given removal = some text ∧ decode.addressRemoval text = some rm ∧
      b.verify rec.ed25519PublicKey (removalSigningBytes rm) rm.selfSignature = true := by
  unfold declaredStolen at h
  split at h
  · cases h
  · next text htext =>
    split at h
    · cases h
    · next rm hrm =>
      split at h
      · cases h
      · split at h
        · cases h
        · split at h
          · next hverify => exact ⟨text, rm, htext, hrm, hverify⟩
          · cases h

theorem exists_record {change : KeyChange}
    (h : explainKeyChange b decode address pinned served = some change) :
    ∃ rec, decode.identityRecord served.record = some rec := by
  cases hrec : decode.identityRecord served.record with
  | none =>
    rw [explainKeyChange, hrec] at h
    cases h
  | some rec => exact ⟨rec, rfl⟩

end Spec

/-- An explanation means what it says exactly when the record is under one of the owner's keys where
that counts. -/
theorem honest_iff_anchored {b : Browser} (w : World b) (decode : Decoders) (address : String)
    (served : Served) :
    Honest w decode address served ↔ Anchored w decode address served := by
  constructor
  · intro hhonest rec hrec hacc
    constructor
    · intro at' hstolen
      obtain ⟨text, rm, k, htext, hrm, hpublished, hverify⟩ :=
        hhonest.reportedStolen at' ((reportedStolen_iff hrec hacc).mpr hstolen)
      obtain ⟨text', rm', htext', hrm', hverify'⟩ := declaredStolen_verified hstolen
      obtain rfl : text = text' := Option.some.inj (htext.symm.trans htext')
      obtain rfl : rm = rm' := Option.some.inj (hrm.symm.trans hrm')
      rw [← (w.binding _ _ _ _ _ hverify hverify').1]
      exact hpublished
    · rintro ⟨at', byRecovery⟩ hnone hlineage rfl
      exact (hhonest.replaced rec at' hrec ((replaced_iff hrec hacc).mpr ⟨hnone, hlineage⟩)).1
  · intro hanchored
    constructor
    · intro rec at' hrec hreplaced
      have hacc : Accepted b address rec := accepted_of_explained hrec hreplaced (by simp)
      obtain ⟨hnone, hlineage⟩ := (replaced_iff hrec hacc).mp hreplaced
      have hfollowed : w.followed rec.ed25519PublicKey :=
        (hanchored rec hrec hacc).2 _ hnone hlineage rfl
      have hself : b.verify rec.ed25519PublicKey (Ctx.identitySelf.tag ++ rec.signableBytes)
          rec.selfSignature = true := by
        have hsignature := hacc.signature
        unfold verifySelfSignature at hsignature
        rw [Bool.and_eq_true] at hsignature
        exact hsignature.2
      obtain ⟨e, hmem, hretired, hconsent⟩ := retiredInLineage_entry hacc.chain hlineage
      refine ⟨hfollowed, ?_, e, hmem, hretired, ?_⟩
      · exact w.unforgeable.signed_of_not_holds (w.not_holds_followed _ hfollowed) hself
      · exact w.unforgeable.signed_of_not_holds w.not_holds_pinned hconsent
    · intro at' hstolen
      obtain ⟨rec, hrec⟩ := exists_record hstolen
      have hacc : Accepted b address rec := accepted_of_explained hrec hstolen (by simp)
      have hdeclared := (reportedStolen_iff hrec hacc).mp hstolen
      obtain ⟨text, rm, htext, hrm, hverify⟩ := declaredStolen_verified hdeclared
      exact ⟨text, rm, rec.ed25519PublicKey, htext, hrm, (hanchored rec hrec hacc).1 at' hdeclared,
        hverify⟩

namespace Spliced

def pinned : Bytes := List.replicate 32 1
def next : Bytes := List.replicate 32 2
def taken : Bytes := List.replicate 32 3

def address : String := "alice@dmcn.email"

def genuine : DecodedEntry where
  fields := ⟨1, address, pinned, [1], next, [2], 100, 2, [], pinned, none, [], [11], [12]⟩
  deviceBytes := []
  consentBytes := [1]
  acceptBytes := [2]

def forged : DecodedEntry where
  fields := ⟨1, address, next, [2], taken, [3], 200, 3, List.replicate 32 11, taken, none, [], [13],
    [14]⟩
  deviceBytes := []
  consentBytes := [3]
  acceptBytes := [4]

def record : DecodedRecord where
  address := address
  ed25519PublicKey := taken
  x25519PublicKey := [3]
  revision := 3
  selfSignature := List.replicate 64 15
  rotationChain := [genuine, forged]
  signableBytes := [5]

def ledger : List (Bytes × Bytes × Bytes) :=
  [(pinned, Ctx.identityRotation.tag ++ [1], [11]),
    (next, Ctx.identityRotationAccept.tag ++ [2], [12]), (taken, Ctx.identityRotation.tag ++ [3],
      [13]), (taken, Ctx.identityRotationAccept.tag ++ [4], [14]),
    (taken, Ctx.identitySelf.tag ++ [5], List.replicate 64 15)]

def browser : Browser where
  verify := Ideal.ledgerVerify ledger
  sha256 b := List.replicate 32 (b.headD 0)
  toLowerCase s := s

def world : World browser where
  party := ⟨fun k => k = taken, fun k m => ∃ s, (k, m, s) ∈ ledger⟩
  pinned := pinned
  followed k := k = next
  published k := k = pinned ∨ k = next
  unforgeable k m s h := .inr (Ideal.ledgerVerify_genuine ledger k m s h)
  binding := Ideal.ledgerVerify_binding ledger (by decide)
  not_holds_pinned := by decide
  not_holds_followed := by
    rintro k rfl
    decide

def decode : Decoders := ⟨fun _ => some record, fun _ => none, fun _ => none⟩

/-- A key that the owner never had is explained as the owner's rotation. -/
theorem key_taken :
    ¬ ∀ (b : Browser) (w : World b) (decode : Decoders) (address : String) (served : Served),
      Honest w decode address served := by
  intro h
  have hhonest := h browser world decode address ⟨"record", none, none⟩
  have hreplaced : explainKeyChange browser decode address (toBase64 pinned)
      ⟨"record", none, none⟩ = some (.replaced 100) := by
    decide
  have hfollowed : taken = next := (hhonest.replaced record 100 rfl hreplaced).1
  exact absurd hfollowed (by decide)

end Spliced

end Dmcn.Web.Lineage
