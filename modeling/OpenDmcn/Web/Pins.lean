import OpenDmcn.Lib.Datastore
import Mathlib.Data.Multiset.MapFold

/-! Pinned identities in the web client (`trust/pinnedKey.ts`, `trust/pinStore.ts`,
`hooks/useContacts.ts`, `api/contactStore.ts`). A pin lies on the device and, for the owner's other
devices, on the contact record that the relay serves; the device reconciles the two each time it
lists the contacts. -/

namespace Dmcn.Web

/-- A member that may be absent is an option, since a spread leaves what is absent as it was. -/
structure PinnedFacts where
  ed25519Pub : String
  x25519Pub : String
  adminKeyCustody : Bool
  noIdentity : Option Bool
  deriving DecidableEq

inductive TrustProvenance where
  | inPerson | fingerprint | networkVouched | orgVerified | userApproved
  deriving DecidableEq

structure ContactRecord where
  v : ℕ
  address : String
  name : String
  fingerprint : String
  notes : Option String
  updatedAt : ℕ
  deviceId : String
  provenance : Option TrustProvenance
  ed25519Pub : Option String
  x25519Pub : Option String
  pinnedAt : Option ℕ
  adminKeyCustody : Option Bool
  noIdentity : Option Bool
  pinSeq : Option ℕ
  deriving DecidableEq

structure LocalPin where
  facts : PinnedFacts
  seq : ℕ
  pinnedAt : ℕ
  deriving DecidableEq

inductive PinAnomaly where
  | kvMissing | kvConflict
  deriving DecidableEq

inductive PinVerdict where
  | unpinned | match' | changed | recordChanged
  deriving DecidableEq

section Facts

def absentIdentityFacts : PinnedFacts := ⟨"", "", false, some true⟩

def contactFacts (contact : ContactRecord) : Option PinnedFacts :=
  if contact.noIdentity = some true then some absentIdentityFacts
  else if contact.ed25519Pub.getD "" = "" then none
  else some ⟨contact.ed25519Pub.getD "", contact.x25519Pub.getD "", contact.adminKeyCustody =
    some true, none⟩

theorem contactFacts_of_key {contact : ContactRecord} (hidentity : contact.noIdentity ≠ some true)
    (hkey : contact.ed25519Pub.getD "" ≠ "") : contactFacts contact =
      some ⟨contact.ed25519Pub.getD "", contact.x25519Pub.getD "", contact.adminKeyCustody =
        some true, none⟩ := by
  unfold contactFacts
  rw [if_neg hidentity, if_neg hkey]

def unchanged (pinned observed : PinnedFacts) : Bool :=
  ((pinned.noIdentity = some true) = (observed.noIdentity = some true)) ∧
    (pinned.ed25519Pub = "" ∨ pinned.ed25519Pub = observed.ed25519Pub) ∧
    (pinned.x25519Pub = "" ∨ pinned.x25519Pub = observed.x25519Pub) ∧
    pinned.adminKeyCustody = observed.adminKeyCustody

def checkPin (contact : Option ContactRecord) (observed : Option PinnedFacts) : PinVerdict :=
  match contact.bind contactFacts, observed with
  | some pinned, some observed =>
    if observed.ed25519Pub = "" ∧ observed.noIdentity ≠ some true then .unpinned
    else if unchanged pinned observed then .match'
    else if (pinned.noIdentity = some true) ≠ (observed.noIdentity = some true) then .changed
    else if pinned.ed25519Pub ≠ observed.ed25519Pub then .changed
    else if pinned.x25519Pub ≠ "" ∧ pinned.x25519Pub ≠ observed.x25519Pub then .changed
    else .recordChanged
  | _, _ => .unpinned

/-- `checkPin` compares with these facts: its verdict is that of any contact that carries them, and
it is not 'unpinned' where there is something to compare. -/
def ComparedWith (facts : PinnedFacts) (contact : ContactRecord) : Prop :=
  (∀ other observed, contactFacts other = some facts →
    checkPin (some contact) observed = checkPin (some other) observed) ∧
  ∀ observed : PinnedFacts, observed.ed25519Pub ≠ "" ∨ observed.noIdentity = some true →
    checkPin (some contact) (some observed) ≠ .unpinned

theorem comparedWith_of_facts {facts : PinnedFacts} {contact : ContactRecord}
    (h : contactFacts contact = some facts) : ComparedWith facts contact := by
  constructor
  · intro other observed hother
    unfold checkPin
    rw [Option.bind_some, Option.bind_some, h, hother]
  · intro observed hobserved
    have hcompared : ¬ (observed.ed25519Pub = "" ∧ observed.noIdentity ≠ some true) := by
      rintro ⟨hkey, hidentity⟩
      exact hobserved.elim (fun hne => hne hkey) hidentity
    unfold checkPin
    rw [Option.bind_some, h]
    dsimp only
    rw [if_neg hcompared]
    split_ifs <;> exact PinVerdict.noConfusion

def samePin (a b : PinnedFacts) : Bool :=
  a.ed25519Pub = b.ed25519Pub ∧ a.x25519Pub = b.x25519Pub ∧ a.adminKeyCustody = b.adminKeyCustody

end Facts

section Reconcile

def LocalPin.localFacts (pin : LocalPin) : PinnedFacts :=
  ⟨pin.facts.ed25519Pub, pin.facts.x25519Pub, pin.facts.adminKeyCustody, none⟩

def makePin (facts : PinnedFacts) (seq now : ℕ) : LocalPin := ⟨facts, max 1 seq, now⟩

structure PinDecision where
  facts : Option PinnedFacts
  seq : ℕ
  anomaly : Option PinAnomaly
  adopt : Option LocalPin
  heal : Bool
  deriving DecidableEq

def reconcilePin (now : ℕ) (local' : Option LocalPin) (kv : Option PinnedFacts) (kvSeq : ℕ) :
    PinDecision :=
  let kvSeqN := if kvSeq ≠ 0 then kvSeq else if kv.isSome then 1 else 0
  match local' with
  | none =>
    match kv with
    | none => ⟨none, 0, none, none, false⟩
    | some kv =>
      if kv.ed25519Pub = "" then ⟨none, 0, none, none, false⟩
      else ⟨some kv, kvSeqN, none, some (makePin kv kvSeqN now), false⟩
  | some pin =>
    match kv with
    | none => ⟨some pin.localFacts, pin.seq, some .kvMissing, none, true⟩
    | some kv =>
      if kv.ed25519Pub = "" then ⟨some pin.localFacts, pin.seq, some .kvMissing, none, true⟩
      else if samePin pin.localFacts kv
        then ⟨some pin.localFacts, max pin.seq kvSeqN, none, none, false⟩
      else if kvSeqN > pin.seq then ⟨some kv, kvSeqN, none, some (makePin kv kvSeqN now), false⟩
      else ⟨some pin.localFacts, pin.seq, some .kvConflict, none, false⟩

def ContactRecord.spread (rec : ContactRecord) (facts : PinnedFacts) (seq : ℕ) : ContactRecord :=
  { rec with
    ed25519Pub := some facts.ed25519Pub
    x25519Pub := some facts.x25519Pub
    adminKeyCustody := some facts.adminKeyCustody
    noIdentity := facts.noIdentity.orElse fun _ => rec.noIdentity
    pinSeq := some seq }

end Reconcile

structure PinAlert where
  address : String
  anomaly : PinAnomaly
  deriving DecidableEq

structure Device where
  /-- By the lower-case address. -/
  pins : String → Option LocalPin
  records : List ContactRecord
  pinAlerts : List PinAlert

structure RecordSig where
  address : String
  v : ℕ
  updatedAt : ℕ
  name : String
  fingerprint : String
  provenance : Option TrustProvenance
  ed25519Pub : String
  x25519Pub : String
  adminKeyCustody : Bool
  pinSeq : ℕ
  deriving DecidableEq

inductive PinMode where
  | lazy | force
  deriving DecidableEq

section Store

def writePin (deviceHex : String) (now : ℕ) (entry : Option ContactRecord) (facts : PinnedFacts)
    (seq : ℕ) (mode : PinMode) :
    Option ContactRecord := do
  let rec' ← entry
  if mode = .lazy ∧ rec'.ed25519Pub.getD "" ≠ "" then none
  else return { rec' with
    v := 3
    ed25519Pub := some facts.ed25519Pub
    x25519Pub := some facts.x25519Pub
    adminKeyCustody := some facts.adminKeyCustody
    pinSeq := some (max 1 seq)
    pinnedAt := some now
    updatedAt := now
    deviceId := deviceHex }

structure Contact where
  address : String
  name : String
  fingerprint : String
  deriving DecidableEq

structure AllowlistInput where
  address : String
  name : String
  fingerprint : String
  provenance : TrustProvenance
  ed25519Pub : Option String
  x25519Pub : Option String
  adminKeyCustody : Option Bool
  noIdentity : Option Bool
  deriving DecidableEq

def Contact.record (c : Contact) (v now : ℕ) (deviceId : String) : ContactRecord :=
  ⟨v, c.address, c.name, c.fingerprint, none, now, deviceId, none, none, none, none, none, none,
    none⟩

def AllowlistInput.record (i : AllowlistInput) (pinSeq : Option ℕ) (now : ℕ) (deviceId : String) :
    ContactRecord :=
  ⟨3, i.address, i.name, i.fingerprint, none, now, deviceId, some i.provenance, i.ed25519Pub,
    i.x25519Pub, none, i.adminKeyCustody, i.noIdentity, pinSeq⟩

def AllowlistInput.facts (i : AllowlistInput) : Option PinnedFacts :=
  if i.noIdentity = some true then some absentIdentityFacts
  else if i.ed25519Pub.getD "" = "" then none
  else some ⟨i.ed25519Pub.getD "", i.x25519Pub.getD "", i.adminKeyCustody = some true, none⟩

structure Patch where
  name : Option String
  notes : Option String
  deriving DecidableEq

def Patch.apply (patch : Patch) (rec' : ContactRecord) (now : ℕ) (deviceHex : String) :
    ContactRecord :=
  { rec' with
    name := patch.name.getD rec'.name
    notes := patch.notes.orElse fun _ => rec'.notes
    v := 3
    updatedAt := now
    deviceId := deviceHex }

end Store

section Device

variable (normAddr : String → String)

def sigFields (r : ContactRecord) : RecordSig where
  address := normAddr r.address
  v := r.v
  updatedAt := r.updatedAt
  name := r.name
  fingerprint := r.fingerprint
  provenance := r.provenance
  ed25519Pub := r.ed25519Pub.getD ""
  x25519Pub := r.x25519Pub.getD ""
  adminKeyCustody := r.adminKeyCustody = some true
  pinSeq := r.pinSeq.getD 0

def recordsSig (list : List ContactRecord) : Multiset RecordSig :=
  Multiset.ofList (list.map (sigFields normAddr))

def alertsSig (list : List PinAlert) : Multiset (String × PinAnomaly) :=
  Multiset.ofList (list.map fun a => (normAddr a.address, a.anomaly))

def decisionFor (now : ℕ) (pins : String → Option LocalPin) (rec' : ContactRecord) : PinDecision :=
  reconcilePin now (pins (normAddr rec'.address)) (contactFacts rec') (rec'.pinSeq.getD 0)

def shownFor (now : ℕ) (pins : String → Option LocalPin) (rec' : ContactRecord) : ContactRecord :=
  let decision := decisionFor normAddr now pins rec'
  match decision.facts with
  | some facts => rec'.spread facts decision.seq
  | none => rec'

def alertFor (now : ℕ) (pins : String → Option LocalPin) (rec' : ContactRecord) : Option PinAlert :=
  (decisionFor normAddr now pins rec').anomaly.map fun anomaly => ⟨rec'.address, anomaly⟩

def healFor (now : ℕ) (pins : String → Option LocalPin) (rec' : ContactRecord) :
    Option (PinnedFacts × ℕ) :=
  let decision := decisionFor normAddr now pins rec'
  if decision.heal then decision.facts.map fun facts => (facts, decision.seq) else none

def savePin (pins : String → Option LocalPin) (address : String) (pin : LocalPin) : String →
    Option LocalPin :=
  Function.update pins (normAddr address) (some pin)

def adoptOne (now : ℕ) (loaded pins : String → Option LocalPin) (rec' : ContactRecord) : String →
    Option LocalPin :=
  match (decisionFor normAddr now loaded rec').adopt with
  | some pin => savePin normAddr pins rec'.address pin
  | none => pins

/-- The adoptions of a list, in the order in which they are saved. All are decided on the pins as
they were loaded. -/
def adoptAll (now : ℕ) (loaded : String → Option LocalPin) (list : List ContactRecord)
    (pins : String → Option LocalPin) :
    String → Option LocalPin :=
  list.foldl (adoptOne normAddr now loaded) pins

/-- `load`, with the list that the relay served: the records and alerts shown are left as they are
where nothing that is compared has changed. -/
def Device.load (now : ℕ) (d : Device) (list : List ContactRecord) : Device :=
  let records := list.map (shownFor normAddr now d.pins)
  let alerts := list.filterMap (alertFor normAddr now d.pins)
  { pins := adoptAll normAddr now d.pins list d.pins
    records := if recordsSig normAddr d.records = recordsSig normAddr records then d.records
      else records
    pinAlerts := if alertsSig normAddr d.pinAlerts = alertsSig normAddr alerts then d.pinAlerts
      else alerts }

def Device.contactByAddress (d : Device) (address : String) : Option ContactRecord :=
  d.records.reverse.find? fun r => normAddr r.address = normAddr address

def without (address : String) (records : List ContactRecord) : List ContactRecord :=
  records.filter fun r => normAddr r.address ≠ normAddr address

def Device.addContact (d : Device) (contact : Contact) (now : ℕ) : Device :=
  { d with records := without normAddr contact.address d.records ++ [contact.record 2 now ""] }

def Device.updateContact (d : Device) (address : String) (rec' : ContactRecord) : Device :=
  { d with records := d.records.map fun c => if normAddr c.address = normAddr address then rec'
    else c }

def Device.nextSeq (d : Device) (address : String) : ℕ :=
  ((d.pins (normAddr address)).map LocalPin.seq).getD 0 + 1

def Device.allowlistSeq (d : Device) (input : AllowlistInput) : Option ℕ :=
  input.facts.map fun _ => d.nextSeq normAddr input.address

def Device.allowlistPin (d : Device) (input : AllowlistInput) (now : ℕ) : Device :=
  match input.facts with
  | some facts =>
    { d with
      pins := savePin normAddr d.pins input.address
        (makePin facts (d.nextSeq normAddr input.address) now) }
  | none => d

def Device.allowlist (d : Device) (input : AllowlistInput) (now shownAt : ℕ) : Device :=
  let seq := d.allowlistSeq normAddr input
  let d := d.allowlistPin normAddr input now
  { d with
    records := without normAddr input.address d.records ++ [input.record seq shownAt ""]
    pinAlerts := d.pinAlerts.filter fun a => normAddr a.address ≠ normAddr input.address }

def Device.pinKey (d : Device) (address : String) (facts : PinnedFacts) (now : ℕ) : Device :=
  if facts.ed25519Pub = "" then d
  else if (d.pins (normAddr address)).isSome then d
  else
    { d with
      pins := savePin normAddr d.pins address (makePin facts 1 now)
      records := d.records.map fun c =>
        if normAddr c.address = normAddr address ∧ c.ed25519Pub.getD "" = "" then
          { c.spread facts 1 with pinnedAt := some now }
        else c }

def Device.removeContact (d : Device) (address : String) : Device where
  pins := Function.update d.pins (normAddr address) none
  records := without normAddr address d.records
  pinAlerts := d.pinAlerts.filter fun a => normAddr a.address ≠ normAddr address

def Device.renew (d : Device) : Device := ⟨d.pins, [], []⟩

end Device

section Adopt

variable {normAddr : String → String} {now : ℕ} {loaded : String → Option LocalPin}
  {list : List ContactRecord} {k : String}

theorem adoptAll_of_none
    (h : ∀ rec' ∈ list, normAddr rec'.address = k → (decisionFor normAddr now loaded rec').adopt =
      none)
    (pins : String → Option LocalPin) : adoptAll normAddr now loaded list pins k = pins k := by
  induction list generalizing pins with
  | nil => rfl
  | cons rec' list ih =>
    have hrest := ih fun r hr => h r (List.mem_cons_of_mem rec' hr)
    unfold adoptAll at hrest ⊢
    rw [List.foldl_cons, hrest]
    unfold adoptOne
    cases hadopt : (decisionFor normAddr now loaded rec').adopt with
    | none => rfl
    | some saved =>
      have hother : k ≠ normAddr rec'.address := by
        intro hk
        rw [h rec' List.mem_cons_self hk.symm] at hadopt
        cases hadopt
      exact Function.update_of_ne hother _ _

theorem adoptAll_of_some {pin : LocalPin}
    (h : ∀ rec' ∈ list, normAddr rec'.address = k → (decisionFor normAddr now loaded rec').adopt =
      some pin)
    {pins : String → Option LocalPin}
    (hsome : pins k = some pin ∨ ∃ rec' ∈ list, normAddr rec'.address = k) :
    adoptAll normAddr now loaded list pins k = some pin := by
  induction list generalizing pins with
  | nil =>
    rcases hsome with hpins | ⟨rec', hrec, -⟩
    · exact hpins
    · cases hrec
  | cons rec' list ih =>
    have hrest := @ih fun r hr => h r (List.mem_cons_of_mem rec' hr)
    unfold adoptAll at hrest ⊢
    rw [List.foldl_cons]
    apply hrest
    by_cases hk : normAddr rec'.address = k
    · left
      unfold adoptOne
      rw [h rec' List.mem_cons_self hk, ← hk]
      exact Function.update_self ..
    · rcases hsome with hpins | ⟨r, hr, haddr⟩
      · left
        unfold adoptOne
        cases (decisionFor normAddr now loaded rec').adopt with
        | none => exact hpins
        | some other =>
          change Function.update pins (normAddr rec'.address) (some other) k = some pin
          rw [Function.update_of_ne (Ne.symm hk)]
          exact hpins
      · right
        rcases List.mem_cons.mp hr with rfl | hr
        · exact absurd haddr hk
        · exact ⟨r, hr, haddr⟩

end Adopt

end Dmcn.Web
