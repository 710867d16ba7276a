import OpenDmcn.Lib.Run
import OpenDmcn.Web.Pins

/-! A held pin against a relay that serves old contacts (`trust/pinStore.ts`,
`hooks/useContacts.ts`). The relay chooses what is served to each call, out of what the owner has
written; the pin of the device is to be the one that is compared. -/

namespace Dmcn.Web

/-- What the owner does on one device, with what the relay answers and the clock says. -/
inductive ContactCall where
  /-- The list that is served, and the record that is served to each heal. -/
  | load (served : List ContactRecord) (heals : List (Option ContactRecord)) (now : ℕ)
  | addContact (contact : Contact) (stored : Bool) (now shownAt : ℕ)
  | updateContact (address : String) (patch : Patch) (served : Option ContactRecord) (stored : Bool)
    (now : ℕ)
  | allowlist (input : AllowlistInput) (stored : Bool) (now shownAt : ℕ)
  | pinKey (address : String) (facts : PinnedFacts) (served : Option ContactRecord) (now : ℕ)
  | removeContact (address : String) (deleted : Bool)
  | renew

structure Client where
  device : Device
  written : List ContactRecord

section Client

variable (normAddr : String → String) (deviceHex : String)

def Client.call (s : Client) : ContactCall → Client
  | .load served heals now =>
    let asked := served.filterMap (healFor normAddr now s.device.pins)
    let healed := (asked.zip heals).filterMap fun h => writePin deviceHex now h.2 h.1.1 h.1.2 .force
    ⟨s.device.load normAddr now served, s.written ++ healed⟩
  | .addContact contact stored now shownAt =>
    let written := s.written ++ [contact.record 3 now deviceHex]
    ⟨if stored then s.device.addContact normAddr contact shownAt else s.device, written⟩
  | .updateContact address patch served stored now =>
    match served with
    | none => s
    | some rec' =>
      let rec' := patch.apply rec' now deviceHex
      ⟨if stored then s.device.updateContact normAddr address rec' else s.device,
        s.written ++ [rec']⟩
  | .allowlist input stored now shownAt =>
    let written := s.written ++ [input.record (s.device.allowlistSeq normAddr input) now deviceHex]
    ⟨if stored then s.device.allowlist normAddr input now shownAt
      else s.device.allowlistPin normAddr input now, written⟩
  | .pinKey address facts served now =>
    let written := if facts.ed25519Pub = "" ∨ (s.device.pins (normAddr address)).isSome then []
      else (writePin deviceHex now served facts 1 .lazy).toList
    ⟨s.device.pinKey normAddr address facts now, s.written ++ written⟩
  | .removeContact address deleted =>
    ⟨if deleted then s.device.removeContact normAddr address else s.device, s.written⟩
  | .renew => ⟨s.device.renew, s.written⟩

end Client

section Floor

variable {normAddr : String → String} {deviceHex : String} {address : String} {pin : LocalPin}
  {d : Device}

structure LocalPin.Made (pin : LocalPin) : Prop where
  kind : pin.facts = absentIdentityFacts ∨ pin.facts.ed25519Pub ≠ "" ∧ pin.facts.noIdentity = none
  seq_pos : 1 ≤ pin.seq

/-- Whatever the device shows for an address is compared with the pin that it holds. -/
structure Device.Holds (normAddr : String → String) (address : String) (pin : LocalPin)
    (d : Device) : Prop where
  pinned : d.pins (normAddr address) = some pin
  shown : ∀ rec' ∈ d.records, normAddr rec'.address = normAddr address →
    contactFacts rec' = some pin.facts

/-- The call is none that may end what the pin promises: an approval or a removal of the address by
the owner, or a pin served for it whose sequence is higher. -/
def Ends (normAddr : String → String) (address : String) (pin : LocalPin) : ContactCall → Prop
  | .load served _ _ =>
    ∃ rec' ∈ served, normAddr rec'.address = normAddr address ∧ contactFacts rec' ≠ none ∧
      pin.seq < rec'.pinSeq.getD 0
  | .allowlist input _ _ _ => normAddr input.address = normAddr address
  | .removeContact other _ => normAddr other = normAddr address
  | _ => False

/-- Records that are listed for the address have an identity just if the pin has one; what is
written over for it carries the pin; and it is not added as a contact again. -/
def Agrees (normAddr : String → String) (address : String) (pin : LocalPin) : ContactCall → Prop
  | .load served _ _ => ∀ rec' ∈ served, normAddr rec'.address = normAddr address →
      (rec'.noIdentity = some true ↔ pin.facts.noIdentity = some true)
  | .addContact contact stored _ _ => stored = true → normAddr contact.address ≠ normAddr address
  | .updateContact _ _ served _ _ => ∀ rec' ∈ served, normAddr rec'.address = normAddr address →
      contactFacts rec' = some pin.facts
  | _ => True

theorem reconcilePin_held (now : ℕ) (hpos : 1 ≤ pin.seq) {kv : Option PinnedFacts} {kvSeq : ℕ}
    (hseq : kv ≠ none → kvSeq ≤ pin.seq) :
    (reconcilePin now (some pin) kv kvSeq).adopt = none ∧
      (reconcilePin now (some pin) kv kvSeq).facts = some pin.localFacts := by
  cases kv with
  | none => exact ⟨rfl, rfl⟩
  | some kv =>
    have hle : (if kvSeq ≠ 0 then kvSeq else if (some kv).isSome then 1 else 0) ≤ pin.seq := by
      have hkv := hseq (Option.some_ne_none kv)
      split
      · exact hkv
      · exact hpos
    unfold reconcilePin
    dsimp only
    split
    · exact ⟨rfl, rfl⟩
    · split
      · exact ⟨rfl, rfl⟩
      · rw [if_neg (Nat.not_lt.mpr hle)]
        exact ⟨rfl, rfl⟩

theorem contactFacts_spread (hpin : pin.Made) {rec' : ContactRecord}
    (hagree : rec'.noIdentity = some true ↔ pin.facts.noIdentity = some true) (seq : ℕ) :
    contactFacts (rec'.spread pin.localFacts seq) = some pin.facts := by
  have hspread : (rec'.spread pin.localFacts seq).noIdentity = rec'.noIdentity := rfl
  rcases hpin.kind with habsent | ⟨hkey, hnone⟩
  · have hidentity : rec'.noIdentity = some true := by
      rw [hagree, habsent]
      rfl
    unfold contactFacts
    rw [hspread, if_pos hidentity, habsent]
  · have hidentity : rec'.noIdentity ≠ some true := by
      rw [Ne, hagree, hnone]
      simp
    have hkey' : (rec'.spread pin.localFacts seq).ed25519Pub.getD "" ≠ "" := hkey
    rw [contactFacts_of_key (by rwa [hspread]) hkey', ← hnone]
    simp [ContactRecord.spread, LocalPin.localFacts]

theorem Device.Holds.load (h : d.Holds normAddr address pin) (hpin : pin.Made)
    {served : List ContactRecord} (heals : List (Option ContactRecord)) (now : ℕ)
    (hends : ¬ Ends normAddr address pin (.load served heals now))
    (hagrees : Agrees normAddr address pin (.load served heals now)) :
    (d.load normAddr now served).Holds normAddr address pin := by
  have hdecision : ∀ rec' ∈ served, normAddr rec'.address = normAddr address →
      (decisionFor normAddr now d.pins rec').adopt = none ∧
        (decisionFor normAddr now d.pins rec').facts = some pin.localFacts := by
    intro rec' hrec haddr
    unfold decisionFor
    rw [haddr, h.pinned]
    apply reconcilePin_held now hpin.seq_pos
    intro hkv
    by_contra hlt
    exact hends ⟨rec', hrec, haddr, hkv, Nat.lt_of_not_le hlt⟩
  constructor
  · change adoptAll normAddr now d.pins served d.pins (normAddr address) = some pin
    rw [adoptAll_of_none fun rec' hrec haddr => (hdecision rec' hrec haddr).1]
    exact h.pinned
  · intro shown hshown haddr
    unfold Device.load at hshown
    dsimp only at hshown
    split at hshown
    · exact h.shown shown hshown haddr
    · obtain ⟨rec', hrec, rfl⟩ := List.mem_map.mp hshown
      have haddr' : normAddr rec'.address = normAddr address := by
        unfold shownFor at haddr
        dsimp only at haddr
        split at haddr
        · exact haddr
        · exact haddr
      unfold shownFor
      dsimp only
      rw [(hdecision rec' hrec haddr').2]
      exact contactFacts_spread hpin (hagrees rec' hrec haddr') _

theorem contactFacts_apply (patch : Patch) (rec' : ContactRecord) (now : ℕ) (deviceHex : String) :
    contactFacts (patch.apply rec' now deviceHex) = contactFacts rec' := rfl

theorem Device.Holds.pinKey (h : d.Holds normAddr address pin) (other : String)
    (facts : PinnedFacts) (now : ℕ) :
    (d.pinKey normAddr other facts now).Holds normAddr address pin := by
  unfold Device.pinKey
  split
  · exact h
  · split
    · exact h
    · next hnone =>
      have hother : normAddr address ≠ normAddr other := by
        intro haddr
        rw [← haddr, h.pinned] at hnone
        exact hnone rfl
      constructor
      · change Function.update d.pins (normAddr other) _ (normAddr address) = some pin
        rw [Function.update_of_ne hother]
        exact h.pinned
      · intro shown hshown haddr
        obtain ⟨c, hc, heq⟩ := List.mem_map.mp hshown
        split at heq
        · next hc' =>
          subst heq
          exact absurd (haddr.symm.trans hc'.1) hother
        · subst heq
          exact h.shown c hc haddr

theorem shown_without (h : d.Holds normAddr address pin) {other : String} {new : List ContactRecord}
    (hnew : ∀ rec' ∈ new, normAddr rec'.address ≠ normAddr address) {shown : ContactRecord}
    (hshown : shown ∈ without normAddr other d.records ++ new)
    (haddr : normAddr shown.address = normAddr address) :
    contactFacts shown = some pin.facts := by
  rcases List.mem_append.mp hshown with hold | hadded
  · exact h.shown shown (List.mem_of_mem_filter hold) haddr
  · exact absurd haddr (hnew shown hadded)

theorem Device.Holds.addContact (h : d.Holds normAddr address pin) {contact : Contact} (now : ℕ)
    (hother : normAddr contact.address ≠ normAddr address) :
    (d.addContact normAddr contact now).Holds normAddr address pin := by
  refine ⟨h.pinned, fun shown hshown haddr => ?_⟩
  apply shown_without h _ hshown haddr
  intro rec' hrec
  rw [List.mem_singleton.mp hrec]
  exact hother

theorem Device.Holds.updateContact (h : d.Holds normAddr address pin) (other : String)
    {rec' : ContactRecord}
    (hrec : normAddr rec'.address = normAddr address → contactFacts rec' = some pin.facts) :
    (d.updateContact normAddr other rec').Holds normAddr address pin := by
  refine ⟨h.pinned, fun shown hshown haddr => ?_⟩
  obtain ⟨c, hc, heq⟩ := List.mem_map.mp hshown
  split at heq
  · subst heq
    exact hrec haddr
  · subst heq
    exact h.shown c hc haddr

theorem Device.Holds.allowlistPin (h : d.Holds normAddr address pin) {input : AllowlistInput}
    (now : ℕ) (hother : normAddr input.address ≠ normAddr address) :
    (d.allowlistPin normAddr input now).Holds normAddr address pin := by
  unfold Device.allowlistPin
  split
  · refine ⟨?_, h.shown⟩
    change Function.update d.pins (normAddr input.address) _ (normAddr address) = some pin
    rw [Function.update_of_ne hother.symm]
    exact h.pinned
  · exact h

theorem Device.Holds.allowlist (h : d.Holds normAddr address pin) {input : AllowlistInput}
    (now shownAt : ℕ) (hother : normAddr input.address ≠ normAddr address) :
    (d.allowlist normAddr input now shownAt).Holds normAddr address pin := by
  have hpinned := h.allowlistPin now hother
  refine ⟨hpinned.pinned, fun shown hshown haddr => ?_⟩
  apply shown_without hpinned _ hshown haddr
  intro rec' hrec
  rw [List.mem_singleton.mp hrec]
  exact hother

theorem Device.Holds.removeContact (h : d.Holds normAddr address pin) {other : String}
    (hother : normAddr other ≠ normAddr address) : (d.removeContact normAddr other).Holds normAddr
    address pin := by
  constructor
  · change Function.update d.pins (normAddr other) none (normAddr address) = some pin
    rw [Function.update_of_ne hother.symm]
    exact h.pinned
  · intro shown hshown haddr
    exact h.shown shown (List.mem_of_mem_filter hshown) haddr

theorem Device.Holds.call {s : Client} (h : s.device.Holds normAddr address pin) (hpin : pin.Made)
    (c : ContactCall) (hends : ¬ Ends normAddr address pin c)
    (hagrees : Agrees normAddr address pin c) :
    (s.call normAddr deviceHex c).device.Holds normAddr address pin := by
  cases c with
  | load served heals now => exact h.load hpin heals now hends hagrees
  | addContact contact stored now shownAt =>
    cases stored with
    | false => exact h
    | true => exact h.addContact shownAt (hagrees rfl)
  | updateContact other patch served stored now =>
    cases served with
    | none => exact h
    | some rec' =>
      cases stored with
      | false => exact h
      | true =>
        apply h.updateContact other
        rw [contactFacts_apply]
        exact hagrees rec' rfl
  | allowlist input stored now shownAt =>
    cases stored with
    | false => exact h.allowlistPin now hends
    | true => exact h.allowlist now shownAt hends
  | pinKey other facts served now => exact h.pinKey other facts now
  | removeContact other deleted =>
    cases deleted with
    | false => exact h
    | true => exact h.removeContact hends
  | renew => exact ⟨h.pinned, fun shown hshown => absurd hshown List.not_mem_nil⟩

/-- In every run whose calls end nothing and agree with the pin, what is shown for the address is
compared with it. -/
theorem pin_is_floor (normAddr : String → String) (deviceHex : String) {address : String}
    {pin : LocalPin} (hpin : pin.Made) {s : Client} (h : s.device.Holds normAddr address pin)
    {calls : List ContactCall} (hcalls : Machine.Along (Client.call normAddr deviceHex)
      (fun _ c => ¬ Ends normAddr address pin c ∧ Agrees normAddr address pin c) s calls) :
    Machine.Throughout (Client.call normAddr deviceHex)
      (fun t => t.device.pins (normAddr address) = some pin ∧
        ∀ rec', t.device.contactByAddress normAddr address = some rec' →
          contactFacts rec' = some pin.facts ∧ ComparedWith pin.facts rec') s calls := by
  have hholds : Machine.Throughout (Client.call normAddr deviceHex)
      (fun t => t.device.Holds normAddr address pin) s calls :=
    Machine.throughout_of_along h (fun t c ht hc => ht.call hpin c hc.1 hc.2) hcalls
  refine hholds.imp fun t ht => ⟨ht.pinned, fun rec' hrec => ?_⟩
  have haddr := List.find?_some hrec
  rw [decide_eq_true_eq] at haddr
  have hfacts := ht.shown rec' (List.mem_reverse.mp (List.mem_of_find?_eq_some hrec)) haddr
  exact ⟨hfacts, comparedWith_of_facts hfacts⟩

end Floor

namespace Bob

def noContacts : Client := ⟨⟨fun _ => none, [], []⟩, []⟩

def address : String := "bob@example.org"

def keys : PinnedFacts := ⟨"S1", "X1", false, none⟩

def contact : Contact := ⟨address, "Bob", "F1"⟩

def trusted : AllowlistInput :=
  ⟨address, "Bob", "F1", .userApproved, some "S1", some "X1", some false, none⟩

def gone : AllowlistInput := ⟨address, "Bob", "F1", .userApproved, none, none, none, some true⟩

def approved : Client := Machine.run (Client.call id "d1") noContacts
    [.addContact contact true 10 10, .allowlist trusted true 20 20]

def unpinnedRecord : ContactRecord := contact.record 3 10 "d1"

def pin : LocalPin := ⟨keys, 1, 20⟩

def renamed : Client := approved.call id "d1"
    (.updateContact address ⟨some "Robert", none⟩ (some unpinnedRecord) true 30)

def confirmed : Client := approved.call id "d1" (.allowlist gone true 30 30)

def listed : Client := confirmed.call id "d1" (.load [unpinnedRecord] [] 40)

/-- The device holds its pin, and shows a record that has nothing to compare with. -/
theorem pin_dropped :
    unpinnedRecord ∈ approved.written ∧ (approved.device.contactByAddress id address).bind
      contactFacts = some keys ∧
      renamed.device.pins address = approved.device.pins address ∧
      (renamed.device.contactByAddress id address).isSome = true ∧
      (renamed.device.contactByAddress id address).bind contactFacts = none ∧
      checkPin (renamed.device.contactByAddress id address) (some keys) = .unpinned ∧
      (confirmed.device.contactByAddress id address).bind contactFacts = some absentIdentityFacts ∧
      listed.device.pins address = confirmed.device.pins address ∧
      (listed.device.contactByAddress id address).isSome = true ∧
      (listed.device.contactByAddress id address).bind contactFacts = none := by
  decide

/-- The first record in a list only, and the device keeps to its pin. -/
theorem pin_kept : Machine.Throughout (Client.call id "d1")
    (fun t => t.device.pins address = some pin ∧
      ∀ rec', t.device.contactByAddress id address = some rec' →
        contactFacts rec' = some keys ∧ ComparedWith keys rec')
    approved [.load [unpinnedRecord] [none] 30, .renew, .load [unpinnedRecord] [none] 40] := by
  have hmade : pin.Made := ⟨.inr ⟨by decide, rfl⟩, le_rfl⟩
  have hholds : approved.device.Holds id address pin := by
    refine ⟨rfl, fun rec' hrec _ => ?_⟩
    rw [List.mem_singleton.mp (show rec' ∈ [trusted.record (some 1) 20 ""] from hrec)]
    rfl
  refine pin_is_floor id "d1" hmade hholds (Machine.along_of_mem fun c hc s => ?_)
  simp only [List.mem_cons, List.not_mem_nil, or_false] at hc
  rcases hc with rfl | rfl | rfl
  · simp [Ends, Agrees, unpinnedRecord, Contact.record, contactFacts, contact, pin, keys]
  · simp [Ends, Agrees]
  · simp [Ends, Agrees, unpinnedRecord, Contact.record, contactFacts, contact, pin, keys]

end Bob

end Dmcn.Web
