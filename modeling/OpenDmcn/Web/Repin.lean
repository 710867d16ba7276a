import OpenDmcn.Lib.Run
import OpenDmcn.Web.Pins
import Mathlib.Data.List.AList

/-! Pinning anew on several devices (`trust/pinStore.ts`, `hooks/useContacts.ts`,
`api/contactStore.ts`). The devices of one owner share the contacts of an honest relay. Each has
pins of its own, and takes a pin of the others for a higher sequence only. -/

namespace Dmcn.Web

structure ContactsKv (normAddr : String → String) where
  rows : AList fun _ : String => ContactRecord
  keyed : ∀ k r, rows.lookup k = some r → normAddr r.address = k

namespace ContactsKv

variable {normAddr : String → String} (kv : ContactsKv normAddr)

def get (address : String) : Option ContactRecord := kv.rows.lookup (normAddr address)

def list : List ContactRecord := kv.rows.entries.map Sigma.snd

def put (rec' : ContactRecord) : ContactsKv normAddr where
  rows := kv.rows.insert (normAddr rec'.address) rec'
  keyed := by
    intro k r h
    by_cases hk : k = normAddr rec'.address
    · subst hk
      rw [AList.lookup_insert] at h
      cases h
      rfl
    · rw [AList.lookup_insert_ne hk] at h
      exact kv.keyed k r h

def delete (address : String) : ContactsKv normAddr where
  rows := kv.rows.erase (normAddr address)
  keyed := by
    intro k r h
    by_cases hk : k = normAddr address
    · subst hk
      rw [AList.lookup_erase] at h
      cases h
    · rw [AList.lookup_erase_ne hk] at h
      exact kv.keyed k r h

def healPin (deviceHex : String) (now : ℕ) (address : String) (facts : PinnedFacts) (seq : ℕ) :
    ContactsKv normAddr :=
  match writePin deviceHex now (kv.get address) facts seq .force with
  | some rec' => kv.put rec'
  | none => kv

def healAll (deviceHex : String) (now : ℕ) (pins : String → Option LocalPin)
    (list : List ContactRecord) :
    ContactsKv normAddr :=
  list.foldl (fun kv rec' =>
    match healFor normAddr now pins rec' with
    | some (facts, seq) => kv.healPin deviceHex now rec'.address facts seq
    | none => kv) kv

theorem mem_list {r : ContactRecord} : r ∈ kv.list ↔ kv.get r.address = some r := by
  unfold list get
  rw [List.mem_map]
  constructor
  · rintro ⟨⟨k, r'⟩, hmem, rfl⟩
    have hlookup := AList.mem_lookup_iff.mpr hmem
    rw [kv.keyed k r' hlookup]
    exact hlookup
  · intro hlookup
    exact ⟨⟨_, r⟩, AList.mem_lookup_iff.mp hlookup, rfl⟩

theorem get_put (rec' : ContactRecord) {address : String}
    (h : normAddr rec'.address = normAddr address) :
    (kv.put rec').get address = some rec' := by
  unfold get put
  rw [← h]
  exact AList.lookup_insert _

theorem get_put_of_ne (rec' : ContactRecord) {address : String}
    (h : normAddr rec'.address ≠ normAddr address) :
    (kv.put rec').get address = kv.get address := AList.lookup_insert_ne h.symm

end ContactsKv

structure Owner (normAddr : String → String) (ι : Type) where
  devices : ι → Device
  kv : ContactsKv normAddr

inductive OwnerStep (ι : Type) where
  | poll (device : ι) (now : ℕ)
  | allowlist (device : ι) (input : AllowlistInput) (now shownAt : ℕ)
  | removeContact (device : ι) (address : String)

namespace Owner

variable {normAddr : String → String} {ι : Type} [DecidableEq ι] (deviceHex : ι → String)

def poll (s : Owner normAddr ι) (i : ι) (now : ℕ) : Owner normAddr ι where
  devices := Function.update s.devices i ((s.devices i).load normAddr now s.kv.list)
  kv := s.kv.healAll (deviceHex i) now (s.devices i).pins s.kv.list

def allowlist (s : Owner normAddr ι) (i : ι) (input : AllowlistInput) (now shownAt : ℕ) :
    Owner normAddr ι where
  devices := Function.update s.devices i ((s.devices i).allowlist normAddr input now shownAt)
  kv := s.kv.put (input.record ((s.devices i).allowlistSeq normAddr input) now (deviceHex i))

def step (s : Owner normAddr ι) : OwnerStep ι → Owner normAddr ι
  | .poll i now => s.poll deviceHex i now
  | .allowlist i input now shownAt => s.allowlist deviceHex i input now shownAt
  | .removeContact i address =>
    ⟨Function.update s.devices i ((s.devices i).removeContact normAddr address),
      s.kv.delete address⟩

end Owner

section Load

variable {normAddr : String → String} {address : String} {facts : PinnedFacts} {row : ContactRecord}
  {d : Device}

structure Approved (normAddr : String → String) (address : String) (facts : PinnedFacts)
    (row : ContactRecord) : Prop where
  named : normAddr row.address = normAddr address
  keyed : facts.ed25519Pub ≠ ""
  present : facts.noIdentity = none ∧ row.noIdentity ≠ some true
  carries : contactFacts row = some facts
  counted : row.pinSeq.getD 0 ≠ 0

/-- A device that is going to take the row: it holds the same pin or one of a lower sequence, and
shows no absence of an identity that was written at the time of the row. -/
structure Device.Ready (normAddr : String → String) (address : String) (facts : PinnedFacts)
    (row : ContactRecord) (d : Device) : Prop where
  outranked : ∀ pin, d.pins (normAddr address) = some pin → samePin pin.localFacts facts = true ∨
    pin.seq < row.pinSeq.getD 0
  fresh : ∀ r ∈ d.records, normAddr r.address = normAddr address → r.noIdentity = some true →
    r.updatedAt ≠ row.updatedAt

structure Device.Settled (normAddr : String → String) (address : String) (facts : PinnedFacts)
    (d : Device) : Prop where
  pinned : ∃ pin, d.pins (normAddr address) = some pin ∧ samePin pin.localFacts facts = true
  shows : ∃ r ∈ d.records, normAddr r.address = normAddr address
  shown : ∀ r ∈ d.records, normAddr r.address = normAddr address → r.noIdentity ≠ some true ∧
    contactFacts r = some facts
  quiet : ∀ alert ∈ d.pinAlerts, normAddr alert.address ≠ normAddr address

theorem Device.Settled.ready (h : d.Settled normAddr address facts) :
    d.Ready normAddr address facts row := by
  constructor
  · intro pin hpin
    obtain ⟨held, hheld, hsame⟩ := h.pinned
    rw [hheld] at hpin
    cases hpin
    exact .inl hsame
  · intro r hr haddr hidentity
    exact absurd hidentity (h.shown r hr haddr).1

theorem localFacts_eq_of_samePin {pin : LocalPin} (hplain : facts.noIdentity = none)
    (h : samePin pin.localFacts facts = true) : pin.localFacts = facts := by
  unfold samePin at h
  rw [decide_eq_true_eq] at h
  obtain ⟨hed, hx, hcustody⟩ := h
  cases facts
  unfold LocalPin.localFacts at hed hx hcustody ⊢
  simp only at hplain hed hx hcustody
  rw [hed, hx, hcustody, hplain]

theorem reconcilePin_ready (now : ℕ) {local' : Option LocalPin} {n : ℕ}
    (hkey : facts.ed25519Pub ≠ "") (hplain : facts.noIdentity = none) (hn : n ≠ 0)
    (houtranked : ∀ pin, local' = some pin → samePin pin.localFacts facts = true ∨ pin.seq < n) :
    (reconcilePin now local' (some facts) n).facts = some facts ∧
      (reconcilePin now local' (some facts) n).anomaly = none ∧
      (reconcilePin now local' (some facts) n).heal = false ∧
      ((reconcilePin now local' (some facts) n).adopt = some (makePin facts n now) ∨
        (reconcilePin now local' (some facts) n).adopt = none ∧
          ∃ pin, local' = some pin ∧ samePin pin.localFacts facts = true) := by
  cases local' with
  | none =>
    unfold reconcilePin
    dsimp only
    rw [if_neg hkey, if_pos hn]
    exact ⟨rfl, rfl, rfl, .inl rfl⟩
  | some pin =>
    unfold reconcilePin
    dsimp only
    rw [if_neg hkey, if_pos hn]
    by_cases hsame : samePin pin.localFacts facts = true
    · rw [if_pos hsame]
      refine ⟨?_, rfl, rfl, .inr ⟨rfl, pin, rfl, hsame⟩⟩
      rw [localFacts_eq_of_samePin hplain hsame]
    · have hlt := (houtranked pin rfl).resolve_left hsame
      rw [if_neg hsame, if_pos hlt]
      exact ⟨rfl, rfl, rfl, .inl rfl⟩

theorem samePin_makePin (n now : ℕ) :
    samePin (makePin facts n now).localFacts facts = true := by
  simp [samePin, LocalPin.localFacts, makePin]

theorem contactFacts_spread_key {rec' : ContactRecord} (hkey : facts.ed25519Pub ≠ "")
    (hplain : facts.noIdentity = none) (hidentity : rec'.noIdentity ≠ some true) (seq : ℕ) :
    contactFacts (rec'.spread facts seq) = some facts := by
  have hspread : (rec'.spread facts seq).noIdentity = rec'.noIdentity := by
    unfold ContactRecord.spread
    rw [hplain]
    rfl
  have hkey' : (rec'.spread facts seq).ed25519Pub.getD "" ≠ "" := hkey
  rw [contactFacts_of_key (by rwa [hspread]) hkey', ← hplain]
  simp [ContactRecord.spread]

theorem address_shownFor (now : ℕ) (pins : String → Option LocalPin) (r : ContactRecord) :
    (shownFor normAddr now pins r).address = r.address := by
  unfold shownFor
  dsimp only
  split
  · rfl
  · rfl

theorem mem_of_recordsSig_eq {l l' : List ContactRecord}
    (h : recordsSig normAddr l = recordsSig normAddr l') {r : ContactRecord} (hr : r ∈ l) :
    ∃ r' ∈ l', sigFields normAddr r' = sigFields normAddr r := by
  have hmem : sigFields normAddr r ∈ recordsSig normAddr l' := by
    rw [← h]
    exact Multiset.mem_coe.mpr (List.mem_map_of_mem hr)
  obtain ⟨r', hr', hsame⟩ := List.mem_map.mp (Multiset.mem_coe.mp hmem)
  exact ⟨r', hr', hsame⟩

theorem contactFacts_of_sigFields_eq {r r' : ContactRecord}
    (h : sigFields normAddr r' = sigFields normAddr r) (hr : r.noIdentity ≠ some true)
    (hr' : r'.noIdentity ≠ some true) : contactFacts r' = contactFacts r := by
  have hed : r'.ed25519Pub.getD "" = r.ed25519Pub.getD "" := congrArg RecordSig.ed25519Pub h
  have hx : r'.x25519Pub.getD "" = r.x25519Pub.getD "" := congrArg RecordSig.x25519Pub h
  have hcustody := congrArg RecordSig.adminKeyCustody h
  unfold sigFields at hcustody
  dsimp only at hcustody
  unfold contactFacts
  rw [if_neg hr, if_neg hr', hed, hx, hcustody]

theorem mem_of_alertsSig_eq {l l' : List PinAlert}
    (h : alertsSig normAddr l = alertsSig normAddr l') {alert : PinAlert}
    (hmem : alert ∈ l) : ∃ alert' ∈ l', normAddr alert'.address = normAddr alert.address := by
  have hmem' : (normAddr alert.address, alert.anomaly) ∈ alertsSig normAddr l' := by
    rw [← h]
    exact Multiset.mem_coe.mpr (List.mem_map_of_mem hmem)
  obtain ⟨alert', halert, hsame⟩ := List.mem_map.mp (Multiset.mem_coe.mp hmem')
  exact ⟨alert', halert, congrArg Prod.fst hsame⟩

theorem Device.Ready.load (h : d.Ready normAddr address facts row)
    (hrow : Approved normAddr address facts row) {list : List ContactRecord} (hmem : row ∈ list)
    (honly : ∀ r ∈ list, normAddr r.address = normAddr address → r = row)
    (now : ℕ) : (d.load normAddr now list).Settled normAddr address facts ∧
    healFor normAddr now d.pins row = none := by
  obtain ⟨hfacts, hanomaly, hheal, hadopt⟩ :=
    @reconcilePin_ready facts now (d.pins (normAddr address)) (row.pinSeq.getD 0)
    hrow.keyed hrow.present.1 hrow.counted h.outranked
  have hdecision : decisionFor normAddr now d.pins row =
      reconcilePin now (d.pins (normAddr address)) (some facts) (row.pinSeq.getD 0) := by
    unfold decisionFor
    rw [hrow.named, hrow.carries]
  rw [← hdecision] at hfacts hanomaly hheal hadopt
  have hshown : shownFor normAddr now d.pins row =
      row.spread facts (decisionFor normAddr now d.pins row).seq := by
    unfold shownFor
    dsimp only
    rw [hfacts]
  have hcarries : contactFacts (shownFor normAddr now d.pins row) = some facts := by
    rw [hshown]
    exact contactFacts_spread_key hrow.keyed hrow.present.1 hrow.present.2 _
  have halert : alertFor normAddr now d.pins row = none := by
    unfold alertFor
    rw [hanomaly]
    rfl
  have hidentity : (shownFor normAddr now d.pins row).noIdentity ≠ some true := by
    rw [hshown]
    change (facts.noIdentity.orElse fun _ => row.noIdentity) ≠ some true
    rw [hrow.present.1]
    exact hrow.present.2
  have hstamp : (shownFor normAddr now d.pins row).updatedAt = row.updatedAt := by
    rw [hshown]
    rfl
  have hlisted : ∀ r ∈ list.map (shownFor normAddr now d.pins), normAddr r.address =
      normAddr address →
      r = shownFor normAddr now d.pins row := by
    intro r hr haddr
    obtain ⟨r', hr', rfl⟩ := List.mem_map.mp hr
    rw [address_shownFor] at haddr
    rw [honly r' hr' haddr]
  have hthere : ∃ r ∈ list.map (shownFor normAddr now d.pins), normAddr r.address =
      normAddr address :=
    ⟨_, List.mem_map_of_mem hmem, by rw [address_shownFor, hrow.named]⟩
  refine ⟨⟨?_, ?_, ?_, ?_⟩, ?_⟩
  · rcases hadopt with hadopt | ⟨hnone, pin, hpin, hsame⟩
    · refine ⟨makePin facts (row.pinSeq.getD 0) now, ?_, samePin_makePin _ _⟩
      apply adoptAll_of_some
      · intro r hr haddr
        rw [honly r hr haddr]
        exact hadopt
      · exact .inr ⟨row, hmem, hrow.named⟩
    · refine ⟨pin, ?_, hsame⟩
      change adoptAll normAddr now d.pins list d.pins (normAddr address) = some pin
      rw [adoptAll_of_none fun r hr haddr => ?_, hpin]
      rw [honly r hr haddr]
      exact hnone
  · change ∃ r ∈ (if recordsSig normAddr d.records = _ then d.records else _), _
    split
    · next hsig =>
      obtain ⟨r, hr, haddr⟩ := hthere
      obtain ⟨r', hr', hsame⟩ := mem_of_recordsSig_eq hsig.symm hr
      exact ⟨r', hr', (congrArg RecordSig.address hsame).trans haddr⟩
    · exact hthere
  · change ∀ r ∈ (if recordsSig normAddr d.records = _ then d.records else _), _
    split
    · next hsig =>
      intro r hr haddr
      obtain ⟨r', hr', hsame⟩ := mem_of_recordsSig_eq hsig hr
      have hr'' := hlisted r' hr' ((congrArg RecordSig.address hsame).trans haddr)
      subst hr''
      have hold : r.noIdentity ≠ some true := by
        intro habsent
        exact h.fresh r hr haddr habsent ((congrArg RecordSig.updatedAt hsame).symm.trans hstamp)
      exact ⟨hold, (contactFacts_of_sigFields_eq hsame hold hidentity).symm.trans hcarries⟩
    · intro r hr haddr
      rw [hlisted r hr haddr]
      exact ⟨hidentity, hcarries⟩
  · have hquiet : ∀ alert ∈ list.filterMap (alertFor normAddr now d.pins), normAddr alert.address ≠
        normAddr address := by
      intro alert hmem' haddr
      obtain ⟨r, hr, hraised⟩ := List.mem_filterMap.mp hmem'
      obtain ⟨anomaly, -, rfl⟩ := Option.map_eq_some_iff.mp hraised
      rw [honly r hr haddr, halert] at hraised
      cases hraised
    change ∀ alert ∈ (if alertsSig normAddr d.pinAlerts = _ then d.pinAlerts else _), _
    split
    · next hsig =>
      intro alert hmem'
      obtain ⟨alert', hmem'', hsame⟩ := mem_of_alertsSig_eq hsig hmem'
      rw [← hsame]
      exact hquiet alert' hmem''
    · exact hquiet
  · unfold healFor
    dsimp only
    rw [hheal]
    rfl

end Load

section Heal

variable {normAddr : String → String} {address : String}

theorem address_writePin {deviceHex : String} {now : ℕ} {entry r : ContactRecord}
    {facts : PinnedFacts} {seq : ℕ} {mode : PinMode} (h : writePin deviceHex now (some entry) facts
      seq mode = some r) : r.address = entry.address := by
  unfold writePin at h
  simp only [Option.bind_eq_bind, Option.bind_some] at h
  split at h
  · cases h
  · cases h
    rfl

theorem ContactsKv.get_healPin_of_ne (kv : ContactsKv normAddr) (deviceHex : String) (now : ℕ)
    {other : String} (hother : normAddr other ≠ normAddr address) (facts : PinnedFacts) (seq : ℕ) :
    (kv.healPin deviceHex now other facts seq).get address = kv.get address := by
  unfold ContactsKv.healPin
  split
  · next r hwrite =>
    cases hentry : kv.get other with
    | none =>
      rw [hentry] at hwrite
      cases hwrite
    | some entry =>
      rw [hentry] at hwrite
      apply kv.get_put_of_ne
      rw [address_writePin hwrite, kv.keyed _ _ hentry]
      exact hother
  · rfl

theorem ContactsKv.get_healAll (kv : ContactsKv normAddr) (deviceHex : String) (now : ℕ)
    (pins : String → Option LocalPin) {list : List ContactRecord} (h : ∀ r ∈ list,
      normAddr r.address = normAddr address → healFor normAddr now pins r = none) :
    (kv.healAll deviceHex now pins list).get address = kv.get address := by
  induction list generalizing kv with
  | nil => rfl
  | cons r list ih =>
    have hrest := fun kv => @ih kv fun r' hr' => h r' (List.mem_cons_of_mem r hr')
    unfold ContactsKv.healAll at hrest ⊢
    rw [List.foldl_cons, hrest]
    cases hheal : healFor normAddr now pins r with
    | none => rfl
    | some healed =>
      apply kv.get_healPin_of_ne
      intro haddr
      rw [h r List.mem_cons_self haddr] at hheal
      cases hheal

end Heal

section Polls

variable {normAddr : String → String} {ι : Type} [DecidableEq ι] {deviceHex : ι → String}
  {address : String}
  {facts : PinnedFacts} {row : ContactRecord} {s : Owner normAddr ι}

structure Owner.Offers (address : String) (facts : PinnedFacts) (row : ContactRecord)
    (s : Owner normAddr ι) : Prop where
  stored : s.kv.get address = some row
  ready : ∀ i, (s.devices i).Ready normAddr address facts row

theorem Owner.Offers.poll (h : s.Offers address facts row)
    (hrow : Approved normAddr address facts row) (i : ι) (now : ℕ) :
    (s.poll deviceHex i now).Offers address facts row ∧
      ((s.poll deviceHex i now).devices i).Settled normAddr address facts := by
  have hmem : row ∈ s.kv.list := by
    rw [ContactsKv.mem_list]
    unfold ContactsKv.get
    rw [hrow.named]
    exact h.stored
  have honly : ∀ r ∈ s.kv.list, normAddr r.address = normAddr address → r = row := by
    intro r hr haddr
    have hget := s.kv.mem_list.mp hr
    unfold ContactsKv.get at hget
    rw [haddr] at hget
    exact Option.some.inj (hget.symm.trans h.stored)
  obtain ⟨hsettled, hheal⟩ := (h.ready i).load hrow hmem honly now
  have hpolled : ((s.poll deviceHex i now).devices i).Settled normAddr address facts := by
    change (Function.update s.devices i _ i).Settled normAddr address facts
    rw [Function.update_self]
    exact hsettled
  refine ⟨⟨?_, fun j => ?_⟩, hpolled⟩
  · change (s.kv.healAll (deviceHex i) now (s.devices i).pins s.kv.list).get address = some row
    rw [ContactsKv.get_healAll s.kv _ _ _ fun r hr haddr => ?_]
    · exact h.stored
    · rw [honly r hr haddr]
      exact hheal
  · by_cases hj : j = i
    · subst hj
      exact hpolled.ready
    · change (Function.update s.devices i _ j).Ready normAddr address facts row
      rw [Function.update_of_ne hj]
      exact h.ready j

theorem Owner.Offers.polls (h : s.Offers address facts row)
    (hrow : Approved normAddr address facts row) (polls : List (ι × ℕ)) {i : ι}
    (hi : i ∈ polls.map Prod.fst ∨ (s.devices i).Settled normAddr address facts) :
    ((Machine.run (Owner.step deviceHex) s (polls.map fun q => .poll q.1 q.2)).devices i).Settled
      normAddr address facts := by
  induction polls generalizing s with
  | nil => exact hi.resolve_left List.not_mem_nil
  | cons q polls ih =>
    obtain ⟨hoffers, hsettled⟩ :=
      @Owner.Offers.poll normAddr ι _ deviceHex address facts row s h hrow q.1 q.2
    apply ih hoffers
    by_cases hq : i = q.1
    · subst hq
      exact .inr hsettled
    · rcases hi with hmem | hdone
      · rw [List.map_cons, List.mem_cons] at hmem
        exact .inl (hmem.resolve_left hq)
      · right
        change (Function.update s.devices q.1 _ i).Settled normAddr address facts
        rw [Function.update_of_ne hq]
        exact hdone

/-- The approval is one of keys, its sequence is higher than that of every other pin that a device
holds for the address, and no device shows the address as one without an identity, written at the
very time of the approval. -/
structure Overrides (s : Owner normAddr ι) (i : ι) (input : AllowlistInput) (facts : PinnedFacts)
    (now : ℕ) : Prop where
  present : input.noIdentity ≠ some true
  outranks : ∀ j pin, (s.devices j).pins (normAddr input.address) = some pin →
    samePin pin.localFacts facts = true ∨ pin.seq < (s.devices i).nextSeq normAddr input.address
  fresh : ∀ j, ∀ r ∈ (s.devices j).records, normAddr r.address = normAddr input.address →
    r.noIdentity = some true →
    r.updatedAt ≠ now

theorem AllowlistInput.facts_of_present {input : AllowlistInput}
    (hpresent : input.noIdentity ≠ some true) (hfacts : input.facts = some facts) :
    facts.ed25519Pub ≠ "" ∧ facts.noIdentity = none ∧
      ∀ seq now deviceId, contactFacts (input.record seq now deviceId) = some facts := by
  unfold AllowlistInput.facts at hfacts
  rw [if_neg hpresent] at hfacts
  split at hfacts
  · cases hfacts
  · next hkey =>
    cases hfacts
    exact ⟨hkey, rfl, fun seq now deviceId => contactFacts_of_key hpresent hkey⟩

theorem Owner.offers_allowlist {i : ι} {input : AllowlistInput} {now : ℕ}
    (h : Overrides s i input facts now) (hfacts : input.facts = some facts) (shownAt : ℕ) :
    ∃ row, Approved normAddr input.address facts row ∧
      (s.allowlist deviceHex i input now shownAt).Offers input.address facts row := by
  obtain ⟨hkey, hplain, hcarries⟩ := AllowlistInput.facts_of_present h.present hfacts
  have hseq : (s.devices i).allowlistSeq normAddr input =
      some ((s.devices i).nextSeq normAddr input.address) := by
    unfold Device.allowlistSeq
    rw [hfacts]
    rfl
  refine ⟨input.record ((s.devices i).allowlistSeq normAddr input) now (deviceHex i), ?_, ?_,
    fun j => ?_⟩
  · refine ⟨rfl, hkey, ⟨hplain, h.present⟩, hcarries _ _ _, ?_⟩
    rw [hseq]
    exact Nat.succ_ne_zero _
  · exact s.kv.get_put _ rfl
  · by_cases hj : j = i
    · subst hj
      change (Function.update s.devices j _ j).Ready normAddr input.address facts _
      rw [Function.update_self]
      constructor
      · intro pin hpin
        unfold Device.allowlist Device.allowlistPin at hpin
        rw [hfacts] at hpin
        change savePin normAddr (s.devices j).pins input.address
          (makePin facts ((s.devices j).nextSeq normAddr input.address) now)
            (normAddr input.address) = some pin at hpin
        unfold savePin at hpin
        rw [Function.update_self] at hpin
        cases hpin
        exact .inl (samePin_makePin _ _)
      · intro r hr haddr
        rcases List.mem_append.mp hr with hold | hnew
        · have hother := (List.mem_filter.mp hold).2
          rw [decide_eq_true_eq] at hother
          exact absurd haddr hother
        · rw [List.mem_singleton.mp hnew]
          intro hidentity
          exact absurd hidentity h.present
    · change (Function.update s.devices i _ j).Ready normAddr input.address facts _
      rw [Function.update_of_ne hj]
      constructor
      · intro pin hpin
        rw [hseq]
        exact h.outranks j pin hpin
      · exact h.fresh j

/-- An approval that overrides what the devices hold is what every device holds once it has polled,
and none finds anything wrong with it. -/
theorem repin_converges (deviceHex : ι → String) (s₀ : Owner normAddr ι)
    (before : List (OwnerStep ι)) (i : ι) (input : AllowlistInput) {facts : PinnedFacts}
    (hfacts : input.facts = some facts) (now shownAt : ℕ) (h : Overrides
      (Machine.run (Owner.step deviceHex) s₀ before) i input facts now) (polls : List (ι × ℕ))
    (hpolls : ∀ j, j ∈ polls.map Prod.fst) (j : ι) :
    let t := Machine.run (Owner.step deviceHex) s₀
      (before ++ .allowlist i input now shownAt :: polls.map fun q => .poll q.1 q.2)
    ((t.devices j).contactByAddress normAddr input.address).bind contactFacts = some facts ∧
      ∀ alert ∈ (t.devices j).pinAlerts, normAddr alert.address ≠ normAddr input.address := by
  obtain ⟨row, hrow, hoffers⟩ :=
    @Owner.offers_allowlist normAddr ι _ deviceHex facts _ i input now h hfacts shownAt
  have hsettled := @Owner.Offers.polls normAddr ι _ deviceHex input.address facts row _ hoffers hrow
    polls j (.inl (hpolls j))
  dsimp only
  rw [Machine.run_append, Machine.run_cons]
  refine ⟨?_, hsettled.quiet⟩
  obtain ⟨r, hr, haddr⟩ := hsettled.shows
  unfold Device.contactByAddress
  cases hfind : List.find? (fun r : ContactRecord =>
    decide (normAddr r.address = normAddr input.address)) (List.reverse _) with
  | none =>
    have hnot := List.find?_eq_none.mp hfind r (List.mem_reverse.mpr hr)
    rw [decide_eq_true_eq] at hnot
    exact absurd haddr hnot
  | some r' =>
    have haddr' := List.find?_some hfind
    rw [decide_eq_true_eq] at haddr'
    exact (hsettled.shown r' (List.mem_reverse.mp (List.mem_of_find?_eq_some hfind)) haddr').2

end Polls

namespace Carol

def noContacts : Owner id Bool := ⟨fun _ => ⟨fun _ => none, [], []⟩, ⟨∅, fun _ _ h => by cases h⟩⟩

def address : String := "carol@example.org"

def hex : Bool → String := fun i => if i then "d2" else "d1"

def input (key : String) : AllowlistInput :=
  ⟨address, "Carol", key, .userApproved, some key, some "X", some false, none⟩

def gone : AllowlistInput := ⟨address, "Carol", "F", .userApproved, none, none, none, some true⟩

def keys (key : String) : PinnedFacts := ⟨key, "X", false, none⟩

def polls (now : ℕ) : List (OwnerStep Bool) := [.poll false now, .poll true now]

def overtaken : Owner id Bool := Machine.run (Owner.step hex) noContacts
  ([.allowlist false (input "K1") 10 10] ++ polls 20 ++ [.allowlist false (input "K1") 30 30] ++
    polls 40 ++ [.allowlist true (input "K2") 50 50] ++ polls 60)

def restarted : Owner id Bool := Machine.run (Owner.step hex) noContacts
  ([.allowlist false (input "K1") 10 10] ++ polls 20 ++
    [.removeContact false address, .allowlist false (input "K2") 30 30] ++
    polls 40)

def absent : Owner id Bool :=
  Machine.run (Owner.step hex) noContacts ([.allowlist false gone 10 10] ++ polls 20)

/-- The other device keeps to the first keys and reports the new ones; and a device reports its own
pin of an absence. -/
theorem repin_refused :
    ((overtaken.devices false).contactByAddress id address).bind contactFacts = some (keys "K1") ∧
      (overtaken.devices false).pinAlerts = [⟨address, .kvConflict⟩] ∧
      ((restarted.devices true).contactByAddress id address).bind contactFacts = some (keys "K1") ∧
      (restarted.devices true).pinAlerts = [⟨address, .kvConflict⟩] ∧
      (absent.devices false).pinAlerts = [⟨address, .kvMissing⟩] := by
  decide

def shared : Owner id Bool :=
  Machine.run (Owner.step hex) noContacts ([.allowlist false (input "K1") 10 10] ++ polls 20)

/-- New keys that the second device approves are those of the first one, too. -/
theorem repin_taken :
    (((Machine.run (Owner.step hex) noContacts
        (([.allowlist false (input "K1") 10 10] ++ polls 20) ++
          .allowlist true (input "K2") 30 30 :: [(true, 40), (false, 40)].map fun q =>
            .poll q.1 q.2)).devices
      false).contactByAddress id address).bind contactFacts = some (keys "K2") ∧
    ∀ alert ∈ ((Machine.run (Owner.step hex) noContacts
        (([.allowlist false (input "K1") 10 10] ++ polls 20) ++
          .allowlist true (input "K2") 30 30 :: [(true, 40), (false, 40)].map fun q =>
            .poll q.1 q.2)).devices
      false).pinAlerts, alert.address ≠ address := by
  have hpins : ∀ j, ((shared.devices j).pins address).map LocalPin.seq = some 1 := by decide
  have hshown : ∀ j, ∀ r ∈ (shared.devices j).records, r.noIdentity ≠ some true := by decide
  have hover : Overrides shared true (input "K2") (keys "K2") 30 := by
    refine ⟨by decide, fun j pin hpin => ?_,
      fun j r hr _ hidentity => absurd hidentity (hshown j r hr)⟩
    right
    have hseq := hpins j
    rw [show (shared.devices j).pins address = some pin from hpin] at hseq
    have hnext : (shared.devices true).nextSeq id (input "K2").address = 2 := by
      unfold Device.nextSeq
      change (((shared.devices true).pins address).map LocalPin.seq).getD 0 + 1 = 2
      rw [hpins true]
      rfl
    rw [hnext, Option.some.inj hseq]
    exact Nat.one_lt_two
  have hall : ∀ j, j ∈ [(true, 40), (false, 40)].map (Prod.fst : Bool × ℕ → Bool) := by decide
  exact repin_converges hex noContacts _ true (input "K2") rfl 30 30 hover [(true, 40), (false, 40)]
    hall false

end Carol

end Dmcn.Web
