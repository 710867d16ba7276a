import OpenDmcn.Relay.Companions
import OpenDmcn.Relay.Displaced

/-! The rotation history held for an address, along a run. A history is displaced by a longer one
that repeats its consents; the acceptances beside them, and the mailbox key it ends in, are not
compared. -/

namespace Dmcn

open Go Guard RecordStore

variable {rt : Runtime} {anchor : DarAnchor}

structure HistoryStored (rt : Runtime) (rs : RecordStore) (data : Bytes)
    (rec : AddressHistoryRecord) (live : IdentityRecord) : Prop where
  parsed : (rt.addressHistoryRecord.unmarshal data).bind AddressHistoryRecord.fromProto = some rec
  named : ¬ (rec.address = "" ∨ rec.domain = "")
  authority : (rs.getDAR rt rec.domain).isSome
  held : rs.getIdentity rt rec.address = some live
  verified : rec.verify rt = .ok ()
  grows : ∀ prior, priorHistory rt rs rec.address = some prior →
    chainsEqual prior.chain rec.chain = false ∧ rec.extends_ (some prior) = true
  agrees : ∀ last, rec.terminal = some last → last.nextEd25519Public = live.ed25519Public

theorem acceptHistory_cases {rs rs' : RecordStore} {data : Bytes}
    (h : acceptHistory rt rs data = .ok rs') :
    rs' = rs ∨ ∃ rec live, HistoryStored rt rs data rec live ∧ rs' = rs.putHistory rt rec := by
  simp only [acceptHistory, need_bind, unit_bind, refuse_eq_ok, require_eq_ok, wrap_eq_ok] at h
  obtain ⟨pb, hpb, rec, hrec, hnamed, hauthority, live, hlive, hverified, h⟩ := h
  split at h
  · rw [pure_eq_ok] at h
    exact .inl h.symm
  · next hnew =>
    simp only [unit_bind, require_eq_ok, pure_eq_ok] at h
    obtain ⟨hextends, hagrees, rfl⟩ := h
    refine .inr ⟨rec, live, ⟨?_, hnamed, hauthority, hlive, hverified, ?_, ?_⟩, rfl⟩
    · rw [hpb]
      exact hrec
    · intro prior hprior
      rw [hprior] at hnew hextends
      exact ⟨Bool.eq_false_iff.mpr hnew, hextends⟩
    · intro last hlast
      rw [hlast] at hagrees
      exact eq_of_beq hagrees

variable {rs : RecordStore} {rec : AddressHistoryRecord}

theorem HistoryStored.accepted {data : Bytes} {live : IdentityRecord}
    (h : HistoryStored rt rs data rec live) :
    acceptHistory rt rs data = .ok (rs.putHistory rt rec) := by
  obtain ⟨pb, hpb, hrec⟩ := Option.bind_eq_some_iff.mp h.parsed
  simp only [acceptHistory, need_bind, unit_bind, refuse_eq_ok, require_eq_ok, wrap_eq_ok]
  refine ⟨pb, hpb, rec, hrec, h.named, h.authority, live, h.held, h.verified, ?_⟩
  have hagrees : (rec.terminal.elim true fun last => last.nextEd25519Public == live.ed25519Public) =
      true := by
    cases hterminal : rec.terminal with
    | none => rfl
    | some last => exact beq_iff_eq.mpr (h.agrees last hterminal)
  cases hprior : priorHistory rt rs rec.address with
  | none =>
    simp only [Option.elim_none, Bool.false_eq_true, if_false, unit_bind, require_eq_ok, pure_eq_ok]
    exact ⟨trivial, hagrees, trivial⟩
  | some prior =>
    obtain ⟨hnew, hextends⟩ := h.grows prior hprior
    simp only [Option.elim_some, hnew, Bool.false_eq_true, if_false, unit_bind, require_eq_ok,
      pure_eq_ok]
    exact ⟨require_eq_ok.mpr hextends, hagrees, trivial⟩

theorem getHistory_putHistory {pb : Pb.AddressHistoryRecord}
    (h : AddressHistoryRecord.fromProto pb = some rec) (a : String) :
    (rs.putHistory rt rec).getHistory rt a =
      if a = rec.address then some rec else rs.getHistory rt a := by
  unfold getHistory putHistory
  split
  · next ha =>
    rw [ha, get_put_self, Option.bind_some, Codec.unmarshal_marshal, Option.bind_some]
    exact AddressHistoryRecord.fromProto_toProto h
  · next ha => rw [get_put_of_id_ne rs _ ha]

theorem HistoryStored.getHistory {data : Bytes} {live : IdentityRecord}
    (h : HistoryStored rt rs data rec live) (a : String) :
    (rs.putHistory rt rec).getHistory rt a =
      if a = rec.address then some rec else rs.getHistory rt a := by
  obtain ⟨pb, -, hrec⟩ := Option.bind_eq_some_iff.mp h.parsed
  exact getHistory_putHistory hrec a

theorem getHistory_push (rt : Runtime) (anchor : DarAnchor) (r : Relay) (p : Push) (a : String) :
    (r.push rt anchor p).records.getHistory rt a = r.records.getHistory rt a ∨
    ∃ rec live, p.kind = .history ∧ HistoryStored rt r.records p.data rec live ∧ rec.address = a ∧
      (r.push rt anchor p).records.getHistory rt a = some rec := by
  by_cases hkind : p.kind = .history
  · unfold Relay.push acceptRecord
    rw [hkind]
    rcases commit_records r (acceptHistory rt r.records p.data) with hkeep | hok
    · exact .inl (congrArg (RecordStore.getHistory rt · a) hkeep)
    · rcases acceptHistory_cases hok with hsame | ⟨rec, live, hstored, hput⟩
      · exact .inl (congrArg (RecordStore.getHistory rt · a) hsame)
      · simp only [hput, hstored.getHistory]
        split
        · next ha => exact .inr ⟨rec, live, trivial, hstored, ha.symm, rfl⟩
        · exact .inl rfl
  · left
    unfold RecordStore.getHistory
    rw [get_push_of_slot_ne r]
    exact fun hslot => hkind (RecordKind.eq_of_slot hslot rfl)

theorem HistoryStored.records_push (anchor : DarAnchor) {r : Relay} {p : Push}
    {live : IdentityRecord} (h : HistoryStored rt r.records p.data rec live)
    (hkind : p.kind = .history) :
    (r.push rt anchor p).records = r.records.putHistory rt rec := by
  unfold Relay.push acceptRecord
  rw [hkind]
  dsimp only
  rw [h.accepted]
  rfl

theorem HistoryStored.getHistory_push (anchor : DarAnchor) {r : Relay} {p : Push}
    {live : IdentityRecord} (h : HistoryStored rt r.records p.data rec live)
    (hkind : p.kind = .history) :
    (r.push rt anchor p).records.getHistory rt rec.address = some rec := by
  rw [h.records_push anchor hkind, h.getHistory]
  exact if_pos rfl

theorem priorHistory_eq_some {a : String} {prior : AddressHistoryRecord} :
    priorHistory rt rs a = some prior ↔ rs.getHistory rt a = some prior ∧ prior.chain ≠ [] := by
  unfold priorHistory
  rw [Option.filter_eq_some_iff]
  simp

def HistoriesGrow (rt : Runtime) (r r' : Relay) : Prop :=
  ∀ a h, r.records.getHistory rt a = some h →
    ∃ h', r'.records.getHistory rt a = some h' ∧ h.chain <+: h'.chain

def HistoriesVerify (rt : Runtime) (r : Relay) : Prop :=
  ∀ a h, r.records.getHistory rt a = some h →
    h.verify rt = .ok () ∧ ∀ e, h.chain.head? = some e → e.prevSignatureHash = []

def StoredInAgreement (rt : Runtime) (anchor : DarAnchor) (r : Relay) (p : Push) : Prop :=
  ∀ a h, (r.push rt anchor p).records.getHistory rt a = some h → r.records.getHistory rt a ≠
    some h →
    ∃ live, r.records.getIdentity rt a = some live ∧
      ∀ last, h.terminal = some last →
        last.nextEd25519Public = live.ed25519Public ∧ last.nextX25519Public = live.x25519Public

structure HistoryAppendOnly (rt : Runtime) (anchor : DarAnchor) (r : Relay) (ps : List Push) :
    Prop where
  grow : ∀ earlier later, earlier ++ later <+: ps →
    HistoriesGrow rt (Machine.run (Relay.push rt anchor) r earlier)
      (Machine.run (Relay.push rt anchor) r (earlier ++ later))
  verify : Machine.Throughout (Relay.push rt anchor) (HistoriesVerify rt) r ps
  agree : Machine.Along (Relay.push rt anchor) (StoredInAgreement rt anchor) r ps

/-- A history to be stored repeats the acceptances of the one held, and hands over to the mailbox
key of the identity held. -/
def KeepsHistory (rt : Runtime) (r : Relay) (p : Push) : Prop :=
  p.kind = .history → ∀ rec live, HistoryStored rt r.records p.data rec live →
    (∀ prior, r.records.getHistory rt rec.address = some prior →
      prior.chain.map RotationEntry.nextSignature <+: rec.chain.map RotationEntry.nextSignature) ∧
    ∀ last, rec.terminal = some last → last.nextX25519Public = live.x25519Public

theorem map_eq_of_map_eq {α β γ : Type} {f : α → β} {g : α → γ} {l l' : List α}
    (h : ∀ a ∈ l, ∀ b ∈ l', f a = f b → g a = g b) (hmap : l.map f = l'.map f) :
    l.map g = l'.map g := by
  induction l generalizing l' with
  | nil =>
    cases l' with
    | nil => rfl
    | cons b l' => cases hmap
  | cons a l ih =>
    cases l' with
    | nil => cases hmap
    | cons b l' =>
      rw [List.map_cons, List.map_cons, List.cons.injEq] at hmap
      have hhead := h a (List.mem_cons_self ..) b (List.mem_cons_self ..) hmap.1
      have htail := ih (fun a' ha' b' hb' =>
        h a' (List.mem_cons_of_mem _ ha') b' (List.mem_cons_of_mem _ hb')) hmap.2
      rw [List.map_cons, List.map_cons, hhead, htail]

theorem sameSignatures_iff {prior chain : List RotationEntry} :
    AddressHistoryRecord.sameSignatures prior chain = true ↔
      prior.map RotationEntry.signature <+: chain.map RotationEntry.signature := by
  induction prior generalizing chain with
  | nil => simp [AddressHistoryRecord.sameSignatures]
  | cons e prior ih =>
    cases chain with
    | nil => simp [AddressHistoryRecord.sameSignatures]
    | cons e' chain =>
      simp [AddressHistoryRecord.sameSignatures, ih, List.cons_prefix_cons]

theorem reread_of_rotationChainFromProto {pbs : List Pb.RotationEntry} {chain : List RotationEntry}
    (h : rotationChainFromProto pbs = some chain) : chain.map RotationEntry.reread = chain := by
  have hread := rotationChainFromProto_toProto h
  rw [rotationChainFromProto_eq_reread] at hread
  exact Option.some.inj hread

theorem reread_of_fromProto {pb : Pb.AddressHistoryRecord}
    (h : AddressHistoryRecord.fromProto pb = some rec) :
    rec.chain.map RotationEntry.reread = rec.chain := by
  obtain ⟨chain, hchain, rfl⟩ := Option.map_eq_some_iff.mp h
  exact reread_of_rotationChainFromProto hchain

variable {h : AddressHistoryRecord}

theorem reread_of_getHistory {a : String} (hheld : rs.getHistory rt a = some h)
    : h.chain.map RotationEntry.reread = h.chain := by
  obtain ⟨data, -, hread⟩ := Option.bind_eq_some_iff.mp hheld
  obtain ⟨pb, -, hpb⟩ := Option.bind_eq_some_iff.mp hread
  exact reread_of_fromProto hpb

theorem prefix_of_signatures (hbinding : Ideal.Binding rt.ed25519Verify)
    {chain chain' : List RotationEntry} (hverify : ∀ e ∈ chain, e.verify rt = .ok ())
    (hverify' : ∀ e ∈ chain', e.verify rt = .ok ()) (hread : chain.map RotationEntry.reread = chain)
    (hread' : chain'.map RotationEntry.reread = chain')
    (hconsent : chain.map RotationEntry.signature <+: chain'.map RotationEntry.signature)
    (haccept : chain.map RotationEntry.nextSignature <+: chain'.map RotationEntry.nextSignature) :
    chain <+: chain' := by
  rw [List.prefix_iff_eq_take] at hconsent haccept ⊢
  rw [List.length_map, ← List.map_take] at hconsent haccept
  have hhandover := map_eq_of_map_eq (g := RotationEntry.handover)
    (fun a ha b hb hsig => handover_eq_of_signature hbinding (hverify a ha)
      (hverify' b (List.mem_of_mem_take hb)) hsig) hconsent
  refine eq_of_map_toProto hread ?_ (map_toProto_of_handovers hhandover haccept)
  rw [List.map_take, hread']

theorem AddressHistoryRecord.verify_eq_ok : h.verify rt = .ok () ↔
    validateAddress h.address = true ∧ Strings.equalFold rt.unicode h.domain (domainOf h.address) =
      true ∧
    chainTruncated h.chain = false ∧ verifyChainLinks rt h.chain h.address = .ok () := by
  simp only [AddressHistoryRecord.verify, unit_bind, require_eq_ok, refuse_eq_ok, Bool.not_eq_true]

theorem entries_of_verify (hverify : h.verify rt = .ok ()) :
    ∀ e ∈ h.chain, e.verify rt = .ok () := by
  have hlinks := (AddressHistoryRecord.verify_eq_ok.mp hverify).2.2.2
  exact fun e he => (verifyChainLinks_entry hlinks e he).1

theorem first_of_verify (hverify : h.verify rt = .ok ()) (e : RotationEntry)
    (he : h.chain.head? = some e) : e.prevSignatureHash = [] := by
  have htruncated := (AddressHistoryRecord.verify_eq_ok.mp hverify).2.2.1
  obtain ⟨rest, hchain⟩ := List.head?_eq_some_iff.mp he
  rw [hchain] at htruncated
  simpa [chainTruncated] using htruncated

theorem historiesVerify_seed (bundles : List DomainAuthorityRecord) :
    HistoriesVerify rt (seedOwnRecords rt bundles) := by
  intro a h hheld
  unfold RecordStore.getHistory at hheld
  rw [get_seed rt bundles a (by decide)] at hheld
  cases hheld

theorem historiesVerify_push (r : Relay) (p : Push) (h : HistoriesVerify rt r) :
    HistoriesVerify rt (r.push rt anchor p) := by
  intro a rec hheld
  rcases getHistory_push rt anchor r p a with hkeep | ⟨rec', live, -, hstored, -, hnew⟩
  · exact h a rec (hkeep.symm.trans hheld)
  · cases hnew.symm.trans hheld
    exact ⟨hstored.verified, first_of_verify hstored.verified⟩

theorem HistoryStored.consents {data : Bytes} {rec prior : AddressHistoryRecord}
    {live : IdentityRecord} (h : HistoryStored rt rs data rec live)
    (hprior : rs.getHistory rt rec.address = some prior) :
    prior.chain.map RotationEntry.signature <+: rec.chain.map RotationEntry.signature := by
  by_cases hempty : prior.chain = []
  · rw [hempty]
    exact List.nil_prefix
  · have hextends := (h.grows prior (priorHistory_eq_some.mpr ⟨hprior, hempty⟩)).2
    simp only [AddressHistoryRecord.extends_, List.isEmpty_iff, hempty, if_false] at hextends
    split at hextends
    · cases hextends
    · exact sameSignatures_iff.mp hextends

theorem HistoryStored.not_held {data : Bytes} {live : IdentityRecord} {last : RotationEntry}
    (h : HistoryStored rt rs data rec live) (hlast : rec.terminal = some last)
    : rs.getHistory rt rec.address ≠ some rec := by
  intro hheld
  have hne : rec.chain ≠ [] := by
    rintro hempty
    unfold AddressHistoryRecord.terminal at hlast
    rw [hempty] at hlast
    cases hlast
  have hnew := (h.grows rec (priorHistory_eq_some.mpr ⟨hheld, hne⟩)).1
  unfold chainsEqual at hnew
  simp at hnew

theorem keepsHistory_iff_push (hbinding : Ideal.Binding rt.ed25519Verify) (anchor : DarAnchor)
    {r : Relay} (hverify : HistoriesVerify rt r) (p : Push) :
    (HistoriesGrow rt r (r.push rt anchor p) ∧ StoredInAgreement rt anchor r p) ↔
      KeepsHistory rt r p := by
  constructor
  · rintro ⟨hgrow, hagree⟩ hkind rec live hstored
    have hnew := hstored.getHistory_push anchor hkind
    constructor
    · intro prior hprior
      obtain ⟨h', hheld, hbelow⟩ := hgrow rec.address prior hprior
      cases hnew.symm.trans hheld
      exact hbelow.map _
    · intro last hlast
      obtain ⟨live', hlive, hkeys⟩ := hagree rec.address rec hnew (hstored.not_held hlast)
      cases hstored.held.symm.trans hlive
      exact (hkeys last hlast).2
  · intro hkeeps
    constructor
    · intro a h hheld
      rcases getHistory_push rt anchor r p a with hkeep | ⟨rec, live, hkind, hstored, rfl, hnew⟩
      · exact ⟨h, hkeep.trans hheld, List.prefix_refl _⟩
      · refine ⟨rec, hnew, ?_⟩
        obtain ⟨pb, -, hread⟩ := Option.bind_eq_some_iff.mp hstored.parsed
        exact prefix_of_signatures hbinding (entries_of_verify (hverify _ _ hheld).1)
          (entries_of_verify hstored.verified) (reread_of_getHistory hheld)
            (reread_of_fromProto hread)
          (hstored.consents hheld) ((hkeeps hkind rec live hstored).1 h hheld)
    · intro a h hheld hchanged
      rcases getHistory_push rt anchor r p a with hkeep | ⟨rec, live, hkind, hstored, rfl, hnew⟩
      · exact absurd (hkeep.symm.trans hheld) hchanged
      · cases hnew.symm.trans hheld
        refine ⟨live, hstored.held, fun last hlast => ?_⟩
        exact ⟨hstored.agrees last hlast, (hkeeps hkind _ live hstored).2 last hlast⟩

theorem HistoriesGrow.refl (r : Relay) : HistoriesGrow rt r r :=
  fun _ h hheld => ⟨h, hheld, List.prefix_refl _⟩

theorem HistoriesGrow.trans {r s t : Relay} (h : HistoriesGrow rt r s) (h' : HistoriesGrow rt s t) :
    HistoriesGrow rt r t := by
  intro a rec hheld
  obtain ⟨rec', hheld', hbelow⟩ := h a rec hheld
  obtain ⟨rec'', hheld'', hbelow'⟩ := h' a rec' hheld'
  exact ⟨rec'', hheld'', hbelow.trans hbelow'⟩

/-- Over every run of pushes, histories are append-only exactly when each history stored repeats the
acceptances of the one it displaces and ends in the mailbox key of the identity held. -/
theorem history_append_only_iff (hbinding : Ideal.Binding rt.ed25519Verify) (anchor : DarAnchor)
    (seeds : List DomainAuthorityRecord) (ps : List Push) :
    HistoryAppendOnly rt anchor (seedOwnRecords rt seeds) ps ↔
      Machine.Along (Relay.push rt anchor) (KeepsHistory rt) (seedOwnRecords rt seeds) ps := by
  have hverify : Machine.Throughout (Relay.push rt anchor) (HistoriesVerify rt)
      (seedOwnRecords rt seeds)
      ps := Machine.throughout_of_invariant (historiesVerify_seed seeds) historiesVerify_push
  have hrelated : Machine.Along (Relay.push rt anchor)
      (fun r p => HistoriesGrow rt r (r.push rt anchor p)) (seedOwnRecords rt seeds) ps ↔ _ :=
    Machine.along_iff_related HistoriesGrow.refl fun _ _ _ => HistoriesGrow.trans
  constructor
  · intro h
    refine Machine.Along.mono hverify ?_ ((hrelated.mpr h.grow).and h.agree)
    exact fun r p hr hstep => (keepsHistory_iff_push hbinding anchor hr p).mp hstep
  · intro h
    have hsteps := Machine.Along.mono hverify
      (fun r p hr hkeeps => (keepsHistory_iff_push hbinding anchor hr p).mpr hkeeps) h
    exact ⟨hrelated.mp (hsteps.imp fun _ _ hstep => hstep.1), hverify, hsteps.imp fun _ _ hstep =>
      hstep.2⟩

/-! An address that went from key 2 to key 4, over key 3 and back to key 4. Key 4 accepted the first
handover twice. -/
namespace Rewritten

open Handed

def opening : RotationEntry := entry 2 4 100 2 [] 1

def reopening : RotationEntry := { opening with nextSignature := sig 9 }

def away : RotationEntry := entry 4 3 200 3 (List.replicate 32 1) 3

def back : RotationEntry := entry 3 4 300 4 (List.replicate 32 3) 5

def misdirected : RotationEntry :=
  { entry 2 4 100 2 [] 7 with nextX25519Public := Fixed.copy 32 (keyOf 9) }

def live : IdentityRecord := Rekeyed.record 4 1 [] 10

noncomputable def ledger : List Signing :=
  opening.signings (idealRuntime [] []) ++ away.signings (idealRuntime [] []) ++
  back.signings (idealRuntime [] []) ++ misdirected.signings (idealRuntime [] []) ++
  [⟨keyOf 4, .identityRotationAccept, opening.acceptBytes (idealRuntime [] []), sig 9⟩,
    Rekeyed.selfSigning live]

noncomputable def rt₀ : Runtime := ledgerRuntime ledger

theorem binding : Ideal.Binding rt₀.ed25519Verify := by
  apply ledgerRuntime_binding
  change [sig 1, sig 2, sig 3, sig 4, sig 5, sig 6, sig 7, sig 8, sig 9,
    (Fixed.copy 64 (sig 10)).val].Nodup
  decide

def entries : List RotationEntry := [opening, reopening, away, back, misdirected]

theorem verify_entry {e : RotationEntry} (he : e ∈ entries) : e.verify rt₀ = .ok () := by
  simp only [entries, List.mem_cons, List.not_mem_nil, or_false] at he
  have hledger : ∀ e' ∈ [opening, away, back, misdirected], ∀ s ∈ e'.signings (idealRuntime [] []),
      s ∈ ledger := by
    intro e' he' s hs
    simp only [List.mem_cons, List.not_mem_nil, or_false] at he'
    rcases he' with rfl | rfl | rfl | rfl <;> simp [ledger, hs]
  rcases he with rfl | rfl | rfl | rfl | rfl
  · refine RotationEntry.verify_ledgerRuntime (hledger _ (by simp)) (by decide) ?_ (fun _ => rfl)
    simp [RotationEntry.signings, opening, entry]
  · refine RotationEntry.verify_ledgerRuntime ?_ (by decide) ?_ (fun _ => rfl)
    · intro s hs
      -- the consent is that of the first acceptance
      simp only [RotationEntry.signings, List.mem_append, List.mem_cons, List.not_mem_nil, or_false,
        Option.mem_toList, Option.map_eq_some_iff] at hs
      rcases hs with (rfl | rfl) | ⟨cred, hcred, -⟩
      · exact hledger opening (by simp) _ (List.mem_append_left _ (List.mem_cons_self ..))
      · exact List.mem_append_right _ (List.mem_cons_self ..)
      · cases hcred
    · simp [RotationEntry.signings, reopening, opening, entry]
  · refine RotationEntry.verify_ledgerRuntime (hledger _ (by simp)) (by decide) ?_ (fun _ => rfl)
    simp [RotationEntry.signings, away, entry]
  · refine RotationEntry.verify_ledgerRuntime (hledger _ (by simp)) (by decide) ?_ (fun _ => rfl)
    simp [RotationEntry.signings, back, entry]
  · refine RotationEntry.verify_ledgerRuntime (hledger _ (by simp)) (by decide) ?_ (fun _ => rfl)
    simp [RotationEntry.signings, misdirected, entry]

theorem reread_entry {e : RotationEntry} (he : e ∈ entries) : e.reread = e := by
  simp only [entries, List.mem_cons, List.not_mem_nil, or_false] at he
  rcases he with rfl | rfl | rfl | rfl | rfl <;>
    simp [RotationEntry.reread, opening, reopening, away, back, misdirected, entry]

def history (chain : List RotationEntry) : AddressHistoryRecord :=
  ⟨1, "example.org", "alice@example.org", chain⟩

noncomputable def send (chain : List RotationEntry) : Push :=
  ⟨Rekeyed.now, .history, rt₀.addressHistoryRecord.marshal (history chain).toProto⟩

noncomputable def publish : Push :=
  ⟨Rekeyed.now, .identity, rt₀.identityRecord.marshal (Rekeyed.message 4 1 [] 10)⟩

noncomputable def seeded : Relay := seedOwnRecords rt₀ [.fromProto Rekeyed.authority]

noncomputable def published : Relay := seeded.push rt₀ none publish

theorem parse_send {chain : List RotationEntry} (hchain : ∀ e ∈ chain, e ∈ entries) :
    (rt₀.addressHistoryRecord.unmarshal (send chain).data).bind AddressHistoryRecord.fromProto =
      some (history chain) := by
  have hread : chain.map RotationEntry.reread = chain :=
    (List.map_congr_left fun e he => reread_entry (hchain e he)).trans (List.map_id chain)
  have hparsed := rotationChainFromProto_eq_reread chain
  rw [hread] at hparsed
  rw [send, Codec.unmarshal_marshal, Option.bind_some]
  exact Option.map_eq_some_iff.mpr ⟨chain, hparsed, rfl⟩

theorem admitted_live : IdentityAdmitted rt₀ seeded Rekeyed.now publish.data live := by
  refine .genesis ?_ ?_ (Rekeyed.live_record ..) (getIdentity_seed _ _ _) ?_
  · unfold IdentityRecord.fromProtoBytes publish
    rw [Codec.unmarshal_marshal, Option.bind_some]
    refine IdentityRecord.fromProto_eq_some.mpr ⟨.inl rfl, ?_, [], rfl, rfl⟩
    change validateForwardTo rt₀ "alice@example.org" "" = true
    simp [validateForwardTo]
  · exact verifyCtx_ledgerRuntime (s := Rekeyed.selfSigning live) (by simp [ledger])
      (length_keyOf 4)
      (Fixed.length_val _)
  · intro d hd
    obtain rfl := eq_of_getDAR_seed hd
    rfl

theorem published_eq : published = ⟨seeded.records.putIdentity rt₀ live, .newRotationLimiter⟩ :=
  push_genesis admitted_live (getIdentity_seed _ _ _)

def Serves (r : Relay) : Prop :=
  r.records.getDAR rt₀ "example.org" = some (.fromProto Rekeyed.authority) ∧
  r.records.getIdentity rt₀ "alice@example.org" = some live

theorem serves_published : Serves published := by
  rw [published_eq]
  refine ⟨(getDAR_put_of_ne (by decide)).trans (getDAR_seed_singleton rfl), ?_⟩
  change (seeded.records.putIdentity rt₀ live).getIdentity rt₀ "alice@example.org" = some live
  rw [getIdentity_putIdentity admitted_live.parsed]
  rfl

theorem getHistory_published : published.records.getHistory rt₀ "alice@example.org" = none := by
  have hnone : published.records.get .history "alice@example.org" = none := by
    rw [published_eq]
    exact (get_put_of_prefix_ne _ _ (by decide)).trans (get_seed _ _ _ (by decide))
  unfold RecordStore.getHistory
  rw [hnone]
  rfl

theorem stored {r : Relay} {chain : List RotationEntry} {last : RotationEntry} (hr : Serves r)
    (hchain : ∀ e ∈ chain, e ∈ entries) (hfirst : chainTruncated chain = false)
    (hlinks : chain.IsChain fun a b => b.continues rt₀ a = .ok ())
    (hgrows : ∀ prior, r.records.getHistory rt₀ "alice@example.org" = some prior →
      chainsEqual prior.chain chain = false ∧ (history chain).extends_ (some prior) = true)
    (hlast : chain.getLast? = some last) (hkey : last.nextEd25519Public = keyOf 4) :
    HistoryStored rt₀ r.records (send chain).data (history chain) live := by
  refine ⟨parse_send hchain, show ¬ ("alice@example.org" = "" ∨ "example.org" = "") by
    decide, ?_, hr.2, ?_, ?_, ?_⟩
  · exact Option.isSome_iff_exists.mpr ⟨_, hr.1⟩
  · refine AddressHistoryRecord.verify_eq_ok.mpr
      ⟨show validateAddress "alice@example.org" = true by decide, ?_, hfirst, ?_⟩
    · have hdomain := show domainOf "alice@example.org" = "example.org" by decide
      change Strings.equalFold rt₀.unicode "example.org" (domainOf "alice@example.org") = true
      rw [hdomain]
      exact Strings.equalFold_refl _
    · refine verifyLinksAfter_of_isChain (fun e he => ⟨verify_entry (hchain e he), ?_⟩) hlinks
      have hmem := hchain e he
      simp only [entries, List.mem_cons, List.not_mem_nil, or_false] at hmem
      rcases hmem with rfl | rfl | rfl | rfl | rfl <;> rfl
  · intro prior hprior
    exact hgrows prior (priorHistory_eq_some.mp hprior).1
  · intro last' hlast'
    cases hlast.symm.trans hlast'
    exact hkey

theorem Serves.push {r : Relay} {chain : List RotationEntry} (hr : Serves r)
    (h : HistoryStored rt₀ r.records (send chain).data (history chain) live) :
    Serves (r.push rt₀ none (send chain)) := by
  unfold Serves
  rw [h.records_push none rfl]
  exact ⟨(getDAR_put_of_ne (by decide)).trans hr.1, (getIdentity_put_of_ne (by decide)).trans hr.2⟩

noncomputable def opened : Relay := published.push rt₀ none (send [opening])

theorem stored_opening : HistoryStored rt₀ published.records (send [opening]).data
    (history [opening]) live := by
  refine stored serves_published (by simp [entries]) rfl (.singleton _) ?_ rfl rfl
  intro prior hprior
  cases getHistory_published.symm.trans hprior

theorem getHistory_opened : opened.records.getHistory rt₀ "alice@example.org" = some
    (history [opening]) :=
  stored_opening.getHistory_push none rfl

theorem stored_longer {e : RotationEntry} (he : e = opening ∨ e = reopening) :
    HistoryStored rt₀ opened.records (send [e, away, back]).data (history [e, away, back])
      live := by
  have haway : away.continues rt₀ e = .ok () := by
    rcases he with rfl | rfl
    · simp only [RotationEntry.continues, unit_bind, require_eq_ok, refuse_eq_ok]
      exact ⟨⟨rfl, rfl⟩, rfl, by decide, by decide⟩
    · simp only [RotationEntry.continues, unit_bind, require_eq_ok, refuse_eq_ok]
      exact ⟨⟨rfl, rfl⟩, rfl, by decide, by decide⟩
  have hback : back.continues rt₀ away = .ok () := by
    simp only [RotationEntry.continues, unit_bind, require_eq_ok, refuse_eq_ok]
    exact ⟨⟨rfl, rfl⟩, rfl, by decide, by decide⟩
  refine stored (serves_published.push stored_opening) ?_ ?_ ?_ ?_ rfl rfl
  · rcases he with rfl | rfl <;> simp [entries]
  · rcases he with rfl | rfl <;> rfl
  · exact List.isChain_cons_cons.mpr ⟨haway, List.isChain_cons_cons.mpr ⟨hback, .singleton _⟩⟩
  · intro prior hprior
    cases getHistory_opened.symm.trans hprior
    rcases he with rfl | rfl <;> exact ⟨by decide, by decide⟩

theorem stored_misdirected :
    HistoryStored rt₀ published.records (send [misdirected]).data (history [misdirected]) live := by
  refine stored serves_published (by simp [entries]) rfl (.singleton _) ?_ rfl rfl
  intro prior hprior
  cases getHistory_published.symm.trans hprior

/-- Two runs of accepted pushes: in the one the first entry is rewritten, in the other a history is
stored that ends in another mailbox key than the identity held. -/
theorem history_rewritten :
    Ideal.Binding rt₀.ed25519Verify ∧
    (acceptRecord rt₀ none opened (send [reopening, away, back])).2 = .ok () ∧
    (acceptRecord rt₀ none published (send [misdirected])).2 = .ok () ∧
    ¬ HistoryAppendOnly rt₀ none seeded [publish, send [opening], send [reopening, away, back]] ∧
    ¬ HistoryAppendOnly rt₀ none seeded [publish, send [misdirected]] := by
  have hlonger := stored_longer (.inr rfl)
  refine ⟨binding, ?_, ?_, ?_, ?_⟩
  · change (opened.commit
      (acceptHistory rt₀ opened.records (send [reopening, away, back]).data)).2 = _
    rw [hlonger.accepted]
    rfl
  · change (published.commit (acceptHistory rt₀ published.records (send [misdirected]).data)).2 = _
    rw [stored_misdirected.accepted]
    rfl
  · intro h
    have hgrow :=
      h.grow [publish, send [opening]] [send [reopening, away, back]] (List.prefix_refl _)
    obtain ⟨h', hheld, hbelow⟩ := hgrow "alice@example.org" (history [opening]) getHistory_opened
    cases (hlonger.getHistory_push none rfl).symm.trans hheld
    have hsame := (List.cons_prefix_cons.mp hbelow).1
    exact absurd hsame (by decide)
  · intro h
    have hagree := h.agree.2.1 "alice@example.org" (history [misdirected])
      (stored_misdirected.getHistory_push none rfl)
      (stored_misdirected.not_held rfl)
    obtain ⟨live', hlive, hkeys⟩ := hagree
    cases serves_published.2.symm.trans hlive
    exact absurd (hkeys misdirected rfl).2 (by decide)

/-- The honest continuation keeps the history. -/
theorem history_continued :
    HistoryAppendOnly rt₀ none seeded [publish, send [opening], send [opening, away, back]] := by
  refine (history_append_only_iff binding none [.fromProto Rekeyed.authority] _).mpr
    ⟨?_, ?_, ?_, trivial⟩
  · intro hkind
    cases hkind
  · intro _ rec live' hstored
    cases (parse_send (by simp [entries])).symm.trans hstored.parsed
    refine ⟨?_, ?_⟩
    · intro prior hprior
      cases getHistory_published.symm.trans hprior
    · intro last hlast
      cases hlast
      cases serves_published.2.symm.trans hstored.held
      rfl
  · intro _ rec live' hstored
    cases (parse_send (by simp [entries])).symm.trans hstored.parsed
    refine ⟨?_, ?_⟩
    · intro prior hprior
      cases getHistory_opened.symm.trans hprior
      exact ⟨_, rfl⟩
    · intro last hlast
      cases hlast
      cases (serves_published.push stored_opening).2.symm.trans hstored.held
      rfl

end Rewritten

end Dmcn
