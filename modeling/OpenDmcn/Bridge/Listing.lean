import OpenDmcn.Relay.MailboxList
import OpenDmcn.Relay.MessageStore

/-! What a pass of the bridge looks at (`processPending` and `mailboxItems` of `bridge/bridge.go`):
the envelopes queued for it in the relay's transit store, and one page of those in its mailbox. -/

namespace Dmcn.Bridge

open Go Datastore Mailbox

inductive ItemSource where
  | transit (q : StoredEnvelope EncryptedEnvelope)
  | mailbox (key : Key) (entry : Pb.MailboxEntry)

structure OutboundItem where
  hash : Fixed 32
  queuedAt : Time
  source : ItemSource

/-- The relay's stores as the bridge reads them. A node may have no mailbox, and a listing may
fail. -/
structure RelayStores where
  transit : MessageStore EncryptedEnvelope
  mailbox : Option Disk
  lists : Bool

section Pass

variable (rt : MailboxRuntime) (rx : Fixed 32)

def transitItems (store : MessageStore EncryptedEnvelope) : List OutboundItem :=
  (store.queued (Hex.encode rx.val)).map fun q => ⟨q.hash, q.storedAt, .transit q⟩

/-- The items of the mailbox, and whether they are all there: a listing that fails is not taken for
an empty mailbox. -/
def mailboxItems (stores : RelayStores) : List OutboundItem × Bool :=
  match stores.mailbox with
  | none => ([], true)
  | some disk =>
    if stores.lists = false then ([], false)
    else
      let page := list rt disk (Hex.encode rx.val) 0 "" .oldestFirst
      (page.entries.map fun e =>
        ⟨Fixed.copy 32 e.2.hash, Time.ofUnix e.2.storedAt, .mailbox e.1 e.2⟩, true)

def processPending (stores : RelayStores) : List OutboundItem × Bool :=
  let (mailbox, listed) := mailboxItems rt rx stores
  (transitItems rx stores.transit ++ mailbox, listed)

/-- A pass that takes itself for complete looks at every envelope that is queued for the bridge. -/
def Complete (stores : RelayStores) : Prop :=
  (processPending rt rx stores).2 = true →
    (∀ q ∈ stores.transit.queued (Hex.encode rx.val), ∃ item ∈ (processPending rt rx stores).1,
      item.source = .transit q) ∧
      ∀ disk, stores.mailbox = some disk → ∀ key e, Readable rt disk rx key e →
        ∃ item ∈ (processPending rt rx stores).1, item.source = .mailbox key e

end Pass

section OnePage

variable (rt : MailboxRuntime)

def CanBeRead (r : Key × Bytes) : Prop := (rt.entry.unmarshal r.2).isSome = true

instance (r : Key × Bytes) : Decidable (CanBeRead rt r) := inferInstanceAs (Decidable (_ = _))

def readCount (rs : List (Key × Bytes)) : ℕ := (rs.filter (CanBeRead rt ·)).length

def readSize (rs : List (Key × Bytes)) : ℕ :=
  ((rs.filter (CanBeRead rt ·)).map fun r => r.2.length).sum

def PageFrom (limit : ℤ) (n size : ℕ) (rs : List (Key × Bytes)) : Prop :=
  ∀ before r after, rs = before ++ r :: after → (∃ r' ∈ r :: after, CanBeRead rt r') →
    ((n + readCount rt before : ℕ) : ℤ) < limit ∧
      (n + readCount rt before = 0 ∨ size + readSize rt before + r.2.length ≤ listByteBudget)

/-- The mailbox fits a page: before each result that is followed by one that can be read, or can be
read itself, there are fewer than the default number of entries, and with it they are within the
budget of bytes. -/
def OnePage (disk : Disk) (rx : Fixed 32) : Prop :=
  PageFrom rt defaultListLimit 0 0
    (sortedQuery .oldestFirst (headerPrefix (Hex.encode rx.val)) disk)

variable {rt}

theorem readCount_cons (r : Key × Bytes) (rs : List (Key × Bytes)) :
    readCount rt (r :: rs) = (if CanBeRead rt r then 1 else 0) + readCount rt rs := by
  unfold readCount
  by_cases hr : CanBeRead rt r
  · rw [List.filter_cons_of_pos (by simpa using hr), if_pos hr, List.length_cons]
    omega
  · rw [List.filter_cons_of_neg (by simpa using hr), if_neg hr, Nat.zero_add]

theorem readSize_cons (r : Key × Bytes) (rs : List (Key × Bytes)) :
    readSize rt (r :: rs) = (if CanBeRead rt r then r.2.length else 0) + readSize rt rs := by
  unfold readSize
  by_cases hr : CanBeRead rt r
  · rw [List.filter_cons_of_pos (by simpa using hr), if_pos hr, List.map_cons, List.sum_cons]
  · rw [List.filter_cons_of_neg (by simpa using hr), if_neg hr, Nat.zero_add]

theorem pageFrom_cons {limit : ℤ} {n size : ℕ} {r : Key × Bytes} {rs : List (Key × Bytes)} :
    PageFrom rt limit n size (r :: rs) ↔
      ((∃ r' ∈ r :: rs, CanBeRead rt r') → (n : ℤ) < limit ∧
        (n = 0 ∨ size + r.2.length ≤ listByteBudget)) ∧
        PageFrom rt limit (n + if CanBeRead rt r then 1 else 0)
        (size + if CanBeRead rt r then r.2.length else 0) rs := by
  constructor
  · intro h
    refine ⟨fun hread => ?_, fun before r' after heq hread => ?_⟩
    · simpa [readCount, readSize] using h [] r rs rfl hread
    · have hnext := h (r :: before) r' after (by rw [heq]; rfl) hread
      rwa [readCount_cons, readSize_cons, ← Nat.add_assoc, ← Nat.add_assoc] at hnext
  · rintro ⟨hfirst, hrest⟩ before r' after heq hread
    cases before with
    | nil =>
      cases heq
      simpa [readCount, readSize] using hfirst hread
    | cons b before =>
      cases heq
      rw [readCount_cons, readSize_cons, ← Nat.add_assoc, ← Nat.add_assoc]
      exact hrest before r' after rfl hread

theorem listLoop_all_iff (limit : ℤ) (rs : List (Key × Bytes))
    (entries : List (Key × Pb.MailboxEntry)) (size : ℕ) (lastKey : String) :
    (listLoop rt limit (fun _ => false) rs entries size lastKey).entries = entries ++
      rs.filterMap (readEntry rt) ↔
      PageFrom rt limit entries.length size rs := by
  induction rs generalizing entries size lastKey with
  | nil => simp [listLoop, PageFrom]
  | cons r rs ih =>
    rw [listLoop, if_neg Bool.false_ne_true, pageFrom_cons]
    by_cases hfull : (entries.length : ℤ) ≥ limit ∨
      (entries.length > 0 ∧ size + r.2.length > listByteBudget)
    · have hnot : ¬ ((entries.length : ℤ) < limit ∧
        (entries.length = 0 ∨ size + r.2.length ≤ listByteBudget)) := by
        omega
      rw [if_pos hfull]
      constructor
      · intro heq
        have hnone : (r :: rs).filterMap (readEntry rt) = [] := List.self_eq_append_right.mp heq
        have hunread : ∀ r' ∈ r :: rs, ¬ CanBeRead rt r' := by
          intro r' hr' hread
          have hsome := List.filterMap_eq_nil_iff.mp hnone r' hr'
          unfold readEntry at hsome
          rw [Option.map_eq_none_iff] at hsome
          rw [CanBeRead, hsome] at hread
          cases hread
        refine ⟨fun hread => ?_, fun before r' after heq' hread => ?_⟩
        · obtain ⟨r', hr', hread⟩ := hread
          exact absurd hread (hunread r' hr')
        · obtain ⟨x, hx, hread⟩ := hread
          refine absurd hread (hunread x (List.mem_cons_of_mem _ ?_))
          rw [heq']
          exact List.mem_append_right _ hx
      · rintro ⟨hfirst, -⟩
        have hunread : ∀ r' ∈ r :: rs, readEntry rt r' = none := by
          intro r' hr'
          unfold readEntry
          rw [Option.map_eq_none_iff, ← Option.not_isSome_iff_eq_none]
          exact fun hread => hnot (hfirst ⟨r', hr', hread⟩)
        rw [List.filterMap_eq_nil_iff.mpr hunread, List.append_nil]
    · have hroom : (entries.length : ℤ) < limit ∧
          (entries.length = 0 ∨ size + r.2.length ≤ listByteBudget) := by
        omega
      rw [if_neg hfull]
      cases hread : rt.entry.unmarshal r.2 with
      | none =>
        have hno : ¬ CanBeRead rt r := by simp [CanBeRead, hread]
        dsimp only
        rw [List.filterMap_cons_none (by simp [readEntry, hread]), ih, if_neg hno, if_neg hno]
        exact ⟨fun h => ⟨fun _ => hroom, h⟩, fun h => h.2⟩
      | some e =>
        have hyes : CanBeRead rt r := by simp [CanBeRead, hread]
        have hadded : entries ++ (r :: rs).filterMap (readEntry rt) =
            entries ++ [(r.1, e)] ++ rs.filterMap (readEntry rt) := by
          rw [List.filterMap_cons_some
            (show readEntry rt r = some (r.1, e) by simp [readEntry, hread]),
            List.append_assoc]
          rfl
        dsimp only
        rw [hadded, ih, if_pos hyes, if_pos hyes, List.length_append, List.length_singleton]
        exact ⟨fun h => ⟨fun _ => hroom, h⟩, fun h => h.2⟩

theorem listLoop_length_le {limit : ℤ} (rs : List (Key × Bytes))
    (entries : List (Key × Pb.MailboxEntry)) (size : ℕ) (lastKey : String)
    (h : (entries.length : ℤ) ≤ limit) :
    ((listLoop rt limit (fun _ => false) rs entries size lastKey).entries.length : ℤ) ≤ limit := by
  induction rs generalizing entries size lastKey with
  | nil => exact h
  | cons r rs ih =>
    rw [listLoop, if_neg Bool.false_ne_true]
    split
    · exact h
    · rename_i hroom
      split
      · exact ih entries size lastKey h
      · apply ih
        rw [List.length_append, List.length_singleton]
        omega

theorem onePage_iff {disk : Disk} {rx : Fixed 32} :
    OnePage rt disk rx ↔ ∀ key e, Readable rt disk rx key e →
      (key, e) ∈ (list rt disk (Hex.encode rx.val) 0 "" .oldestFirst).entries := by
  let results := sortedQuery .oldestFirst (headerPrefix (Hex.encode rx.val)) disk
  have hlist : list rt disk (Hex.encode rx.val) 0 "" .oldestFirst =
      listLoop rt defaultListLimit (fun _ => false) results [] 0 "" := rfl
  have hreadable : ∀ key e, Readable rt disk rx key e ↔
      (key, e) ∈ results.filterMap (readEntry rt) := by
    intro key e
    rw [mem_filterMap_readEntry]
    constructor
    · rintro ⟨hunder, value, hlookup, hread⟩
      exact ⟨value, mem_sortedQuery.mpr ⟨hlookup, hunder⟩, hread⟩
    · rintro ⟨value, hmem, hread⟩
      obtain ⟨hlookup, hunder⟩ := mem_sortedQuery.mp hmem
      exact ⟨hunder, value, hlookup, hread⟩
  have hloop := @listLoop_all_iff rt defaultListLimit results [] 0 ""
  rw [List.nil_append] at hloop
  refine Iff.trans (show OnePage rt disk rx ↔ _ from hloop.symm) ?_
  rw [hlist]
  constructor
  · intro heq key e hread
    rw [heq]
    exact (hreadable key e).mp hread
  · intro hall
    obtain ⟨taken, rest, hsplit, hentries, -⟩ :=
      listLoop_spec rt (show (0 : ℤ) < defaultListLimit by decide)
      (fun _ => false) results [] 0 "" (by simp)
    rw [List.filter_eq_self.mpr (by simp)] at hsplit
    rw [List.nil_append] at hentries
    -- a key is among the results once, so what is not in the first part is not on the page
    have hnone : rest.filterMap (readEntry rt) = [] := by
      rw [List.eq_nil_iff_forall_not_mem]
      rintro ⟨key, e⟩ hrest
      have hread : Readable rt disk rx key e := by
        rw [hreadable, hsplit, List.filterMap_append]
        exact List.mem_append_right _ hrest
      have htaken := hall key e hread
      rw [hentries, mem_filterMap_readEntry] at htaken
      rw [mem_filterMap_readEntry] at hrest
      obtain ⟨value, htaken, -⟩ := htaken
      obtain ⟨value', hrest, -⟩ := hrest
      have hnodup : (results.map Prod.fst).Nodup := by
        have hperm := (List.mergeSort_perm (query (headerPrefix (Hex.encode rx.val)) [] disk)
          fun a b => !ListOrder.oldestFirst.past (text b.1) (text a.1)).map Prod.fst
        exact hperm.nodup_iff.mpr (nodup_query _ [] disk)
      rw [hsplit, List.map_append] at hnodup
      exact (List.nodup_append.mp hnodup).2.2 key (List.mem_map_of_mem htaken) key
        (List.mem_map_of_mem hrest) rfl
    rw [hentries, hsplit, List.filterMap_append, hnone, List.append_nil]

end OnePage

section Items

variable {rt : MailboxRuntime} {rx : Fixed 32} {stores : RelayStores}

theorem transit_item {q : StoredEnvelope EncryptedEnvelope}
    (hq : q ∈ stores.transit.queued (Hex.encode rx.val)) :
    ∃ item ∈ (processPending rt rx stores).1, item.source = .transit q :=
  ⟨_, List.mem_append_left _ (List.mem_map_of_mem hq), rfl⟩

theorem mailbox_item_iff {disk : Disk} (hdisk : stores.mailbox = some disk)
    (hlists : stores.lists = true) (key : Key) (e : Pb.MailboxEntry) :
    (∃ item ∈ (processPending rt rx stores).1, item.source = .mailbox key e) ↔
      (key, e) ∈ (list rt disk (Hex.encode rx.val) 0 "" .oldestFirst).entries := by
  unfold processPending mailboxItems
  rw [hdisk, hlists]
  dsimp only
  rw [if_neg (by simp)]
  constructor
  · rintro ⟨item, hitem, hsource⟩
    rcases List.mem_append.mp hitem with hitem | hitem
    · obtain ⟨q, -, rfl⟩ := List.mem_map.mp hitem
      cases hsource
    · obtain ⟨entry, hentry, rfl⟩ := List.mem_map.mp hitem
      cases hsource
      exact hentry
  · intro hentry
    exact ⟨_, List.mem_append_right _ (List.mem_map_of_mem hentry), rfl⟩

theorem processPending_listed {disk : Disk} (hdisk : stores.mailbox = some disk) :
    (processPending rt rx stores).2 = stores.lists := by
  unfold processPending mailboxItems
  rw [hdisk]
  dsimp only
  cases stores.lists with
  | false => rfl
  | true => rfl

end Items

/-- A pass looks at everything that is queued exactly if the mailbox that it lists fits a page. -/
theorem pass_complete_iff (rt : MailboxRuntime) (rx : Fixed 32) (stores : RelayStores) :
    Complete rt rx stores ↔ ∀ disk, stores.mailbox = some disk → stores.lists = true →
      OnePage rt disk rx := by
  constructor
  · intro h disk hdisk hlists
    rw [onePage_iff]
    intro key e hread
    have hall := h ((processPending_listed hdisk).trans hlists)
    exact (mailbox_item_iff hdisk hlists key e).mp (hall.2 disk hdisk key e hread)
  · intro h hcomplete
    refine ⟨fun q hq => transit_item hq, fun disk hdisk key e hread => ?_⟩
    have hlists : stores.lists = true := (processPending_listed hdisk).symm.trans hcomplete
    have hpage := onePage_iff.mp (h disk hdisk hlists) key e hread
    exact (mailbox_item_iff hdisk hlists key e).mpr hpage

def storeAll (ms : List Mail) : List MailboxCall :=
  ms.map fun m => .store m.rx m.hash m.env m.storedAt

theorem held_storeAll {ms : List Mail} (hsplit : ∀ m ∈ ms, m.env.isSplit = true)
    (hnodup : (ms.map Mail.pair).Nodup) :
    Mail.held (storeAll ms) = ms := by
  -- the last call stores one more
  induction ms using List.reverseRecOn with
  | nil => rfl
  | append_singleton ms m ih =>
    rw [List.map_append, List.nodup_append] at hnodup
    have hfirst := ih (fun m' hm' => hsplit m' (List.mem_append_left _ hm')) hnodup.1
    have hnew : (m.rx, m.hash) ∉ ms.map Mail.pair :=
      fun hmem => hnodup.2.2 _ hmem _ (List.mem_singleton_self _) rfl
    have hm : m.env.isSplit = true := hsplit m (List.mem_append_right _ (List.mem_singleton_self m))
    unfold Mail.held at hfirst ⊢
    rw [storeAll, List.map_append, Machine.run_append, ← storeAll, hfirst]
    change Mail.next ms (.store m.rx m.hash m.env m.storedAt) = _
    rw [Mail.next, if_neg (by rw [hm]; simp [hnew])]

namespace Backlog

def waiting (i : ℕ) : Mail :=
  ⟨.zero 32, Fixed.copy 32 [UInt8.ofNat i], smallEnvelope, Time.ofUnix 7⟩

def waitings : List Mail := (List.range 51).map waiting

theorem held_waitings : Mail.held (storeAll waitings) = waitings := by
  apply held_storeAll
  · intro m hm
    obtain ⟨i, -, rfl⟩ := List.mem_map.mp hm
    rfl
  · decide

noncomputable def backlog : Disk := run idealRuntime ∅ (storeAll waitings)

theorem holds_backlog : Holds idealRuntime ∅ backlog waitings := by
  have h := holds_run idealRuntime (show Foreign ∅ from fun _ _ => rfl) (storeAll waitings)
  rwa [held_waitings] at h

theorem readable_waiting {m : Mail} (hm : m ∈ waitings) :
    Readable idealRuntime backlog (.zero 32) m.header (entryOf m.hash m.env m.storedAt) := by
  have hlookup := holds_backlog.lookup_mail hm (mem_writes_header m)
  have hunder : under (headerPrefix (Hex.encode (Fixed.zero 32).val)) m.header = true := by
    rw [under_headerPrefix]
    obtain ⟨i, -, rfl⟩ := List.mem_map.mp hm
    exact decide_eq_true rfl
  exact ⟨hunder, _, hlookup, idealRuntime.entry.unmarshal_marshal _⟩

/-- A backlog of fifty-one: the pass takes itself for complete, and has not looked at one of
them. -/
theorem page_hides_one : ¬ Complete idealRuntime (.zero 32) ⟨.empty, some backlog, true⟩ := by
  intro hcomplete
  have hall := (hcomplete (processPending_listed rfl)).2 backlog rfl
  generalize hpage : list idealRuntime backlog (Hex.encode (Fixed.zero 32).val) 0 "" .oldestFirst =
    page at *
  have hfull : (page.entries.length : ℤ) ≤ 50 := by
    rw [← hpage]
    exact listLoop_length_le _ [] 0 "" (by decide)
  have hlooked : waitings.map Mail.header ⊆ page.entries.map Prod.fst := by
    intro key hkey
    obtain ⟨m, hm, rfl⟩ := List.mem_map.mp hkey
    have hentry := (mailbox_item_iff rfl rfl _ _).mp (hall m.header _ (readable_waiting hm))
    rw [hpage] at hentry
    exact List.mem_map_of_mem hentry
  have hnodup : (waitings.map Mail.header).Nodup := by
    have hfiltered := holds_backlog.nodup_headers fun _ => true
    rwa [List.filter_eq_self.mpr (by simp)] at hfiltered
  have hlength := (List.subperm_of_subset hnodup hlooked).length_le
  rw [List.length_map, List.length_map, show waitings.length = 51 by simp [waitings]] at hlength
  omega

end Backlog

end Dmcn.Bridge
