import OpenDmcn.Lib.Paging
import OpenDmcn.Relay.Mailbox
import Mathlib.Data.String.Basic

/-! Listing a mailbox (`mailbox.go`): a page of headers past a cursor, in the order of their keys,
cut at a number of entries and at a number of bytes; and the walk from page to page while mail comes
and goes. -/

namespace Dmcn.Mailbox

open Go Datastore

inductive ListOrder where
  | newestFirst
  | oldestFirst
  deriving DecidableEq

def ListOrder.past (order : ListOrder) (cursor key : String) : Bool :=
  match order with
  | .newestFirst => decide (key < cursor)
  | .oldestFirst => decide (cursor < key)

def defaultListLimit : ℤ := 50

def maxListLimit : ℤ := 1000

def listByteBudget : ℕ := 3 * 2 ^ 20

def clampLimit (limit : ℤ) : ℤ :=
  let limit := if limit ≤ 0 then defaultListLimit else limit
  if limit > maxListLimit then maxListLimit else limit

def sortedQuery (order : ListOrder) (pre : Key) (disk : Disk) : List (Key × Bytes) :=
  (query pre [] disk).mergeSort fun a b => !order.past (text b.1) (text a.1)

structure Page where
  entries : List (Key × Pb.MailboxEntry)
  nextCursor : String

def listLoop (rt : MailboxRuntime) (limit : ℤ) (skip : String → Bool) :
    List (Key × Bytes) → List (Key × Pb.MailboxEntry) → ℕ → String → Page
  | [], entries, _, _ => ⟨entries, ""⟩
  | r :: rs, entries, size, lastKey =>
    if skip (text r.1) then listLoop rt limit skip rs entries size lastKey
    else if (entries.length : ℤ) ≥ limit ∨ (entries.length > 0 ∧ size + r.2.length > listByteBudget)
      then
      -- the page is full, and more remains
      ⟨entries, lastKey⟩
    else
      match rt.entry.unmarshal r.2 with
      | none => listLoop rt limit skip rs entries size lastKey
      | some e => listLoop rt limit skip rs (entries ++ [(r.1, e)]) (size + r.2.length) (text r.1)

def list (rt : MailboxRuntime) (disk : Disk) (rxHex : String) (limit : ℤ) (cursor : String)
    (order : ListOrder) : Page :=
  listLoop rt (clampLimit limit) (fun key => cursor != "" && !order.past cursor key)
    (sortedQuery order (headerPrefix rxHex) disk) [] 0 ""

theorem clampLimit_pos (limit : ℤ) : 0 < clampLimit limit := by
  unfold clampLimit maxListLimit defaultListLimit
  dsimp only
  split
  · omega
  · split
    · omega
    · omega

section Loop

def readEntry (rt : MailboxRuntime) (r : Key × Bytes) : Option (Key × Pb.MailboxEntry) :=
  (rt.entry.unmarshal r.2).map fun e => (r.1, e)

/-- A page takes what can be read of a first part of the results, all of them or up to some entry
whose key is the cursor. -/
theorem listLoop_spec (rt : MailboxRuntime) {limit : ℤ} (hlimit : 0 < limit) (skip : String → Bool)
    (rs : List (Key × Bytes)) (entries : List (Key × Pb.MailboxEntry))
    (size : ℕ) (lastKey : String)
    (hlast : entries ≠ [] → ∃ init last, entries = init ++ [last] ∧ lastKey = text last.1) :
    ∃ taken rest, (rs.filter fun r => !skip (text r.1)) = taken ++ rest ∧
      (listLoop rt limit skip rs entries size lastKey).entries = entries ++
      taken.filterMap (readEntry rt) ∧
      (rest = [] ∧ (listLoop rt limit skip rs entries size lastKey).nextCursor = "" ∨
        rest ≠ [] ∧ ∃ init last, entries ++ taken.filterMap (readEntry rt) = init ++ [last] ∧
          (listLoop rt limit skip rs entries size lastKey).nextCursor = text last.1) := by
  induction rs generalizing entries size lastKey with
  | nil => exact ⟨[], [], rfl, by simp [listLoop], .inl ⟨rfl, rfl⟩⟩
  | cons r rs ih =>
    rw [listLoop]
    by_cases hskip : skip (text r.1) = true
    · rw [if_pos hskip, List.filter_cons_of_neg (by simp [hskip])]
      exact ih entries size lastKey hlast
    · rw [if_neg hskip, List.filter_cons_of_pos (by simpa using hskip)]
      by_cases hfull : (entries.length : ℤ) ≥ limit ∨
          (entries.length > 0 ∧ size + r.2.length > listByteBudget)
      · have hne : entries ≠ [] := by
          rintro rfl
          simp at hfull
          omega
        rw [if_pos hfull]
        refine ⟨[], _, rfl, by simp, .inr ⟨by simp, ?_⟩⟩
        simpa using hlast hne
      · rw [if_neg hfull]
        cases hread : rt.entry.unmarshal r.2 with
        | none =>
          obtain ⟨taken, rest, hsplit, hentries, hend⟩ := ih entries size lastKey hlast
          have hskipped : (r :: taken).filterMap (readEntry rt) =
              taken.filterMap (readEntry rt) := by
            rw [List.filterMap_cons_none]
            simp [readEntry, hread]
          refine ⟨r :: taken, rest, by rw [hsplit]; rfl, ?_, ?_⟩
          · rw [hskipped]
            exact hentries
          · rw [hskipped]
            exact hend
        | some e =>
          obtain ⟨taken, rest, hsplit, hentries, hend⟩ :=
            ih (entries ++ [(r.1, e)]) (size + r.2.length) (text r.1) fun _ =>
              ⟨entries, (r.1, e), rfl, rfl⟩
          have hadded : entries ++ (r :: taken).filterMap (readEntry rt) =
              entries ++ [(r.1, e)] ++ taken.filterMap (readEntry rt) := by
            rw [List.filterMap_cons_some
              (show readEntry rt r = some (r.1, e) by simp [readEntry, hread]), List.append_assoc]
            rfl
          refine ⟨r :: taken, rest, by rw [hsplit]; rfl, ?_, ?_⟩
          · rw [hadded]
            exact hentries
          · rw [hadded]
            exact hend

end Loop

def ListOrder.Before (order : ListOrder) (a b : String) : Prop := order.past a b = true

theorem ListOrder.before_iff {order : ListOrder} {a b : String} :
    order.Before a b ↔ match order with | .newestFirst => b < a | .oldestFirst => a < b := by
  cases order with
  | newestFirst => exact decide_eq_true_iff
  | oldestFirst => exact decide_eq_true_iff

instance (order : ListOrder) : IsStrictTotalOrder String order.Before where
  trichotomous a b hab hba := by
    rw [ListOrder.before_iff] at hab hba
    cases order with
    | newestFirst => exact le_antisymm (not_lt.mp hab) (not_lt.mp hba)
    | oldestFirst => exact le_antisymm (not_lt.mp hba) (not_lt.mp hab)
  irrefl a haa := by
    rw [ListOrder.before_iff] at haa
    cases order with
    | newestFirst => exact lt_irrefl a haa
    | oldestFirst => exact lt_irrefl a haa
  trans a b c hab hbc := by
    rw [ListOrder.before_iff] at hab hbc ⊢
    cases order with
    | newestFirst => exact lt_trans hbc hab
    | oldestFirst => exact lt_trans hab hbc

def WellKeyed (disk : Disk) : Prop := ∀ key, disk.lookup key ≠ none → ∀ part ∈ key, Plain part

section Sorted

variable {order : ListOrder} {pre : Key} {disk : Disk}

theorem mem_sortedQuery {key : Key} {value : Bytes} :
    (key, value) ∈ sortedQuery order pre disk ↔ disk.lookup key = some value ∧
      under pre key = true := by
  unfold sortedQuery
  rw [List.mem_mergeSort, mem_query]

theorem ne_nil_of_under {key : Key} (h : under pre key = true) : key ≠ [] := by
  rintro rfl
  simp [under] at h

theorem text_inj (hdisk : WellKeyed disk) {key key' : Key} (hkey : disk.lookup key ≠ none)
    (hkey' : disk.lookup key' ≠ none) (hunder : under pre key = true)
    (hunder' : under pre key' = true) (heq : text key = text key') : key = key' :=
  text_injective (ne_nil_of_under hunder) (ne_nil_of_under hunder') (hdisk key hkey)
    (hdisk key' hkey') heq

theorem sorted_sortedQuery (hdisk : WellKeyed disk) :
    (sortedQuery order pre disk).Pairwise fun r r' => order.Before (text r.1) (text r'.1) := by
  have hweak : (sortedQuery order pre disk).Pairwise fun r r' =>
      ¬ order.Before (text r'.1) (text r.1) := by
    have hsorted : (sortedQuery order pre disk).Pairwise fun r r' =>
        (!order.past (text r'.1) (text r.1)) = true := by
      refine List.pairwise_mergeSort ?_ ?_ _
      · intro a b c hab hbc
        simp only [Bool.not_eq_true'] at hab hbc ⊢
        rw [Bool.eq_false_iff] at hab hbc ⊢
        intro hca
        rcases trichotomous_of order.Before (text b.1) (text c.1) with h | h | h
        · exact hab (trans_of order.Before h hca)
        · rw [← h] at hca
          exact hab hca
        · exact hbc h
      · intro a b
        rw [Bool.or_eq_true, Bool.not_eq_true', Bool.not_eq_true', Bool.eq_false_iff,
          Bool.eq_false_iff]
        by_contra hboth
        rw [not_or, not_not, not_not] at hboth
        exact irrefl_of order.Before _ (trans_of order.Before hboth.1 hboth.2)
    refine hsorted.imp fun {r r'} h => ?_
    simpa [ListOrder.Before] using h
  have hkeys : ((sortedQuery order pre disk).map Prod.fst).Nodup := by
    have hperm := (List.mergeSort_perm (query pre [] disk) fun a b =>
      !order.past (text b.1) (text a.1)).map Prod.fst
    exact hperm.nodup_iff.mpr (nodup_query pre [] disk)
  refine (hweak.and (List.pairwise_map.mp hkeys)).imp_of_mem ?_
  rintro ⟨key, value⟩ ⟨key', value'⟩ hr hr' ⟨hweak, hne⟩
  obtain ⟨hlookup, hunder⟩ := mem_sortedQuery.mp hr
  obtain ⟨hlookup', hunder'⟩ := mem_sortedQuery.mp hr'
  rcases trichotomous_of order.Before (text key) (text key') with h | h | h
  · exact h
  · exact absurd (text_inj hdisk (by simp [hlookup]) (by simp [hlookup']) hunder hunder' h) hne
  · exact absurd h hweak

end Sorted

def cursorOf (cursor : String) : Option String := if cursor = "" then none else some cursor

theorem text_ne_empty {key : Key} (h : key ≠ []) : text key ≠ "" := by
  obtain ⟨part, rest, rfl⟩ := List.exists_cons_of_ne_nil h
  intro heq
  have hlist := congrArg String.toList heq
  rw [text, if_neg (List.cons_ne_nil _ _), String.toList_ofList] at hlist
  simp [List.intercalate, List.intersperse] at hlist

def There (disk : Disk) (rx : Fixed 32) (key : Key) : Prop :=
  disk.lookup key ≠ none ∧ under (headerPrefix (Hex.encode rx.val)) key = true

def Readable (rt : MailboxRuntime) (disk : Disk) (rx : Fixed 32) (key : Key) (e : Pb.MailboxEntry) :
    Prop :=
  under (headerPrefix (Hex.encode rx.val)) key = true ∧
    ∃ value, disk.lookup key = some value ∧ rt.entry.unmarshal value = some e

theorem after_cursorOf {order : ListOrder} {cursor key : String} :
    Paging.After order.Before (cursorOf cursor) key ↔ (!(cursor != "" && !order.past cursor key)) =
      true := by
  unfold Paging.After cursorOf
  by_cases hcursor : cursor = ""
  · simp [hcursor]
  · simp [hcursor, ListOrder.Before]

theorem mem_filterMap_readEntry {rt : MailboxRuntime} {rs : List (Key × Bytes)} {key : Key}
    {e : Pb.MailboxEntry} :
    (key, e) ∈ rs.filterMap (readEntry rt) ↔ ∃ value, (key, value) ∈ rs ∧ rt.entry.unmarshal value =
      some e := by
  rw [List.mem_filterMap]
  constructor
  · rintro ⟨⟨key', value⟩, hr, hread⟩
    obtain ⟨e', hread, heq⟩ := Option.map_eq_some_iff.mp hread
    cases heq
    exact ⟨value, hr, hread⟩
  · rintro ⟨value, hr, hread⟩
    exact ⟨(key, value), hr, by simp [readEntry, hread]⟩

section Page

variable (rt : MailboxRuntime) {disk : Disk} (hdisk : WellKeyed disk) (rx : Fixed 32) (limit : ℤ)
  (cursor : String) (order : ListOrder)

theorem list_spec (disk : Disk) : ∃ taken rest,
    (∀ key value, (key, value) ∈ taken ++ rest ↔ disk.lookup key = some value ∧
      under (headerPrefix (Hex.encode rx.val)) key = true ∧
      Paging.After order.Before (cursorOf cursor) (text key)) ∧
    (WellKeyed disk → (taken ++ rest).Pairwise fun r r' => order.Before (text r.1) (text r'.1)) ∧
    (list rt disk (Hex.encode rx.val) limit cursor order).entries = taken.filterMap (readEntry rt) ∧
    (rest = [] ∧ (list rt disk (Hex.encode rx.val) limit cursor order).nextCursor = "" ∨
      rest ≠ [] ∧ ∃ init last, taken.filterMap (readEntry rt) = init ++ [last] ∧
        (list rt disk (Hex.encode rx.val) limit cursor order).nextCursor = text last.1) := by
  obtain ⟨taken, rest, hsplit, hentries, hend⟩ :=
    listLoop_spec rt (clampLimit_pos limit) (fun key => cursor != "" && !order.past cursor key)
      (sortedQuery order (headerPrefix (Hex.encode rx.val)) disk) [] 0 "" (by simp)
  rw [List.nil_append] at hentries hend
  refine ⟨taken, rest, fun key value => ?_, fun hdisk => ?_, hentries, hend⟩
  · rw [← hsplit, List.mem_filter, mem_sortedQuery, ← after_cursorOf, and_assoc]
  · rw [← hsplit]
    exact (sorted_sortedQuery hdisk).filter _

include hdisk

theorem isPage_list :
    Paging.IsPage order.Before (fun k => ∃ key, There disk rx key ∧ text key = k)
      (fun k => ∃ key e, Readable rt disk rx key e ∧ text key = k) (cursorOf cursor)
      ((list rt disk (Hex.encode rx.val) limit cursor order).entries.map fun e => text e.1)
      (cursorOf (list rt disk (Hex.encode rx.val) limit cursor order).nextCursor) := by
  obtain ⟨taken, rest, hmem, hsorted, hentries, hend⟩ := list_spec rt rx limit cursor order disk
  have hsorted := hsorted hdisk
  have hread : ∀ key e, Readable rt disk rx key e →
      Paging.After order.Before (cursorOf cursor) (text key) →
      ∃ value, (key, value) ∈ taken ++ rest ∧ rt.entry.unmarshal value = some e := by
    rintro key e ⟨hunder, value, hlookup, hread⟩ hafter
    exact ⟨value, (hmem key value).mpr ⟨hlookup, hunder, hafter⟩, hread⟩
  have hkeys : (taken.filterMap (readEntry rt)).Pairwise fun e e' =>
      order.Before (text e.1) (text e'.1) := by
    refine List.Pairwise.filterMap _ ?_ (List.pairwise_append.mp hsorted).1
    rintro r r' h ⟨key, e⟩ hb ⟨key', e'⟩ hb'
    obtain ⟨_, -, heq⟩ := Option.map_eq_some_iff.mp hb
    obtain ⟨_, -, heq'⟩ := Option.map_eq_some_iff.mp hb'
    cases heq
    cases heq'
    exact h
  rw [hentries]
  refine ⟨List.pairwise_map.mpr hkeys, ?_, ?_, ?_⟩
  · intro k hk
    obtain ⟨⟨key, e⟩, hentry, rfl⟩ := List.mem_map.mp hk
    obtain ⟨value, hr, hvalue⟩ := mem_filterMap_readEntry.mp hentry
    obtain ⟨hlookup, hunder, hafter⟩ := (hmem key value).mp (List.mem_append_left _ hr)
    exact ⟨⟨key, e, ⟨hunder, value, hlookup, hvalue⟩, rfl⟩, hafter⟩
  · rintro hnone k ⟨key, e, hkey, rfl⟩ hafter
    rcases hend with ⟨rfl, -⟩ | ⟨-, init, last, hlast, hnext⟩
    · obtain ⟨value, hr, hvalue⟩ := hread key e hkey hafter
      rw [List.append_nil] at hr
      exact List.mem_map.mpr ⟨(key, e), mem_filterMap_readEntry.mpr ⟨value, hr, hvalue⟩, rfl⟩
    · -- the key of an entry is never the empty cursor
      have hentry : last ∈ taken.filterMap (readEntry rt) := by simp [hlast]
      obtain ⟨value, hr, -⟩ := mem_filterMap_readEntry.mp hentry
      have hunder := ((hmem last.1 value).mp (List.mem_append_left _ hr)).2.1
      rw [cursorOf, hnext, if_neg (text_ne_empty (ne_nil_of_under hunder))] at hnone
      cases hnone
  · intro c hc
    have hnext : (list rt disk (Hex.encode rx.val) limit cursor order).nextCursor = c ∧ c ≠ "" := by
      unfold cursorOf at hc
      split at hc
      · cases hc
      · next hne =>
        cases hc
        exact ⟨rfl, hne⟩
    rcases hend with ⟨-, hempty⟩ | ⟨hrest, init, last, hlast, hcursor⟩
    · exact absurd (hnext.1.symm.trans hempty) hnext.2
    · obtain rfl : text last.1 = c := hcursor.symm.trans hnext.1
      have hentry : last ∈ taken.filterMap (readEntry rt) := by simp [hlast]
      obtain ⟨value, hr, -⟩ := mem_filterMap_readEntry.mp hentry
      have hlater := (List.pairwise_append.mp hsorted).2.2 _ hr
      refine ⟨List.mem_map.mpr ⟨last, hentry, rfl⟩, ?_, ?_, ?_⟩
      · intro k hk
        obtain ⟨e, he, rfl⟩ := List.mem_map.mp hk
        rw [hlast] at he hkeys
        rcases List.mem_append.mp he with he | he
        · exact .inr ((List.pairwise_append.mp hkeys).2.2 e he last (List.mem_singleton_self _))
        · rw [List.mem_singleton.mp he]
          exact .inl rfl
      · rintro k ⟨key, e, hkey, rfl⟩ hafter hbefore
        obtain ⟨value', hr', hvalue'⟩ := hread key e hkey hafter
        rcases List.mem_append.mp hr' with hr' | hr'
        · exact List.mem_map.mpr ⟨(key, e), mem_filterMap_readEntry.mpr ⟨value', hr', hvalue'⟩, rfl⟩
        · exact absurd (hlater _ hr') hbefore
      · obtain ⟨⟨key, value'⟩, rest', rfl⟩ := List.exists_cons_of_ne_nil hrest
        have hr' : (key, value') ∈ (key, value') :: rest' := List.mem_cons_self ..
        obtain ⟨hlookup, hunder, -⟩ := (hmem key value').mp (List.mem_append_right _ hr')
        have hbefore := hlater _ hr'
        exact ⟨text key, ⟨key, ⟨by simp [hlookup], hunder⟩, rfl⟩, hbefore⟩

end Page

section Calls

variable {rt : MailboxRuntime} {disk : Disk}

theorem plain_storeBatch {rx hash : Fixed 32} {env : EncryptedEnvelope} {storedAt : Time}
    {key : Key} (h : key ∈ (storeBatch rt (Hex.encode rx.val) hash env storedAt).map Prod.fst) :
    ∀ part ∈ key, Plain part := by
  have hmail := Mail.storeBatch_eq rt ⟨rx, hash, env, storedAt⟩
  rw [show storeBatch rt (Hex.encode rx.val) hash env storedAt = _ from hmail] at h
  have hfixed : Plain "mbox" ∧ Plain "h" ∧ Plain "b" ∧ Plain "x" := by decide
  simp only [Mail.writes, List.map_cons, List.map_nil, List.mem_cons, List.not_mem_nil, or_false]
    at h
  rcases h with rfl | rfl | rfl
  · simp [Mail.header, Mail.rxHex, Mail.seq, plain_hash, plain_padded, hfixed]
  · simp [Mail.body, Mail.rxHex, plain_hash, hfixed]
  · simp [Mail.index, Mail.rxHex, plain_hash, hfixed]

theorem lookup_call_delete {rx hash : Fixed 32} {key : Key}
    (h : (call rt disk (.delete rx hash)).lookup key ≠ none) : disk.lookup key ≠ none := by
  unfold call delete at h
  dsimp only at h
  split at h
  · exact h
  · rw [lookup_deleteAll] at h
    split at h
    · exact absurd rfl h
    · exact h

theorem WellKeyed.call (h : WellKeyed disk) (c : MailboxCall) : WellKeyed (call rt disk c) := by
  intro key hlookup
  cases c with
  | delete rx hash => exact h key (lookup_call_delete hlookup)
  | store rx hash env storedAt =>
    unfold Mailbox.call store at hlookup
    dsimp only at hlookup
    split at hlookup
    · exact h key hlookup
    · split at hlookup
      · exact h key hlookup
      · by_cases hmem : key ∈ (storeBatch rt (Hex.encode rx.val) hash env storedAt).map Prod.fst
        · exact plain_storeBatch hmem
        · change (putAll disk (storeBatch rt (Hex.encode rx.val) hash env storedAt)).lookup key ≠
            none at hlookup
          rw [lookup_putAll_of_notMem hmem] at hlookup
          exact h key hlookup

theorem WellKeyed.run (h : WellKeyed disk) (cs : List MailboxCall) : WellKeyed (run rt disk cs) :=
  (Machine.throughout_of_invariant h fun _ c hd => hd.call c).last

theorem lookup_run_of_deletes {cs : List MailboxCall}
    (hcs : ∀ c ∈ cs, ∃ rx hash, c = .delete rx hash) {key : Key}
    (h : (run rt disk cs).lookup key ≠ none) : disk.lookup key ≠ none := by
  induction cs generalizing disk with
  | nil => exact h
  | cons c cs ih =>
    obtain ⟨rx, hash, rfl⟩ := hcs c (List.mem_cons_self ..)
    exact lookup_call_delete (ih (fun c hc => hcs c (List.mem_cons_of_mem _ hc)) h)

end Calls

/-- One round of a walk: the calls made before its page is asked for, and the limit it is asked for
with. -/
structure Round where
  calls : List MailboxCall
  limit : ℤ

structure Walker where
  disk : Disk
  cursor : String

section Walk

variable (rt : MailboxRuntime) (order : ListOrder) (rx : Fixed 32) (disk : Disk)
  (rounds : ℕ → Round)

def Walker.page (w : Walker) (r : Round) : Page :=
  list rt (run rt w.disk r.calls) (Hex.encode rx.val) r.limit w.cursor order

def walkAt : ℕ → Walker
  | 0 => ⟨disk, ""⟩
  | n + 1 =>
    ⟨run rt (walkAt n).disk (rounds n).calls, ((walkAt n).page rt order rx (rounds n)).nextCursor⟩

def diskAt (n : ℕ) : Disk := (walkAt rt order rx disk rounds (n + 1)).disk

def pageAt (n : ℕ) : Page := (walkAt rt order rx disk rounds n).page rt order rx (rounds n)

def keysListed (n : ℕ) : List Key :=
  (List.range n).flatMap fun k => (pageAt rt order rx disk rounds k).entries.map Prod.fst

def Asked (n : ℕ) : Prop := ∀ k < n, (pageAt rt order rx disk rounds k).nextCursor ≠ ""

variable {disk} (hdisk : WellKeyed disk)

include hdisk

theorem wellKeyed_walkAt (n : ℕ) : WellKeyed (walkAt rt order rx disk rounds n).disk := by
  induction n with
  | zero => exact hdisk
  | succ n ih => exact ih.run _

theorem isPage_pageAt (n : ℕ) :
    Paging.IsPage order.Before (fun k => ∃ key, There (diskAt rt order rx disk rounds n) rx key ∧
      text key = k)
      (fun k => ∃ key e, Readable rt (diskAt rt order rx disk rounds n) rx key e ∧ text key = k)
      (Paging.cursor (fun n => cursorOf (pageAt rt order rx disk rounds n).nextCursor) n)
      ((pageAt rt order rx disk rounds n).entries.map fun e => text e.1)
      (cursorOf (pageAt rt order rx disk rounds n).nextCursor) := by
  have hcursor : Paging.cursor (fun n => cursorOf (pageAt rt order rx disk rounds n).nextCursor) n =
      cursorOf (walkAt rt order rx disk rounds n).cursor := by
    cases n with
    | zero => rfl
    | succ n => rfl
  rw [hcursor]
  exact isPage_list rt (wellKeyed_walkAt rt order rx rounds hdisk (n + 1)) rx _ _ order

omit hdisk in
theorem cursorOf_eq_none {cursor : String} : cursorOf cursor = none ↔ cursor = "" := by
  unfold cursorOf
  split
  · next h => simp [h]
  · next h => simp [h]

omit hdisk in
theorem map_text_keysListed (n : ℕ) : (keysListed rt order rx disk rounds n).map text =
    Paging.listed (fun n => (pageAt rt order rx disk rounds n).entries.map fun e => text e.1)
      n := by
  unfold keysListed Paging.listed
  rw [List.map_flatMap]
  simp only [List.map_map]
  rfl

omit hdisk in
theorem readable_of_pageAt {n : ℕ} {key : Key} {e : Pb.MailboxEntry}
    (h : (key, e) ∈ (pageAt rt order rx disk rounds n).entries) :
    Readable rt (diskAt rt order rx disk rounds n) rx key e := by
  obtain ⟨taken, rest, hmem, -, hentries, -⟩ := list_spec rt rx (rounds n).limit
    (walkAt rt order rx disk rounds n).cursor order (diskAt rt order rx disk rounds n)
  have hentry : (key, e) ∈ taken.filterMap (readEntry rt) := by
    rw [← hentries]
    exact h
  obtain ⟨value, hr, hvalue⟩ := mem_filterMap_readEntry.mp hentry
  obtain ⟨hlookup, hunder, -⟩ := (hmem key value).mp (List.mem_append_left _ hr)
  exact ⟨hunder, value, hlookup, hvalue⟩

omit hdisk in
theorem readable_of_listed {n : ℕ} {key : Key} (h : key ∈ keysListed rt order rx disk rounds n) :
    ∃ k < n, ∃ e, Readable rt (diskAt rt order rx disk rounds k) rx key e := by
  obtain ⟨k, hk, hkey⟩ := List.mem_flatMap.mp h
  obtain ⟨⟨key', e⟩, hentry, rfl⟩ := List.mem_map.mp hkey
  exact ⟨k, List.mem_range.mp hk, e, readable_of_pageAt rt order rx rounds hentry⟩

omit hdisk in
theorem going_of_asked {n : ℕ} (h : Asked rt order rx disk rounds n) :
    Paging.Going (fun n => cursorOf (pageAt rt order rx disk rounds n).nextCursor) n :=
  fun k hk hnone => h k hk (cursorOf_eq_none.mp hnone)

theorem mem_keysListed {n : ℕ} (hasked : Asked rt order rx disk rounds n)
    (hlast : (pageAt rt order rx disk rounds n).nextCursor = "") {key : Key}
    (hkey : ∀ k ≤ n, ∃ e, Readable rt (diskAt rt order rx disk rounds k) rx key e) :
    key ∈ keysListed rt order rx disk rounds (n + 1) := by
  have hgood : ∀ k ≤ n, ∃ key' e, Readable rt (diskAt rt order rx disk rounds k) rx key' e ∧
      text key' = text key := by
    intro k hk
    obtain ⟨e, he⟩ := hkey k hk
    exact ⟨key, e, he, rfl⟩
  have hlisted := Paging.mem_listed (isPage_pageAt rt order rx rounds hdisk)
    (going_of_asked rt order rx rounds hasked)
    (cursorOf_eq_none.mpr hlast) hgood
  rw [← map_text_keysListed] at hlisted
  obtain ⟨key', hkey', htext⟩ := List.mem_map.mp hlisted
  -- the page that lists the text saw both keys, and a text has one key
  obtain ⟨k, hk, e', hunder', value', hlookup', -⟩ := readable_of_listed rt order rx rounds hkey'
  obtain ⟨e, hunder, value, hlookup, -⟩ := hkey k (Nat.lt_succ_iff.mp hk)
  have heq : key' = key := text_inj (wellKeyed_walkAt rt order rx rounds hdisk (k + 1))
    (by rw [show (walkAt rt order rx disk rounds (k + 1)).disk.lookup key' = _ from hlookup']; simp)
    (by rw [show (walkAt rt order rx disk rounds (k + 1)).disk.lookup key = _ from hlookup]; simp)
    hunder' hunder htext
  rwa [heq] at hkey'

theorem exists_last
    (hstop : ∃ N, ∀ n, N ≤ n → ∀ c ∈ (rounds n).calls, ∃ rx hash, c = .delete rx hash) :
    ∃ n, Asked rt order rx disk rounds n ∧ (pageAt rt order rx disk rounds n).nextCursor = "" := by
  obtain ⟨N, hN⟩ := hstop
  have hthere : ∀ n k,
      (∃ key e, Readable rt (diskAt rt order rx disk rounds n) rx key e ∧ text key = k) →
      ∃ key, There (diskAt rt order rx disk rounds n) rx key ∧ text key = k := by
    rintro n k ⟨key, e, ⟨hunder, value, hlookup, -⟩, rfl⟩
    exact ⟨key, ⟨by simp [hlookup], hunder⟩, rfl⟩
  have hfinite : Set.Finite fun k => ∃ key, There (diskAt rt order rx disk rounds N) rx key ∧
      text key = k := by
    refine (List.finite_toSet ((diskAt rt order rx disk rounds N).keys.map text)).subset ?_
    rintro k ⟨key, ⟨hlookup, -⟩, rfl⟩
    refine List.mem_map_of_mem ?_
    rw [← AList.mem_keys, ← AList.lookup_isSome, Option.isSome_iff_ne_none]
    exact hlookup
  have hfewer : ∀ n, N ≤ n → ∀ k,
      (∃ key, There (diskAt rt order rx disk rounds (n + 1)) rx key ∧ text key = k) →
      ∃ key, There (diskAt rt order rx disk rounds n) rx key ∧ text key = k := by
    rintro n hn k ⟨key, ⟨hlookup, hunder⟩, rfl⟩
    exact ⟨key, ⟨lookup_run_of_deletes (hN (n + 1) (Nat.le_succ_of_le hn)) hlookup, hunder⟩, rfl⟩
  obtain ⟨n, hgoing, hlast⟩ :=
    Paging.exists_last_page (isPage_pageAt rt order rx rounds hdisk) hthere hfinite hfewer
  exact ⟨n, fun k hk hempty => hgoing k hk (cursorOf_eq_none.mpr hempty), cursorOf_eq_none.mp hlast⟩

end Walk

/-- A walk over a mailbox, with any calls made between its pages: it ends once no more mail is
stored; what it lists comes in the order of the keys and never twice, as it is on disk; by its last
page it has listed every entry that could be read at each of them; and a page leaves a cursor only
where an entry is past it. -/
theorem mailbox_pagination (rt : MailboxRuntime) (order : ListOrder) (rx : Fixed 32) {disk : Disk}
    (hdisk : WellKeyed disk) (rounds : ℕ → Round) :
    ((∃ N, ∀ n, N ≤ n → ∀ c ∈ (rounds n).calls, ∃ rx hash, c = .delete rx hash) →
      ∃ n, Asked rt order rx disk rounds n ∧ (pageAt rt order rx disk rounds n).nextCursor = "") ∧
    ∀ n, Asked rt order rx disk rounds n →
      (keysListed rt order rx disk rounds (n + 1)).Pairwise
        (fun key key' => order.past (text key) (text key') = true) ∧
      (keysListed rt order rx disk rounds (n + 1)).Nodup ∧
      (∀ key e, (key, e) ∈ (pageAt rt order rx disk rounds n).entries →
        Readable rt (diskAt rt order rx disk rounds n) rx key e) ∧
      ((pageAt rt order rx disk rounds n).nextCursor = "" →
        ∀ key, (∀ k ≤ n, ∃ e, Readable rt (diskAt rt order rx disk rounds k) rx key e) →
          key ∈ keysListed rt order rx disk rounds (n + 1)) ∧
      ((pageAt rt order rx disk rounds n).nextCursor ≠ "" →
        ∃ key, There (diskAt rt order rx disk rounds n) rx key ∧
          ∀ e ∈ (pageAt rt order rx disk rounds n).entries, order.past (text e.1) (text key) =
            true) := by
  refine ⟨exists_last rt order rx rounds hdisk, fun n hasked => ?_⟩
  have hpage := isPage_pageAt rt order rx rounds hdisk
  have hsorted : (keysListed rt order rx disk rounds (n + 1)).Pairwise
      fun key key' => order.Before (text key) (text key') := by
    have htexts := Paging.sorted_listed hpage (going_of_asked rt order rx rounds hasked)
    rw [← map_text_keysListed] at htexts
    exact List.pairwise_map.mp htexts
  refine ⟨hsorted, hsorted.imp fun {key key'} hbefore heq => ?_, ?_, fun hlast key hkey =>
    ?_, fun hnext => ?_⟩
  · rw [heq] at hbefore
    exact irrefl_of order.Before _ hbefore
  · exact fun key e hentry => readable_of_pageAt rt order rx rounds hentry
  · exact mem_keysListed rt order rx rounds hdisk hasked hlast hkey
  · obtain ⟨c, hc⟩ := Option.ne_none_iff_exists'.mp fun hnone => hnext (cursorOf_eq_none.mp hnone)
    obtain ⟨-, hbefore, -, k, ⟨key, hthere, rfl⟩, hck⟩ := (hpage n).resume c hc
    refine ⟨key, hthere, fun e he => ?_⟩
    rcases hbefore (text e.1) (List.mem_map_of_mem he) with heq | hlt
    · rw [heq]
      exact hck
    · exact trans_of order.Before hlt hck

noncomputable def oneMessage : Disk := run idealRuntime ∅ oneStore

theorem wellKeyed_oneMessage : WellKeyed oneMessage :=
  WellKeyed.run (fun _ hlookup => absurd rfl hlookup) _

def onlyMail : Mail := ⟨.zero 32, .zero 32, smallEnvelope, Time.ofUnix 7⟩

theorem readable_onlyMail :
    ∃ e, Readable idealRuntime oneMessage (.zero 32) onlyMail.header e := by
  have hheld : onlyMail ∈ Mail.held oneStore := List.mem_singleton_self _
  have h := holds_run idealRuntime (show Foreign ∅ from fun _ _ => rfl) oneStore
  refine ⟨entryOf onlyMail.hash onlyMail.env onlyMail.storedAt, ?_, _,
    h.lookup_mail hheld (mem_writes_header onlyMail), idealRuntime.entry.unmarshal_marshal _⟩
  rw [under_headerPrefix]
  exact decide_eq_true rfl

def plainRounds : ℕ → Round := fun _ => ⟨[], 1⟩

theorem disk_plainRounds (n : ℕ) :
    (walkAt idealRuntime .newestFirst (.zero 32) oneMessage plainRounds n).disk = oneMessage := by
  induction n with
  | zero => rfl
  | succ n ih => exact ih

/-- The walk ends, and has listed the message. -/
theorem one_message_listed :
    ∃ n, Asked idealRuntime .newestFirst (.zero 32) oneMessage plainRounds n ∧
      (pageAt idealRuntime .newestFirst (.zero 32) oneMessage plainRounds n).nextCursor = "" ∧
      onlyMail.header ∈ keysListed idealRuntime .newestFirst (.zero 32) oneMessage plainRounds
      (n + 1) := by
  obtain ⟨hends, hwalk⟩ :=
    mailbox_pagination idealRuntime .newestFirst (.zero 32) wellKeyed_oneMessage plainRounds
  obtain ⟨n, hasked, hlast⟩ := hends ⟨0, fun _ _ c hc => absurd hc List.not_mem_nil⟩
  obtain ⟨-, -, -, hcomplete, -⟩ := hwalk n hasked
  refine ⟨n, hasked, hlast, hcomplete hlast _ fun k _ => ?_⟩
  rw [diskAt, disk_plainRounds]
  exact readable_onlyMail

end Dmcn.Mailbox
