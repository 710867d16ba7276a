import OpenDmcn.Relay.StoreLoad

/-! What a start of the node keeps of the mail on its disk, whatever older versions left there and
whichever of its own writes fail. -/

namespace Dmcn

open Go Datastore

def Pending (rt : StoreRuntime) (disk : Disk) (key : Key) (pair : String × Fixed 32) : Prop :=
  ∃ value now d, disk.lookup key = some value ∧ under relayStorePrefix key = true ∧
    pendingIn rt now value = some d ∧ d.pair = pair

/-- What a disk may hold: each copy lies under its own key or under that of its hash alone, and is
for a recipient that makes one segment of a key. Corrupt and delivered entries lie anywhere. -/
def Mixed (rt : StoreRuntime) (disk : Disk) : Prop :=
  ∀ key pair, Pending rt disk key pair →
    Plain pair.1 ∧ (key = relayStoreKey pair.1 pair.2 ∨ key = hashOnlyKey pair.2)

def MessageStore.view (s : MessageStore EncryptedEnvelope) (addr : String) (hash : Fixed 32) :
    Option (Pb.EncryptedEnvelope × Bool) :=
  (s.find addr hash).map fun se => (se.envelope.toProto, s.fetched se.ptr)

/-- What a start keeps: it indexes one copy for each pair that has one on disk, with the queue time
of the current entry where there is one; it deletes an old key only when the pair is under its own;
the markers flag the copies they name, and the others go; and the next start finds the same. -/
structure LoadKeeps (rt : StoreRuntime) (disk : Disk) (st : Start) : Prop where
  coherent : (load rt st disk).1.Coherent
  indexed : ∀ addr hash, ((load rt st disk).1.at_ addr hash).isSome ↔
    ∃ key, Pending rt disk key (addr, hash)
  queueTime : ∀ value d, disk.lookup d.key = some value → under relayStorePrefix d.key = true →
    pendingIn rt (st.clock d.key) value = some d → (load rt st disk).1.at_ d.addr d.hash = some d
  rewritten : ∀ key pair, Pending rt disk key pair → key ≠ relayStoreKey pair.1 pair.2 →
    (load rt st disk).2.lookup key = none →
    Pending rt (load rt st disk).2 (relayStoreKey pair.1 pair.2) pair
  marked : ∀ addr hash se, (load rt st disk).1.find addr hash = some se →
    ((load rt st disk).1.fetched se.ptr = true ↔
      ∃ key, disk.lookup key ≠ none ∧ under relayFetchedPrefix key = true ∧
        parseMark key = some (addr, hash)) ∧
    parseMark (relayFetchedKey addr hash) = some (addr, hash)
  unmarked : ∀ key, under relayFetchedPrefix key = true →
    (∀ p, parseMark key = some p → (load rt st disk).1.find p.1 p.2 = none) →
    st.deleteFails key = false → (load rt st disk).2.lookup key = none
  again : ∀ st' addr hash,
    (load rt st' (load rt st disk).2).1.view addr hash = (load rt st disk).1.view addr hash ∧
    ∀ key value, disk.lookup key = some value → stampedIn rt value = true →
      Pending rt disk key (addr, hash) →
      (key = relayStoreKey addr hash ∨ ¬ Pending rt disk (relayStoreKey addr hash) (addr, hash)) →
      ((load rt st' (load rt st disk).2).1.at_ addr hash).map Decoded.storedAt =
        ((load rt st disk).1.at_ addr hash).map Decoded.storedAt

def Unshadowed (rt : StoreRuntime) (disk : Disk) : Prop :=
  ∀ addr hash value, Pending rt disk (hashOnlyKey hash) (addr, hash) →
    disk.lookup (relayStoreKey addr hash) = some value → deliveredIn rt value = false

section Load

variable {rt : StoreRuntime} {st : Start} {disk : Disk}

theorem pending_of_currents {d : Decoded} (h : d ∈ currents rt st (scanned st disk)) :
    Pending rt disk d.key d.pair := by
  obtain ⟨value, hlookup, hunder, hpending⟩ := mem_currents.mp h
  exact ⟨value, _, d, hlookup, hunder, hpending, rfl⟩

theorem pending_of_olds {key : Key} {d : Decoded} (h : (key, d) ∈ olds rt st (scanned st disk)) :
    Pending rt disk key d.pair ∧ key ≠ d.key := by
  obtain ⟨hne, value, hlookup, hunder, hpending⟩ := mem_olds.mp h
  exact ⟨⟨value, _, d, hlookup, hunder, hpending, rfl⟩, hne⟩

theorem scanned_of_pending (st : Start) {key : Key} {pair : String × Fixed 32}
    (h : Pending rt disk key pair) :
    ∃ d, d.pair = pair ∧ (key = d.key ∧ d ∈ currents rt st (scanned st disk) ∨
      key ≠ d.key ∧ (key, d) ∈ olds rt st (scanned st disk)) := by
  obtain ⟨value, now, d, hlookup, hunder, hpending, rfl⟩ := h
  obtain ⟨d', hpending', hpair, -, -⟩ := pendingIn_now hpending (st.clock key)
  refine ⟨d', hpair, ?_⟩
  by_cases hkey : key = d'.key
  · subst hkey
    exact .inl ⟨rfl, mem_currents.mpr ⟨value, hlookup, hunder, hpending'⟩⟩
  · exact .inr ⟨hkey, mem_olds.mpr ⟨hkey, value, hlookup, hunder, hpending'⟩⟩

theorem key_eq_of_pair {d : Decoded} {pair : String × Fixed 32} (h : d.pair = pair) :
    d.key = relayStoreKey pair.1 pair.2 := by
  rw [← h]
  rfl

theorem under_key {d : Decoded} (h : Plain d.addr) : under relayStorePrefix d.key = true :=
  under_relayStoreKey h

theorem currents_unique {d d' : Decoded} (h : d ∈ currents rt st (scanned st disk))
    (h' : d' ∈ currents rt st (scanned st disk)) (hpair : d.pair = d'.pair) : d = d' := by
  obtain ⟨value, hlookup, -, hpending⟩ := mem_currents.mp h
  obtain ⟨value', hlookup', -, hpending'⟩ := mem_currents.mp h'
  have hkey : d.key = relayStoreKey d'.pair.1 d'.pair.2 := key_eq_of_pair hpair
  rw [hkey] at hlookup hpending
  cases hlookup.symm.trans hlookup'
  exact Option.some.inj (hpending.symm.trans hpending')

theorem find?_of_unique {α : Type} {p : α → Bool} {l : List α} {a : α} (ha : a ∈ l)
    (hp : p a = true) (hunique : ∀ b ∈ l, p b = true → b = a) : l.find? p = some a := by
  cases hfind : l.find? p with
  | none => exact absurd hp (by simpa using List.find?_eq_none.mp hfind a ha)
  | some b => rw [hunique b (List.mem_of_find?_eq_some hfind) (List.find?_some hfind)]

theorem at_load (addr : String) (hash : Fixed 32) : (load rt st disk).1.at_ addr hash =
    ((currents rt st (scanned st disk)).find? fun d => decide (d.pair = (addr, hash))).or
      (((olds rt st (scanned st disk)).map Prod.snd).find? fun d =>
        decide (d.pair = (addr, hash))) := by
  obtain ⟨q, -, hfind, -, -⟩ := load_spec rt st disk
  unfold MessageStore.at_
  rw [hfind]
  change (rewritten rt st disk).store.at_ addr hash = _
  rw [store_rewritten, MessageStore.at_storeAll, List.find?_append]
  rfl

theorem at_of_current {d : Decoded} (h : d ∈ currents rt st (scanned st disk)) :
    (load rt st disk).1.at_ d.addr d.hash = some d := by
  rw [at_load, find?_of_unique h (decide_eq_true rfl), Option.some_or]
  intro d' hd' hpair
  exact currents_unique hd' h (of_decide_eq_true hpair)

theorem no_current {addr : String} {hash : Fixed 32}
    (h : ¬ Pending rt disk (relayStoreKey addr hash) (addr, hash)) :
    (currents rt st (scanned st disk)).find? (fun d => decide (d.pair = (addr, hash))) = none := by
  rw [List.find?_eq_none]
  intro d hd hpair
  have hpair := of_decide_eq_true hpair
  have hpending := pending_of_currents hd
  rw [key_eq_of_pair hpair, hpair] at hpending
  exact h hpending

theorem find_currents_eq_none {addr : String} {hash : Fixed 32} :
    (MessageStore.storeAll .empty (currents rt st (scanned st disk))).find addr hash = none ↔
      ¬ Pending rt disk (relayStoreKey addr hash) (addr, hash) := by
  have hat : (MessageStore.storeAll .empty (currents rt st (scanned st disk))).find addr hash =
      none ↔
      (MessageStore.storeAll .empty (currents rt st (scanned st disk))).at_ addr hash = none := by
    unfold MessageStore.at_
    rw [Option.map_eq_none_iff]
  rw [hat, MessageStore.at_storeAll]
  change (none : Option Decoded).or _ = none ↔ _
  rw [Option.none_or]
  constructor
  · intro hnone hpending
    obtain ⟨d, hpair, ⟨-, hcurrent⟩ | ⟨hne, -⟩⟩ := scanned_of_pending st hpending
    · exact List.find?_eq_none.mp hnone d hcurrent (decide_eq_true hpair)
    · exact hne (key_eq_of_pair hpair).symm
  · exact no_current

section Mixed

variable (hmixed : Mixed rt disk)

include hmixed

variable {d : Decoded}

theorem plain_of_currents (h : d ∈ currents rt st (scanned st disk)) : Plain d.addr :=
  (hmixed _ _ (pending_of_currents h)).1

variable {key : Key}

theorem old_eq (h : (key, d) ∈ olds rt st (scanned st disk)) :
    Plain d.addr ∧ key = hashOnlyKey d.hash := by
  obtain ⟨hpending, hne⟩ := pending_of_olds h
  obtain ⟨hplain, hkey | hkey⟩ := hmixed _ _ hpending
  · exact absurd hkey hne
  · exact ⟨hplain, hkey⟩

theorem olds_unique {o o' : Key × Decoded} (h : o ∈ olds rt st (scanned st disk))
    (h' : o' ∈ olds rt st (scanned st disk)) (hhash : o.2.hash = o'.2.hash) : o = o' := by
  have hkey : o.1 = o'.1 := by
    rw [(old_eq hmixed h).2, (old_eq hmixed h').2, hhash]
  exact List.inj_on_of_nodup_map (nodup_olds disk) h h' hkey

theorem nodup_pairs_olds : ((olds rt st (scanned st disk)).map fun o => o.2.pair).Nodup := by
  refine List.Nodup.map_on ?_ ((nodup_olds disk).of_map _)
  intro o ho o' ho' hpair
  exact olds_unique hmixed ho ho' (congrArg Prod.snd hpair)

theorem at_of_old (h : (key, d) ∈ olds rt st (scanned st disk))
    (hnone : ¬ Pending rt disk d.key d.pair) : (load rt st disk).1.at_ d.addr d.hash = some d := by
  rw [at_load, no_current hnone, Option.none_or]
  refine find?_of_unique (List.mem_map.mpr ⟨_, h, rfl⟩) (decide_eq_true rfl) ?_
  intro d' hd' hpair
  obtain ⟨o, ho, rfl⟩ := List.mem_map.mp hd'
  have hhash : o.2.hash = d.hash := congrArg Prod.snd (of_decide_eq_true hpair)
  rw [olds_unique hmixed ho h hhash]

theorem mem_stale : key ∈ (rewritten rt st disk).stale ↔
    (∃ value, disk.lookup key = some value ∧ under relayStorePrefix key = true ∧
      deliveredIn rt value = true) ∨
    ∃ d, (key, d) ∈ olds rt st (scanned st disk) ∧
      (Pending rt disk d.key d.pair ∨ st.rewriteFails key = false) := by
  unfold rewritten
  rw [mem_stale_rewriteAll (nodup_pairs_olds hmixed)]
  refine or_congr mem_delivereds ?_
  constructor
  · rintro ⟨⟨key', d⟩, ho, rfl, hcase⟩
    refine ⟨d, ho, ?_⟩
    rcases hcase with hfound | hrewrites
    · exact .inl (not_not.mp fun hno => hfound (find_currents_eq_none.mpr hno))
    · exact .inr hrewrites.2
  · rintro ⟨d, ho, hcase⟩
    refine ⟨(key, d), ho, rfl, ?_⟩
    by_cases hpending : Pending rt disk d.key d.pair
    · exact .inl fun hno => find_currents_eq_none.mp hno hpending
    · exact .inr ⟨find_currents_eq_none.mpr hpending, hcase.resolve_left hpending⟩

omit hmixed in
theorem rewrites_iff :
    Rewrites st (MessageStore.storeAll .empty (currents rt st (scanned st disk))) (key, d) ↔
      ¬ Pending rt disk d.key d.pair ∧ st.rewriteFails key = false :=
  and_congr_left' find_currents_eq_none

theorem disk_of_rewrite (ho : (key, d) ∈ olds rt st (scanned st disk))
    (hnone : ¬ Pending rt disk d.key d.pair) (hok : st.rewriteFails key = false) :
    (rewritten rt st disk).disk.lookup d.key = some (persisted rt d) := by
  refine lookup_rewriteAll (nodup_pairs_olds hmixed) ?_ _ ho (rewrites_iff.mpr ⟨hnone, hok⟩)
  intro o ho o' ho' hkey
  exact relayStoreKey_inj (old_eq hmixed ho).1 (old_eq hmixed ho').1 hkey

theorem disk_of_ne (h : ∀ key' d, (key', d) ∈ olds rt st (scanned st disk) →
    ¬ Pending rt disk d.key d.pair → st.rewriteFails key' = false → key ≠ d.key) :
    (rewritten rt st disk).disk.lookup key = disk.lookup key := by
  refine lookup_rewriteAll_of_ne (nodup_pairs_olds hmixed) _ ?_
  rintro ⟨key', d⟩ ho hrewrites
  obtain ⟨hnone, hok⟩ := rewrites_iff.mp hrewrites
  exact h key' d ho hnone hok

omit hmixed in
theorem lookup_load (hunder : under relayStorePrefix key = true) :
    (load rt st disk).2.lookup key = (swept rt st disk).lookup key := by
  obtain ⟨q, -, -, -, hdisk⟩ := load_spec rt st disk
  apply (hdisk key).2
  rintro ⟨⟨hmark, -⟩, -⟩
  rw [not_under_both hmark] at hunder
  cases hunder

omit hmixed in
theorem lookup_load_of_kept (hunder : under relayStorePrefix key = true)
    (hstale : key ∉ (rewritten rt st disk).stale) :
    (load rt st disk).2.lookup key = (rewritten rt st disk).disk.lookup key := by
  rw [lookup_load hunder, swept, lookup_deleteKeys, if_neg]
  exact fun h => hstale h.1

theorem lookup_load_cases {value : Bytes} (hunder : under relayStorePrefix key = true)
    (h : (load rt st disk).2.lookup key = some value) : disk.lookup key = some value ∨
      ∃ key' d, (key', d) ∈ olds rt st (scanned st disk) ∧ ¬ Pending rt disk d.key d.pair ∧
        st.rewriteFails key' = false ∧ key = d.key ∧ value = persisted rt d := by
  rw [lookup_load hunder, swept, lookup_deleteKeys] at h
  split at h
  · cases h
  · by_cases hrewrite : ∃ key' d, (key', d) ∈ olds rt st (scanned st disk) ∧
        ¬ Pending rt disk d.key d.pair ∧ st.rewriteFails key' = false ∧ key = d.key
    · obtain ⟨key', d, ho, hnone, hok, rfl⟩ := hrewrite
      rw [disk_of_rewrite hmixed ho hnone hok] at h
      exact .inr ⟨key', d, ho, hnone, hok, rfl, (Option.some.inj h).symm⟩
    · left
      rwa [disk_of_ne hmixed] at h
      intro key' d ho hnone hok hkey
      exact hrewrite ⟨key', d, ho, hnone, hok, hkey⟩

theorem mixed_load : Mixed rt (load rt st disk).2 := by
  rintro key pair ⟨value, now, d, hlookup, hunder, hpending, rfl⟩
  rcases lookup_load_cases hmixed hunder hlookup with hbefore | ⟨key', d', ho, -, -, rfl, rfl⟩
  · exact hmixed key d.pair ⟨value, now, d, hbefore, hunder, hpending, rfl⟩
  · rw [pendingIn_persisted] at hpending
    cases hpending
    exact ⟨(old_eq hmixed ho).1, .inl rfl⟩

theorem current_kept (h : d ∈ currents rt st (scanned st disk)) :
    (load rt st disk).2.lookup d.key = disk.lookup d.key := by
  have hplain := plain_of_currents hmixed h
  have hpending := pending_of_currents h
  have hstale : d.key ∉ (rewritten rt st disk).stale := by
    rw [mem_stale hmixed]
    rintro (⟨value, hlookup, -, hdelivered⟩ | ⟨d', ho, -⟩)
    · obtain ⟨value', now, d', hlookup', -, hin, -⟩ := hpending
      cases hlookup.symm.trans hlookup'
      rw [deliveredIn_of_pendingIn hin] at hdelivered
      cases hdelivered
    · exact relayStoreKey_ne_hashOnlyKey hplain (old_eq hmixed ho).2
  rw [lookup_load_of_kept (under_key hplain) hstale, disk_of_ne hmixed]
  intro key' d' ho hnone _ hkey
  have hpair : d.pair = d'.pair := relayStoreKey_inj hplain (old_eq hmixed ho).1 hkey
  rw [hkey, hpair] at hpending
  exact hnone hpending

theorem old_rewritten (hshadow : Unshadowed rt disk) (ho : (key, d) ∈ olds rt st (scanned st disk))
    (hnone : ¬ Pending rt disk d.key d.pair) (hok : st.rewriteFails key = false) :
    (load rt st disk).2.lookup d.key = some (persisted rt d) := by
  obtain ⟨hplain, hkey⟩ := old_eq hmixed ho
  have hstale : d.key ∉ (rewritten rt st disk).stale := by
    rw [mem_stale hmixed]
    rintro (⟨value, hlookup, -, hdelivered⟩ | ⟨d', ho', -⟩)
    · have hpending := (pending_of_olds ho).1
      rw [hkey] at hpending
      rw [hshadow d.addr d.hash value hpending hlookup] at hdelivered
      cases hdelivered
    · exact relayStoreKey_ne_hashOnlyKey hplain (old_eq hmixed ho').2
  rw [lookup_load_of_kept (under_key hplain) hstale, disk_of_rewrite hmixed ho hnone hok]

theorem old_kept (ho : (key, d) ∈ olds rt st (scanned st disk))
    (hnone : ¬ Pending rt disk d.key d.pair) (hfails : st.rewriteFails key = true) :
    (load rt st disk).2.lookup key = disk.lookup key := by
  obtain ⟨hpending, -⟩ := pending_of_olds ho
  have hstale : key ∉ (rewritten rt st disk).stale := by
    rw [mem_stale hmixed]
    rintro (⟨value, hlookup, -, hdelivered⟩ | ⟨d', ho', hcase⟩)
    · obtain ⟨value', now, d', hlookup', -, hin, -⟩ := hpending
      cases hlookup.symm.trans hlookup'
      rw [deliveredIn_of_pendingIn hin] at hdelivered
      cases hdelivered
    · have hkeys : hashOnlyKey d'.hash = hashOnlyKey d.hash :=
        (old_eq hmixed ho').2.symm.trans (old_eq hmixed ho).2
      cases olds_unique hmixed ho' ho (hashOnlyKey_inj hkeys)
      rcases hcase with hpending' | hok
      · exact hnone hpending'
      · rw [hfails] at hok
        cases hok
  have hunder : under relayStorePrefix key = true := by
    rw [(old_eq hmixed ho).2]
    exact under_hashOnlyKey d.hash
  rw [lookup_load_of_kept hunder hstale, disk_of_ne hmixed]
  intro key' d' ho' _ _ hkey
  rw [(old_eq hmixed ho).2] at hkey
  exact relayStoreKey_ne_hashOnlyKey (old_eq hmixed ho').1 hkey.symm

theorem at_cases (st : Start) (addr : String) (hash : Fixed 32) :
    ((∀ key, ¬ Pending rt disk key (addr, hash)) ∧ (load rt st disk).1.at_ addr hash = none) ∨
    ∃ d, d.pair = (addr, hash) ∧ (load rt st disk).1.at_ addr hash = some d ∧
      (d ∈ currents rt st (scanned st disk) ∨ ¬ Pending rt disk d.key d.pair ∧
        (hashOnlyKey hash, d) ∈ olds rt st (scanned st disk)) := by
  by_cases hcurrent : Pending rt disk (relayStoreKey addr hash) (addr, hash)
  · right
    obtain ⟨d, hpair, ⟨-, hmem⟩ | ⟨hne, -⟩⟩ := scanned_of_pending st hcurrent
    · refine ⟨d, hpair, ?_, .inl hmem⟩
      cases hpair
      exact at_of_current hmem
    · exact absurd (key_eq_of_pair hpair).symm hne
  · by_cases hold : Pending rt disk (hashOnlyKey hash) (addr, hash)
    · right
      obtain ⟨d, hpair, ⟨hkey, -⟩ | ⟨-, hmem⟩⟩ := scanned_of_pending st hold
      · have hplain := (hmixed _ _ hold).1
        rw [key_eq_of_pair hpair] at hkey
        exact absurd hkey.symm (relayStoreKey_ne_hashOnlyKey hplain)
      · cases hpair
        exact ⟨d, rfl, at_of_old hmixed hmem hcurrent, .inr ⟨hcurrent, hmem⟩⟩
    · have hnone : ∀ key, ¬ Pending rt disk key (addr, hash) := by
        intro key hpending
        rcases (hmixed key _ hpending).2 with rfl | rfl
        · exact hcurrent hpending
        · exact hold hpending
      refine .inl ⟨hnone, ?_⟩
      rw [at_load, no_current hcurrent, Option.none_or, List.find?_eq_none]
      intro d hd hpair
      obtain ⟨⟨key, d'⟩, ho, rfl⟩ := List.mem_map.mp hd
      have hpending := (pending_of_olds ho).1
      rw [of_decide_eq_true hpair] at hpending
      exact hnone key hpending

theorem at_again (hshadow : Unshadowed rt disk) (st st' : Start) (addr : String) (hash : Fixed 32) :
    ((load rt st disk).1.at_ addr hash = none ∧ (load rt st' (load rt st disk).2).1.at_ addr hash =
      none) ∨
    ∃ d d', (load rt st disk).1.at_ addr hash = some d ∧
      (load rt st' (load rt st disk).2).1.at_ addr hash = some d' ∧
      d'.envelope.toProto = d.envelope.toProto ∧
      ∀ key value, disk.lookup key = some value → stampedIn rt value = true →
        Pending rt disk key (addr, hash) →
        (key = relayStoreKey addr hash ∨ ¬ Pending rt disk (relayStoreKey addr hash) (addr, hash)) →
        d'.storedAt = d.storedAt := by
  have hmixed' : Mixed rt (load rt st disk).2 := mixed_load hmixed
  rcases at_cases hmixed st addr hash with ⟨hnone, hat⟩ | ⟨d, hpair, hat, hcurrent | ⟨hnone, hold⟩⟩
  · refine .inl ⟨hat, ?_⟩
    rcases at_cases hmixed' st' addr hash with ⟨-, hat'⟩ | ⟨d, hpair, -, hsource⟩
    · exact hat'
    · -- an entry of the pair on the disk afterwards would come from one before
      exfalso
      have hpending : ∃ key, Pending rt (load rt st disk).2 key d.pair := by
        rcases hsource with hcurrent | ⟨-, hold⟩
        · exact ⟨_, pending_of_currents hcurrent⟩
        · exact ⟨_, (pending_of_olds hold).1⟩
      obtain ⟨key, value, now, d', hlookup, hunder, hin, hpair'⟩ := hpending
      rcases lookup_load_cases hmixed hunder hlookup with hbefore | ⟨key', d'', ho, -, -, rfl, rfl⟩
      · exact hnone key ⟨value, now, d', hbefore, hunder, hin, hpair'.trans hpair⟩
      · rw [pendingIn_persisted] at hin
        cases hin
        have hsame : d''.pair = (addr, hash) := hpair'.trans hpair
        have hbefore := (pending_of_olds ho).1
        rw [hsame] at hbefore
        exact hnone key' hbefore
  · right
    cases hpair
    obtain ⟨value, hlookup, hunder, hin⟩ := mem_currents.mp hcurrent
    obtain ⟨d', hin', hpair', henv, hstamped⟩ := pendingIn_now hin (st'.clock d.key)
    have hkey' : d'.key = d.key := key_eq_of_pair hpair'
    have hcurrent' : d' ∈ currents rt st' (scanned st' (load rt st disk).2) := by
      refine mem_currents.mpr ⟨value, ?_, ?_, ?_⟩
      · rw [hkey', current_kept hmixed hcurrent, hlookup]
      · rw [hkey']
        exact hunder
      · rw [hkey']
        exact hin'
    have hat' := at_of_current hcurrent'
    rw [show d'.addr = d.addr from congrArg Prod.fst hpair',
      show d'.hash = d.hash from congrArg Prod.snd hpair'] at hat'
    refine ⟨d, d', hat, hat', by rw [henv], ?_⟩
    intro key value' hlookup' hstamp hpending hsource
    rcases hsource with rfl | hno
    · cases hlookup.symm.trans hlookup'
      rw [hstamped hstamp]
    · exact absurd (pending_of_currents hcurrent) hno
  · right
    cases hpair
    obtain ⟨-, value, hlookup, hunder, hin⟩ := mem_olds.mp hold
    have honly : ∀ key value', disk.lookup key = some value' →
        Pending rt disk key (d.addr, d.hash) →
        (key = relayStoreKey d.addr d.hash ∨
          ¬ Pending rt disk (relayStoreKey d.addr d.hash) (d.addr, d.hash)) → value' = value := by
      intro key value' hlookup' hpending hsource
      have hkey : key = hashOnlyKey d.hash := by
        rcases (hmixed key _ hpending).2 with rfl | rfl
        · exact absurd hpending hnone
        · rfl
      rw [hkey] at hlookup'
      exact Option.some.inj (hlookup'.symm.trans hlookup)
    by_cases hok : st.rewriteFails (hashOnlyKey d.hash) = false
    · -- rewritten: the entry under its own key has the same second
      have hnew := old_rewritten hmixed hshadow hold hnone hok
      have hin' := pendingIn_persisted rt (st'.clock d.key) d
      have hcurrent' : (⟨d.addr, d.hash, d.envelope.reread,
          if d.storedAt.unix ≠ 0 then Time.ofUnix d.storedAt.unix else st'.clock d.key⟩ : Decoded) ∈
          currents rt st' (scanned st' (load rt st disk).2) :=
        mem_currents.mpr ⟨persisted rt d, hnew, under_key (old_eq hmixed hold).1, hin'⟩
      have hat' := at_of_current hcurrent'
      refine ⟨d, _, hat, hat', d.envelope.toProto_reread, ?_⟩
      intro key value' hlookup' hstamp hpending hsource
      cases honly key value' hlookup' hpending hsource
      obtain ⟨hne, hsecond⟩ := storedAt_of_stamped hin hstamp
      dsimp only
      rw [if_pos hne, hsecond]
    · -- the rewrite failed: the old entry is still there, and is all there is
      have hfails : st.rewriteFails (hashOnlyKey d.hash) = true := by simpa using hok
      have hkept := old_kept hmixed hold hnone hfails
      obtain ⟨d', hin', hpair', henv, hstamped⟩ :=
        pendingIn_now hin (st'.clock (hashOnlyKey d.hash))
      have hkey' : d'.key = d.key := key_eq_of_pair hpair'
      have hold' : (hashOnlyKey d.hash, d') ∈ olds rt st' (scanned st' (load rt st disk).2) := by
        refine mem_olds.mpr ⟨?_, value, hkept.trans hlookup, hunder, hin'⟩
        rw [hkey']
        exact (relayStoreKey_ne_hashOnlyKey (old_eq hmixed hold).1).symm
      have hnone' : ¬ Pending rt (load rt st disk).2 d'.key d'.pair := by
        rw [hkey', hpair']
        rintro ⟨value', now, d'', hlookup', hunder', hin'', hpair''⟩
        rcases lookup_load_cases hmixed hunder' hlookup' with hbefore
          | ⟨key', d₀, ho, -, hok', hkey, -⟩
        · exact hnone ⟨value', now, d'', hbefore, hunder', hin'', hpair''⟩
        · have hpair₀ : d.pair = d₀.pair :=
            relayStoreKey_inj (old_eq hmixed hold).1 (old_eq hmixed ho).1 hkey
          cases olds_unique hmixed ho hold (congrArg Prod.snd hpair₀).symm
          exact hok hok'
      have hat' := at_of_old hmixed' hold' hnone'
      rw [show d'.addr = d.addr from congrArg Prod.fst hpair',
        show d'.hash = d.hash from congrArg Prod.snd hpair'] at hat'
      refine ⟨d, d', hat, hat', by rw [henv], ?_⟩
      intro key value' hlookup' hstamp hpending hsource
      cases honly key value' hlookup' hpending hsource
      rw [hstamped hstamp]

theorem lookup_swept_marker (st : Start) (hunder : under relayFetchedPrefix key = true) :
    (swept rt st disk).lookup key = disk.lookup key := by
  have hother := not_under_both hunder
  have hstale : key ∉ (rewritten rt st disk).stale := by
    rw [mem_stale hmixed]
    rintro (⟨value, -, hstore, -⟩ | ⟨d, ho, -⟩)
    · rw [hother] at hstore
      cases hstore
    · obtain ⟨-, value, -, hstore, -⟩ := mem_olds.mp ho
      rw [hother] at hstore
      cases hstore
  rw [swept, lookup_deleteKeys, if_neg (fun h => hstale h.1), disk_of_ne hmixed]
  rintro key' d ho - - rfl
  rw [under_key (old_eq hmixed ho).1] at hother
  cases hother

theorem fetched_load {addr : String} {hash : Fixed 32} {se : StoredEnvelope EncryptedEnvelope}
    (h : (load rt st disk).1.find addr hash = some se) : (load rt st disk).1.fetched se.ptr = true ↔
      ∃ key, disk.lookup key ≠ none ∧ under relayFetchedPrefix key = true ∧
        parseMark key = some (addr, hash) := by
  obtain ⟨q, hholds, -, hflags, -⟩ := load_spec rt st disk
  obtain ⟨hse, hpair⟩ := hholds.find_eq_some.mp h
  rw [hflags se hse, hpair]
  refine exists_congr fun key => ?_
  constructor
  · rintro ⟨hlookup, hunder, hparse⟩
    rw [lookup_swept_marker hmixed st hunder] at hlookup
    exact ⟨hlookup, hunder, hparse⟩
  · rintro ⟨hlookup, hunder, hparse⟩
    rw [← lookup_swept_marker hmixed st hunder] at hlookup
    exact ⟨hlookup, hunder, hparse⟩

theorem marker_kept {pair : String × Fixed 32} (hunder : under relayFetchedPrefix key = true)
    (hparse : parseMark key = some pair) (hheld : (load rt st disk).1.find pair.1 pair.2 ≠ none) :
    (load rt st disk).2.lookup key = disk.lookup key := by
  obtain ⟨q, -, hfind, -, hdisk⟩ := load_spec rt st disk
  rw [← lookup_swept_marker hmixed st hunder]
  apply (hdisk key).2
  rintro ⟨⟨-, hnone⟩, -⟩
  exact hheld ((hfind _ _).trans (hnone pair hparse))

theorem view_again (hshadow : Unshadowed rt disk) (st' : Start) (addr : String) (hash : Fixed 32) :
    (load rt st' (load rt st disk).2).1.view addr hash = (load rt st disk).1.view addr hash := by
  have hmixed' : Mixed rt (load rt st disk).2 := mixed_load hmixed
  rcases at_again hmixed hshadow st st' addr hash with ⟨hnone, hnone'⟩ | ⟨d, d', hat, hat', henv, -⟩
  · unfold MessageStore.view
    rw [Option.map_eq_none_iff.mp hnone, Option.map_eq_none_iff.mp hnone']
    rfl
  · obtain ⟨se, hfind, rfl⟩ := Option.map_eq_some_iff.mp hat
    obtain ⟨se', hfind', rfl⟩ := Option.map_eq_some_iff.mp hat'
    have hwire : se'.envelope.toProto = se.envelope.toProto := henv
    have hflag : (load rt st' (load rt st disk).2).1.fetched se'.ptr = (load rt st disk).1.fetched
        se.ptr := by
      rw [Bool.eq_iff_iff, fetched_load hmixed' hfind', fetched_load hmixed hfind]
      refine exists_congr fun key => ?_
      rw [and_congr_left_iff]
      rintro ⟨hunder, hparse⟩
      rw [marker_kept hmixed hunder hparse (by rw [hfind]; simp)]
    unfold MessageStore.view
    rw [hfind, hfind', Option.map_some, Option.map_some, hwire, hflag]

theorem lost_of_shadowed (st : Start) {addr : String} {hash : Fixed 32} {value : Bytes}
    (hpending : Pending rt disk (hashOnlyKey hash) (addr, hash))
    (hlookup : disk.lookup (relayStoreKey addr hash) = some value)
    (hdelivered : deliveredIn rt value = true) (hrewrite : st.rewriteFails (hashOnlyKey hash) =
      false) (hdelete : ∀ key, st.deleteFails key = false) :
    (load rt st disk).2.lookup (relayStoreKey addr hash) = none ∧
    (load rt st disk).2.lookup (hashOnlyKey hash) = none := by
  have hplain := (hmixed _ _ hpending).1
  have hunder : under relayStorePrefix (relayStoreKey addr hash) = true :=
    under_relayStoreKey hplain
  constructor
  · rw [lookup_load hunder, swept, lookup_deleteKeys, if_pos]
    exact ⟨(mem_stale hmixed).mpr (.inl ⟨value, hlookup, hunder, hdelivered⟩), hdelete _⟩
  · obtain ⟨d, hpair, ⟨hkey, -⟩ | ⟨-, hold⟩⟩ := scanned_of_pending st hpending
    · rw [key_eq_of_pair hpair] at hkey
      exact absurd hkey.symm (relayStoreKey_ne_hashOnlyKey hplain)
    · rw [lookup_load (under_hashOnlyKey hash), swept, lookup_deleteKeys, if_pos]
      exact ⟨(mem_stale hmixed).mpr (.inr ⟨d, hold, .inr hrewrite⟩), hdelete _⟩

theorem loadKeeps_of_unshadowed (hshadow : Unshadowed rt disk) (st : Start) :
    LoadKeeps rt disk st := by
  obtain ⟨q, hholds, hfind, -, hdisk⟩ := load_spec rt st disk
  refine ⟨hholds.coherent, ?_, ?_, ?_, ?_, ?_, ?_⟩
  · intro addr hash
    rcases at_cases hmixed st addr hash with ⟨hnone, hat⟩ | ⟨d, hpair, hat, hsource⟩
    · rw [hat]
      constructor
      · intro h
        cases h
      · rintro ⟨key, hpending⟩
        exact absurd hpending (hnone key)
    · rw [hat]
      refine ⟨fun _ => ?_, fun _ => rfl⟩
      rw [← hpair]
      rcases hsource with hcurrent | ⟨-, hold⟩
      · exact ⟨_, pending_of_currents hcurrent⟩
      · exact ⟨_, (pending_of_olds hold).1⟩
  · intro value d hlookup hunder hin
    exact at_of_current (mem_currents.mpr ⟨value, hlookup, hunder, hin⟩)
  · intro key pair hpending hne hgone
    obtain ⟨d, rfl, ⟨hkey, -⟩ | ⟨-, hold⟩⟩ := scanned_of_pending st hpending
    · exact absurd hkey hne
    · by_cases hcurrent : Pending rt disk d.key d.pair
      · -- the pair is under its own key already, where it stays
        obtain ⟨d', hpair, ⟨-, hmem⟩ | ⟨hkey, -⟩⟩ := scanned_of_pending st hcurrent
        · have hkept := current_kept hmixed hmem
          rw [key_eq_of_pair hpair] at hkept
          obtain ⟨value, now, d'', hlookup, hunder, hin, hpair'⟩ := hcurrent
          exact ⟨value, now, d'', hkept.trans hlookup, hunder, hin, hpair'⟩
        · exact absurd (key_eq_of_pair hpair).symm hkey
      · by_cases hok : st.rewriteFails key = false
        · exact ⟨_, default, _, old_rewritten hmixed hshadow hold hcurrent hok,
            under_key (old_eq hmixed hold).1, pendingIn_persisted rt default d, rfl⟩
        · rw [old_kept hmixed hold hcurrent (by simpa using hok)] at hgone
          obtain ⟨value, now, d', hlookup, -⟩ := hpending
          rw [hgone] at hlookup
          cases hlookup
  · intro addr hash se hheld
    refine ⟨fetched_load hmixed hheld, ?_⟩
    rcases at_cases hmixed st addr hash with ⟨-, hat⟩ | ⟨d, hpair, -, hsource⟩
    · rw [MessageStore.at_, hheld] at hat
      cases hat
    · have hplain : Plain d.addr := by
        rcases hsource with hcurrent | ⟨-, hold⟩
        · exact plain_of_currents hmixed hcurrent
        · exact (old_eq hmixed hold).1
      cases hpair
      exact parseMark_relayFetchedKey hplain
  · intro key hunder hnone hdelete
    apply (hdisk key).1
    refine ⟨⟨hunder, fun p hparse => ?_⟩, hdelete⟩
    rw [← hfind]
    exact hnone p hparse
  · intro st' addr hash
    refine ⟨view_again hmixed hshadow st' addr hash, ?_⟩
    intro key value hlookup hstamped hpending hsource
    rcases at_again hmixed hshadow st st' addr hash with ⟨hnone, hnone'⟩
      | ⟨d, d', hat, hat', -, htime⟩
    · rw [hnone, hnone']
    · rw [hat, hat', Option.map_some, Option.map_some, htime key value hlookup hstamped hpending
        hsource]

end Mixed

end Load

def Start.faultless : Start := ⟨fun _ => default, [], [], fun _ => false, fun _ => false⟩

/-- A start keeps all mail, whichever of its writes fail, exactly when no pending copy is to be
rewritten to a key that a delivered entry holds. -/
theorem load_keeps_mail_iff {rt : StoreRuntime} {disk : Disk} (hmixed : Mixed rt disk) :
    (∀ st, LoadKeeps rt disk st) ↔ Unshadowed rt disk := by
  constructor
  · intro h addr hash value hpending hlookup
    by_contra hdelivered
    rw [Bool.not_eq_false] at hdelivered
    obtain ⟨hcurrent, hold⟩ := lost_of_shadowed hmixed .faultless hpending hlookup hdelivered rfl
      fun _ => rfl
    have hne : hashOnlyKey hash ≠ relayStoreKey addr hash :=
      (relayStoreKey_ne_hashOnlyKey (hmixed _ _ hpending).1).symm
    obtain ⟨value', -, -, hlookup', -⟩ := (h .faultless).rewritten _ _ hpending hne hold
    rw [hcurrent] at hlookup'
    cases hlookup'
  · exact fun hshadow st => loadKeeps_of_unshadowed hmixed hshadow st

noncomputable def idealStoreRuntime : StoreRuntime :=
  let json := Classical.choice (Codec.nonempty PersistedEnvelope)
  ⟨⟨json.marshal, json.unmarshal, json.unmarshal_marshal⟩,
    Classical.choice (Codec.nonempty Pb.EncryptedEnvelope)⟩

/-! One envelope for one recipient: pending under the key of its hash, and delivered under its
own. -/
namespace Shadow

def addr : String := Hex.encode (List.replicate 32 7)

def hash : Fixed 32 := Fixed.zero 32

noncomputable def entry (storedAt status : Int64) : Bytes :=
  idealStoreRuntime.json.marshal
    ⟨addr, hash.val, storedAt, status, idealStoreRuntime.envelope.marshal default⟩

theorem plain_addr : Plain addr := plain_hex (by decide)

theorem pendingIn_entry (now : Time) : ∃ d, pendingIn idealStoreRuntime now (entry 7 0) = some d ∧
    d.pair = (addr, hash) := by
  obtain ⟨env, henv⟩ : ∃ env, (EncryptedEnvelope.fromProto default).toOption = some env := ⟨_, rfl⟩
  refine ⟨⟨addr, hash, env, Time.ofUnix 7⟩, ?_, rfl⟩
  simp [pendingIn, entry, decode, legacyDelivered, henv]

theorem pendingIn_delivered (now : Time) : pendingIn idealStoreRuntime now (entry 5 1) = none := by
  simp [pendingIn, entry, legacyDelivered]

theorem deliveredIn_entry : deliveredIn idealStoreRuntime (entry 5 1) = true := by
  simp [deliveredIn, entry, legacyDelivered]

noncomputable def queued : Disk := put ∅ (hashOnlyKey hash) (entry 7 0)

noncomputable def shadowed : Disk := put queued (relayStoreKey addr hash) (entry 5 1)

theorem lookup_queued (key : Key) :
    queued.lookup key = if key = hashOnlyKey hash then some (entry 7 0) else none :=
  lookup_put _ _ _ _

theorem pending_queued : Pending idealStoreRuntime queued (hashOnlyKey hash) (addr, hash) := by
  obtain ⟨d, hin, hpair⟩ := pendingIn_entry default
  refine ⟨entry 7 0, default, d, ?_, under_hashOnlyKey hash, hin, hpair⟩
  rw [lookup_queued, if_pos rfl]

theorem pair_of_pending_queued {key : Key} {pair : String × Fixed 32}
    (h : Pending idealStoreRuntime queued key pair) : key = hashOnlyKey hash ∧
    pair = (addr, hash) := by
  obtain ⟨value, now, d, hlookup, -, hin, rfl⟩ := h
  rw [lookup_queued] at hlookup
  split at hlookup
  · next hkey =>
    cases hlookup
    obtain ⟨d', hin', hpair⟩ := pendingIn_entry now
    cases hin.symm.trans hin'
    exact ⟨hkey, hpair⟩
  · cases hlookup

theorem pending_shadowed_iff {key : Key} {pair : String × Fixed 32} :
    Pending idealStoreRuntime shadowed key pair ↔ Pending idealStoreRuntime queued key pair := by
  constructor
  · rintro ⟨value, now, d, hlookup, hunder, hin, hpair⟩
    rw [shadowed, lookup_put] at hlookup
    split at hlookup
    · cases hlookup
      rw [pendingIn_delivered] at hin
      cases hin
    · exact ⟨value, now, d, hlookup, hunder, hin, hpair⟩
  · intro h
    have hkey := (pair_of_pending_queued h).1
    obtain ⟨value, now, d, hlookup, hunder, hin, hpair⟩ := h
    refine ⟨value, now, d, ?_, hunder, hin, hpair⟩
    rw [shadowed, lookup_put, if_neg]
    · exact hlookup
    · rw [hkey]
      exact (relayStoreKey_ne_hashOnlyKey plain_addr).symm

theorem mixed_queued : Mixed idealStoreRuntime queued := by
  intro key pair h
  obtain ⟨rfl, rfl⟩ := pair_of_pending_queued h
  exact ⟨plain_addr, .inr rfl⟩

theorem mixed_shadowed : Mixed idealStoreRuntime shadowed :=
  fun key pair h => mixed_queued key pair (pending_shadowed_iff.mp h)

/-- The copy is indexed at the first start, and both of its keys are deleted. -/
theorem mail_lost_at_start :
    Mixed idealStoreRuntime shadowed ∧
    Pending idealStoreRuntime shadowed (hashOnlyKey hash) (addr, hash) ∧
    (∀ key, ¬ Pending idealStoreRuntime (load idealStoreRuntime .faultless shadowed).2 key
      (addr, hash)) ∧
    ¬ ∀ st, LoadKeeps idealStoreRuntime shadowed st := by
  have hpending := pending_shadowed_iff.mpr pending_queued
  have hlookup : shadowed.lookup (relayStoreKey addr hash) = some (entry 5 1) := by
    rw [shadowed, lookup_put, if_pos rfl]
  obtain ⟨hcurrent, hold⟩ := lost_of_shadowed mixed_shadowed .faultless hpending hlookup
    deliveredIn_entry rfl fun _ => rfl
  refine ⟨mixed_shadowed, hpending, ?_, ?_⟩
  · intro key hkey
    have hplace := (mixed_load mixed_shadowed key (addr, hash) hkey).2
    obtain ⟨value, -, -, hvalue, -⟩ := hkey
    rcases hplace with rfl | rfl
    · rw [hcurrent] at hvalue
      cases hvalue
    · rw [hold] at hvalue
      cases hvalue
  · intro h
    have hne : hashOnlyKey hash ≠ relayStoreKey addr hash :=
      (relayStoreKey_ne_hashOnlyKey plain_addr).symm
    obtain ⟨value, -, -, hvalue, -⟩ := (h .faultless).rewritten _ _ hpending hne hold
    rw [hcurrent] at hvalue
    cases hvalue

theorem mail_kept_at_start : Pending idealStoreRuntime queued (hashOnlyKey hash) (addr, hash) ∧
    ∀ st, LoadKeeps idealStoreRuntime queued st := by
  refine ⟨pending_queued, (load_keeps_mail_iff mixed_queued).mpr ?_⟩
  intro addr' hash' value hpending hlookup
  obtain ⟨-, hpair⟩ := pair_of_pending_queued hpending
  cases hpair
  rw [lookup_queued, if_neg (relayStoreKey_ne_hashOnlyKey plain_addr)] at hlookup
  cases hlookup

end Shadow

end Dmcn
