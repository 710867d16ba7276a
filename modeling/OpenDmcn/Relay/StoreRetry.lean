import OpenDmcn.Relay.Quota
import OpenDmcn.Relay.ReadsFit

/-! Repeating a STORE (`acceptEnvelope`). The loop writes recipient by recipient and may stop at any
of them; what was stored stays, and is not stored again. The storage cap is asked before the mailbox
is. -/

namespace Dmcn

open Go Datastore

section Copies

variable (cfg : RelayConfig)

def headerCopies (disk : Disk) (rx hash : Fixed 32) : ℕ :=
  ((query (Mailbox.headerPrefix (Hex.encode rx.val)) [] disk).filter
    fun r => decide (r.1.getLast? = some (Hex.encode hash.val))).length

def queueCopies (t : MessageStore EncryptedEnvelope) (rx hash : Fixed 32) : ℕ :=
  ((t.queued (Hex.encode rx.val)).filter fun se => decide (se.hash = hash)).length

def copies (s : Stores) (env : EncryptedEnvelope) (rx hash : Fixed 32) : ℕ :=
  if durable cfg env then headerCopies s.disk rx hash else queueCopies s.transit rx hash

def Has (s : Stores) (env : EncryptedEnvelope) (rx hash : Fixed 32) : Prop :=
  if durable cfg env then Mailbox.Present s.disk rx hash
  else (s.transit.find (Hex.encode rx.val) hash).isSome = true

structure Stores.Sound (s : Stores) : Prop where
  kept : Mailbox.Kept cfg.mb s.disk
  queued : ∃ q, s.transit.Holds q

variable {cfg} {s s' : Stores}

theorem headerCopies_eq {disk : Disk} (hkept : Mailbox.Kept cfg.mb disk) (rx hash : Fixed 32) :
    headerCopies disk rx hash = 0 ∧ ¬ Mailbox.Present disk rx hash ∨
      headerCopies disk rx hash = 1 ∧ Mailbox.Present disk rx hash := by
  obtain ⟨base, q, hbase, hholds⟩ := hkept
  have hpre : mboxHeaderPrefix <+: Mailbox.headerPrefix (Hex.encode rx.val) := by
    rw [headerPrefix_eq]
    exact ⟨[Hex.encode rx.val], rfl⟩
  have hperm : (query (Mailbox.headerPrefix (Hex.encode rx.val)) [] disk).Perm
      ((q.filter fun m => under (Mailbox.headerPrefix (Hex.encode rx.val)) m.header).map
        (Mailbox.filedHeader cfg.mb)) := by
    apply perm_query
    · rw [List.map_map]
      exact hholds.nodup_headers _
    · intro key value
      exact hholds.mem_headers hbase hpre
  have hlast : ∀ m : Mail,
      (decide ((Mailbox.filedHeader cfg.mb m).1.getLast? = some (Hex.encode hash.val)) &&
      under (Mailbox.headerPrefix (Hex.encode rx.val)) m.header) =
        decide (m.pair = (rx, hash)) := by
    intro m
    rw [Mailbox.under_headerPrefix, Bool.eq_iff_iff, Bool.and_eq_true, decide_eq_true_iff,
      decide_eq_true_iff, decide_eq_true_iff, Mail.pair, Prod.mk.injEq, and_comm]
    refine and_congr_right fun _ => ?_
    change some (Hex.encode m.hash.val) = _ ↔ _
    rw [Option.some.injEq]
    exact ⟨fun h => Fixed.ext (Hex.encode_injective h), fun h => by rw [h]⟩
  have hcount : headerCopies disk rx hash = (q.map Mail.pair).count (rx, hash) := by
    unfold headerCopies
    rw [(hperm.filter _).length_eq, List.filter_map, List.length_map, List.filter_filter,
      ← List.countP_eq_length_filter, List.count, List.countP_map]
    apply List.countP_congr
    intro m _
    have hm := hlast m
    simp only [Function.comp_apply, beq_iff_eq]
    rw [hm, decide_eq_true_iff]
  rw [present_iff hbase hholds, hcount]
  by_cases hmem : (rx, hash) ∈ q.map Mail.pair
  · exact .inr ⟨List.count_eq_one_of_mem hholds.once hmem, hmem⟩
  · exact .inl ⟨List.count_eq_zero_of_not_mem hmem, hmem⟩

theorem queueCopies_eq {t : MessageStore EncryptedEnvelope} (hqueued : ∃ q, t.Holds q)
    (rx hash : Fixed 32) :
    queueCopies t rx hash = 0 ∧ ¬ (t.find (Hex.encode rx.val) hash).isSome = true ∨
      queueCopies t rx hash = 1 ∧ (t.find (Hex.encode rx.val) hash).isSome = true := by
  obtain ⟨q, hq⟩ := hqueued
  have hcount : queueCopies t rx hash = (q.map StoredEnvelope.pair).count
      (Hex.encode rx.val, hash) := by
    unfold queueCopies MessageStore.queued
    rw [hq.byAddr.items_eq, List.filter_filter, ← List.countP_eq_length_filter, List.count,
      List.countP_map]
    apply List.countP_congr
    intro se _
    simp [StoredEnvelope.pair, and_comm]
  rw [hcount]
  cases hfind : t.find (Hex.encode rx.val) hash with
  | none =>
    refine .inl ⟨List.count_eq_zero_of_not_mem ?_, by simp⟩
    intro hmem
    obtain ⟨se, hse, hpair⟩ := List.mem_map.mp hmem
    exact hq.find_eq_none.mp hfind se hse hpair
  | some se =>
    obtain ⟨hse, hpair⟩ := hq.find_eq_some.mp hfind
    exact .inr ⟨List.count_eq_one_of_mem hq.single (List.mem_map.mpr ⟨se, hse, hpair⟩), rfl⟩

theorem Stores.Sound.copies_eq (h : s.Sound cfg) (env : EncryptedEnvelope) (rx hash : Fixed 32) :
    copies cfg s env rx hash = 0 ∧ ¬ Has cfg s env rx hash ∨ copies cfg s env rx hash = 1 ∧
      Has cfg s env rx hash := by
  unfold copies Has
  split
  · exact headerCopies_eq h.kept rx hash
  · exact queueCopies_eq h.queued rx hash

end Copies

section Loop

variable {cfg : RelayConfig} {s s' : Stores} {w : Surroundings} {env : EncryptedEnvelope}
  {hash : Fixed 32}

theorem present_putAll {disk : Disk} {m : Mail} {rx hash : Fixed 32}
    (h : Mailbox.Present disk rx hash) :
    Mailbox.Present (putAll disk (m.writes cfg.mb)) rx hash := by
  unfold Mailbox.Present at h ⊢
  by_cases hmem : Mailbox.indexKey (Hex.encode rx.val) (Hex.encode hash.val) ∈
    (m.writes cfg.mb).map Prod.fst
  · obtain ⟨⟨key, value⟩, hw, heq⟩ := List.mem_map.mp hmem
    have hnodup : ((m.writes cfg.mb).map Prod.fst).Nodup := m.nodup_keys
    rw [← heq, lookup_putAll_of_mem hnodup hw]
    exact Option.some_ne_none value
  · rwa [lookup_putAll_of_notMem hmem]

theorem present_writes (disk : Disk) (m : Mail) : Mailbox.Present
    (putAll disk (m.writes cfg.mb)) m.rx m.hash := by
  have hnodup : ((m.writes cfg.mb).map Prod.fst).Nodup := m.nodup_keys
  have hindex : (m.index, utf8 (text m.header)) ∈ m.writes cfg.mb := by simp [Mail.writes]
  have hlookup := lookup_putAll_of_mem (d := disk) hnodup hindex
  unfold Mailbox.Present
  rw [indexKey_eq]
  exact fun hnone => Option.some_ne_none _ (hlookup.symm.trans hnone)

structure Grows (cfg : RelayConfig) (s s' : Stores) : Prop where
  sound : s'.Sound cfg
  has : ∀ env rx hash, Has cfg s env rx hash → Has cfg s' env rx hash

theorem Grows.refl (h : s.Sound cfg) : Grows cfg s s := ⟨h, fun _ _ _ => id⟩

theorem Grows.trans {s'' : Stores} (h : Grows cfg s s') (h' : Grows cfg s' s'') : Grows cfg s s'' :=
  ⟨h'.sound, fun env rx hash hhas => h'.has env rx hash (h.has env rx hash hhas)⟩

theorem grows_storeOne (hsound : s.Sound cfg) {i : ℕ} {r : RecipientRecord}
    (h : storeOne cfg w env hash i r.addr s = .ok s') : Grows cfg s s' ∧
    Has cfg s' env r.recipientXPub hash := by
  have hkept := kept_storeOne hsound.kept h
  rcases storeOne_eq_ok h with ⟨hdurable, -, ⟨hpresent, rfl⟩ | ⟨-, rfl⟩⟩ | ⟨hdurable, rfl⟩
  · refine ⟨Grows.refl hsound, ?_⟩
    unfold Has
    rw [if_pos hdurable]
    exact hpresent
  · refine ⟨⟨⟨hkept, hsound.queued⟩, fun env' rx hash' hhas => ?_⟩, ?_⟩
    · unfold Has at hhas ⊢
      split
      · next hdurable' =>
        rw [if_pos hdurable'] at hhas
        exact present_putAll hhas
      · next hdurable' =>
        rw [if_neg hdurable'] at hhas
        exact hhas
    · unfold Has
      rw [if_pos hdurable]
      exact present_writes s.disk ⟨r.recipientXPub, hash, env, w.storedAt i⟩
  · obtain ⟨q, hq⟩ := hsound.queued
    refine ⟨⟨⟨hkept, _, hq.call (.store (w.storedAt i) r.addr env hash)⟩, fun env' rx hash' hhas =>
      ?_⟩, ?_⟩
    · unfold Has at hhas ⊢
      split
      · next hdurable' =>
        rw [if_pos hdurable'] at hhas
        exact hhas
      · next hdurable' =>
        rw [if_neg hdurable'] at hhas
        exact MessageStore.find_store_of_find _ _ _ _ hhas
    · unfold Has
      rw [if_neg (by simp [hdurable])]
      exact MessageStore.find_store_self _ _ _ _

/-- However far the loop comes, nobody loses a message; and if it comes to the end, every permitted
recipient has this one. -/
theorem grows_storeLoop (hsound : s.Sound cfg) {senderAddr : String} {rec : IdentityRecord}
    {rs : List RecipientRecord} {i : ℕ} :
    Grows cfg s (storeLoop cfg w senderAddr rec env hash i rs s).1 ∧
      ((storeLoop cfg w senderAddr rec env hash i rs s).2 = .ok () → ∀ r ∈ rs,
        permitted w r.addr senderAddr rec = true →
          Has cfg (storeLoop cfg w senderAddr rec env hash i rs s).1 env r.recipientXPub hash) := by
  induction rs generalizing i s with
  | nil => exact ⟨Grows.refl hsound, fun _ r hr => by cases hr⟩
  | cons r rs ih =>
    rw [storeLoop]
    split
    · next hfiltered =>
      obtain ⟨hgrows, hall⟩ := @ih s hsound (i + 1)
      refine ⟨hgrows, fun hok r' hr' hpermitted => ?_⟩
      rcases List.mem_cons.mp hr' with rfl | hr'
      · rw [hfiltered] at hpermitted
        cases hpermitted
      · exact hall hok r' hr' hpermitted
    · split
      · exact ⟨Grows.refl hsound, fun hok => by cases hok⟩
      · next s₁ hone =>
        obtain ⟨hfirst, hhas⟩ := grows_storeOne hsound hone
        obtain ⟨hgrows, hall⟩ := @ih s₁ hfirst.sound (i + 1)
        refine ⟨hfirst.trans hgrows, fun hok r' hr' hpermitted => ?_⟩
        rcases List.mem_cons.mp hr' with rfl | hr'
        · exact hgrows.has _ _ _ hhas
        · exact hall hok r' hr' hpermitted

def OverQuota (cfg : RelayConfig) (disk : Disk) (env : EncryptedEnvelope) (rx : Fixed 32) : Prop :=
  durable cfg env = true ∧ 0 < cfg.storageQuota ∧
    cfg.storageQuota < usedBytes cfg disk rx + Mailbox.entrySize env

theorem storeOne_of_has {i : ℕ} {r : RecipientRecord} (hhas : Has cfg s env r.recipientXPub hash) :
    storeOne cfg w env hash i r.addr s =
      if durable cfg env then
        match quotaGate cfg w s.disk i r.addr env with
        | some e => .error e
        | none => if w.storeFails i then .error .storageFailed else .ok s
      else .ok s := by
  unfold Has at hhas
  unfold storeOne
  split
  · next hdurable =>
    rw [if_pos hdurable] at hhas
    have hsplit : ¬ env.isSplit = false := by simp [(Bool.and_eq_true _ _ ▸ hdurable).2]
    have hpresent : (s.disk.lookup (Mailbox.indexKey r.addr (Hex.encode hash.val))).isSome = true :=
      Option.isSome_iff_ne_none.mpr hhas
    have hstore : Mailbox.store cfg.mb s.disk r.addr hash env (w.storedAt i) = .ok s.disk := by
      unfold Mailbox.store
      rw [if_neg hsplit, if_pos hpresent]
    cases quotaGate cfg w s.disk i r.addr env with
    | some e => rfl
    | none =>
      cases w.storeFails i with
      | true => rfl
      | false => simp [hstore]
  · next hdurable =>
    rw [if_neg hdurable] at hhas
    obtain ⟨se, hse⟩ := Option.isSome_iff_exists.mp hhas
    unfold MessageStore.store
    rw [show r.addr = Hex.encode r.recipientXPub.val from rfl, hse]

theorem storeOne_again {i : ℕ} {r : RecipientRecord} (hhas : Has cfg s env r.recipientXPub hash)
    (h : storeOne cfg w env hash i r.addr s = .ok s') : s' = s := by
  rw [storeOne_of_has hhas] at h
  split at h
  · split at h
    · cases h
    · split at h
      · cases h
      · exact (Except.ok.inj h).symm
  · exact (Except.ok.inj h).symm

theorem quotaGate_eq {i : ℕ} {r : RecipientRecord} (hfails : w.quotaFails i = false)
    (hdurable : durable cfg env = true) :
    (quotaGate cfg w s.disk i r.addr env = some .mailboxFull ∧
      OverQuota cfg s.disk env r.recipientXPub) ∨
    (quotaGate cfg w s.disk i r.addr env = none ∧ ¬ OverQuota cfg s.disk env r.recipientXPub) := by
  unfold quotaGate
  by_cases hquota : cfg.storageQuota > 0
  · rw [if_pos hquota, if_neg (by simp [hfails])]
    by_cases hover : accountUsedBytes cfg s.disk r.addr + Mailbox.entrySize env > cfg.storageQuota
    · rw [if_pos hover]
      exact .inl ⟨rfl, hdurable, hquota, hover⟩
    · rw [if_neg hover]
      exact .inr ⟨rfl, fun hfull => hover hfull.2.2⟩
  · rw [if_neg hquota]
    exact .inr ⟨rfl, fun hfull => hquota hfull.2.1⟩

theorem storeOne_answer {i : ℕ} {r : RecipientRecord}
    (hfails : w.quotaFails i = false ∧ w.storeFails i = false)
    (hhas : Has cfg s env r.recipientXPub hash) :
    (storeOne cfg w env hash i r.addr s = .error .mailboxFull ∧
      OverQuota cfg s.disk env r.recipientXPub) ∨
    (storeOne cfg w env hash i r.addr s = .ok s ∧ ¬ OverQuota cfg s.disk env r.recipientXPub) := by
  rw [storeOne_of_has hhas, hfails.2]
  by_cases hdurable : durable cfg env = true
  · rw [if_pos hdurable]
    rcases @quotaGate_eq cfg s w env i r hfails.1 hdurable with ⟨hgate, hover⟩ | ⟨hgate, hwithin⟩
    · rw [hgate]
      exact .inl ⟨rfl, hover⟩
    · rw [hgate]
      exact .inr ⟨rfl, hwithin⟩
  · rw [if_neg hdurable]
    exact .inr ⟨rfl, fun hover => hdurable hover.1⟩

theorem storeLoop_again {senderAddr : String} {rec : IdentityRecord} {rs : List RecipientRecord}
    {i : ℕ} (hhas : ∀ r ∈ rs, permitted w r.addr senderAddr rec = true →
      Has cfg s env r.recipientXPub hash) :
    (storeLoop cfg w senderAddr rec env hash i rs s).1 = s := by
  induction rs generalizing i with
  | nil => rfl
  | cons r rs ih =>
    have hrest := @ih (i + 1) fun r' hr' => hhas r' (List.mem_cons_of_mem _ hr')
    rw [storeLoop]
    split
    · exact hrest
    · next hpermitted =>
      have hfirst := hhas r (List.mem_cons_self ..) (by simpa using hpermitted)
      split
      · rfl
      · next s₁ hone =>
        rw [storeOne_again hfirst hone]
        exact hrest

theorem answer_again (hfails : ∀ i, w.quotaFails i = false ∧ w.storeFails i = false)
    {senderAddr : String} {rec : IdentityRecord} {rs : List RecipientRecord} {i : ℕ}
    (hhas : ∀ r ∈ rs, permitted w r.addr senderAddr rec = true →
      Has cfg s env r.recipientXPub hash) :
    ((storeLoop cfg w senderAddr rec env hash i rs s).2 = .error .mailboxFull ∧
      ∃ r ∈ rs, permitted w r.addr senderAddr rec = true ∧
        OverQuota cfg s.disk env r.recipientXPub) ∨
    ((storeLoop cfg w senderAddr rec env hash i rs s).2 = .ok () ∧
      ∀ r ∈ rs, permitted w r.addr senderAddr rec = true →
        ¬ OverQuota cfg s.disk env r.recipientXPub) := by
  induction rs generalizing i with
  | nil => exact .inr ⟨rfl, fun r hr => by cases hr⟩
  | cons r rs ih =>
    have hrest := @ih (i + 1) fun r' hr' => hhas r' (List.mem_cons_of_mem _ hr')
    rw [storeLoop]
    split
    · next hfiltered =>
      refine hrest.imp ?_ ?_
      · rintro ⟨hanswer, r', hr', hover⟩
        exact ⟨hanswer, r', List.mem_cons_of_mem _ hr', hover⟩
      · rintro ⟨hanswer, hall⟩
        refine ⟨hanswer, fun r' hr' hpermitted => ?_⟩
        rcases List.mem_cons.mp hr' with rfl | hr'
        · rw [hfiltered] at hpermitted
          cases hpermitted
        · exact hall r' hr' hpermitted
    · next hpermitted =>
      have hpermitted : permitted w r.addr senderAddr rec = true := by simpa using hpermitted
      have hfirst := hhas r (List.mem_cons_self ..) hpermitted
      rcases storeOne_answer (hfails i) hfirst with ⟨hone, hover⟩ | ⟨hone, hwithin⟩
      · rw [hone]
        exact .inl ⟨rfl, r, List.mem_cons_self .., hpermitted, hover⟩
      · rw [hone]
        refine hrest.imp ?_ ?_
        · rintro ⟨hanswer, r', hr', hover⟩
          exact ⟨hanswer, r', List.mem_cons_of_mem _ hr', hover⟩
        · rintro ⟨hanswer, hall⟩
          refine ⟨hanswer, fun r' hr' hpermitted' => ?_⟩
          rcases List.mem_cons.mp hr' with rfl | hr'
          · exact hwithin
          · exact hall r' hr' hpermitted'

end Loop

section Runs

variable {cfg : RelayConfig}

def AccountCall.KeepsMail : AccountCall → Prop
  | .mailboxDelete _ _ => False
  | _ => True

theorem grows_of_outside {s : Stores} (hsound : s.Sound cfg) {disk' : Disk}
    (hkept : Mailbox.Kept cfg.mb disk')
    (h : ∀ key, under ["mbox"] key = true → disk'.lookup key = s.disk.lookup key) :
    Grows cfg s { s with disk := disk' } := by
  refine ⟨⟨hkept, hsound.queued⟩, fun env rx hash hhas => ?_⟩
  unfold Has at hhas ⊢
  split
  · next hdurable =>
    rw [if_pos hdurable] at hhas
    unfold Mailbox.Present at hhas ⊢
    rw [indexKey_eq] at hhas ⊢
    rwa [h _ (under_mbox_cons _ _)]
  · next hdurable =>
    rw [if_neg hdurable] at hhas
    exact hhas

theorem grows_account {s : RelayState} (hsound : s.stores.Sound cfg) {call : AccountCall}
    (hcall : call.KeepsMail) :
    Grows cfg s.stores (s.account cfg call).stores := by
  have hkept := kept_account hsound.kept call
  cases call with
  | accept w onionRelay senderAddr senderSig env hash =>
    unfold RelayState.account
    rcases stores_acceptEnvelope_cases cfg w s onionRelay senderAddr senderSig env hash with heq
      | ⟨rec, heq⟩
    · rw [heq]
      exact Grows.refl hsound
    · rw [heq]
      exact (grows_storeLoop hsound).1
  | kvPut rx key sealed expectedVersion =>
    unfold RelayState.account at hkept ⊢
    dsimp only at hkept ⊢
    split
    · exact Grows.refl hsound
    · next disk version hput =>
      rw [hput] at hkept
      obtain ⟨k, hk, -, -, rfl⟩ := kvPut_eq_ok hput
      obtain rfl := PersonalKv.kvKey_eq_ok hk
      apply grows_of_outside hsound hkept
      intro key' hunder
      rw [lookup_put, if_neg]
      rintro rfl
      cases hunder
  | mailboxDelete rx hash => exact absurd hcall id
  | kvDelete rx key =>
    unfold RelayState.account at hkept ⊢
    dsimp only at hkept ⊢
    split
    · exact Grows.refl hsound
    · next disk hdelete =>
      rw [hdelete] at hkept
      apply grows_of_outside hsound hkept
      intro key' hunder
      rcases kvDelete_eq_ok hdelete with rfl | ⟨k, hk, rfl⟩
      · rfl
      · obtain rfl := PersonalKv.kvKey_eq_ok hk
        apply AList.lookup_erase_ne
        rintro rfl
        cases hunder

theorem grows_run {s : RelayState} (hsound : s.stores.Sound cfg) {calls : List AccountCall}
    (hcalls : ∀ c ∈ calls, c.KeepsMail) :
    Grows cfg s.stores (Machine.run (RelayState.account cfg) s calls).stores := by
  induction calls generalizing s with
  | nil => exact Grows.refl hsound
  | cons call calls ih =>
    have hfirst := grows_account hsound (hcalls call (List.mem_cons_self ..))
    exact hfirst.trans (ih hfirst.sound fun c hc => hcalls c (List.mem_cons_of_mem _ hc))

end Runs

structure Admitted (cfg : RelayConfig) (w : Surroundings) (s : RelayState) (onionRelay : Bool)
    (senderAddr : String) (senderSig : Bytes) (env : EncryptedEnvelope) (hash : Fixed 32)
    (rec : IdentityRecord) : Prop where
  draining : w.draining = false
  allowed : (s.limiter.allow w.now senderAddr).2 = true
  gate : senderGate cfg w s.onionRequired onionRelay senderAddr senderSig env hash = .ok rec

section Retry

variable {cfg : RelayConfig} {s : RelayState} {w : Surroundings} {onionRelay : Bool}
  {senderAddr : String}
  {senderSig : Bytes} {env : EncryptedEnvelope} {hash : Fixed 32}

/-- An attempt that has nothing left to store: it leaves the stores, and once it is admitted and
nothing fails, it is answered with success, or refused by a cap that counts the message a second
time. -/
structure StoresNothing (cfg : RelayConfig) (w : Surroundings) (s : RelayState) (onionRelay : Bool)
    (senderAddr : String) (senderSig : Bytes) (env : EncryptedEnvelope) (hash : Fixed 32) :
    Prop where
  stores : (acceptEnvelope cfg w s onionRelay senderAddr senderSig env hash).1.stores = s.stores
  answer : ∀ rec, Admitted cfg w s onionRelay senderAddr senderSig env hash rec →
    (∀ i, w.quotaFails i = false ∧ w.storeFails i = false) →
    ((acceptEnvelope cfg w s onionRelay senderAddr senderSig env hash).2 = .error .mailboxFull ∧
      ∃ r ∈ env.recipients, permitted w r.addr senderAddr rec = true ∧
        OverQuota cfg s.stores.disk env r.recipientXPub) ∨
    ((acceptEnvelope cfg w s onionRelay senderAddr senderSig env hash).2 = .ok hash ∧
      ∀ r ∈ env.recipients, permitted w r.addr senderAddr rec = true →
        ¬ OverQuota cfg s.stores.disk env r.recipientXPub)

theorem storesNothing_of_has (hhas : ∀ rec, w.resolve senderAddr = .ok rec → ∀ r ∈ env.recipients,
      permitted w r.addr senderAddr rec = true → Has cfg s.stores env r.recipientXPub hash) :
    StoresNothing cfg w s onionRelay senderAddr senderSig env hash where
  stores := by
    unfold acceptEnvelope
    split
    · rfl
    · dsimp only
      split
      · rfl
      · split
        · rfl
        · next rec hgate => exact storeLoop_again (hhas rec (sender_of_senderGate hgate).1)
  answer := by
    intro rec hadmitted hfails
    have hrec := hhas rec (sender_of_senderGate hadmitted.gate).1
    rw [acceptEnvelope_of_gate hadmitted.draining hadmitted.allowed hadmitted.gate]
    dsimp only
    rcases @answer_again cfg s.stores w env hash hfails senderAddr rec env.recipients 0 hrec with
      ⟨hanswer, hover⟩ | ⟨hanswer, hwithin⟩
    · rw [hanswer]
      exact .inl ⟨rfl, hover⟩
    · rw [hanswer]
      exact .inr ⟨rfl, hwithin⟩

theorem has_of_accepted (hsound : s.stores.Sound cfg) {answer : Fixed 32} {rec : IdentityRecord}
    (haccepted : (acceptEnvelope cfg w s onionRelay senderAddr senderSig env hash).2 = .ok answer)
    (hresolve : w.resolve senderAddr = .ok rec) :
    ∀ r ∈ env.recipients, permitted w r.addr senderAddr rec = true →
      Has cfg (acceptEnvelope cfg w s onionRelay senderAddr senderSig env hash).1.stores env
      r.recipientXPub hash := by
  obtain ⟨-, -, -, rec', hgate, hloop⟩ := acceptEnvelope_eq_ok haccepted
  obtain rfl : rec = rec' := Except.ok.inj (hresolve.symm.trans (sender_of_senderGate hgate).1)
  have hall := (@grows_storeLoop cfg s.stores w env hash hsound senderAddr rec env.recipients 0).2
  rw [hloop] at hall
  exact hall rfl

end Retry

/-- Over every run of attempts and other calls that deletes no mail, from a relay without mail:
nobody has two copies of a message; after an attempt that succeeds, every recipient it was permitted
for has one copy; and a later attempt for no other recipients stores nothing, and is answered with
success unless it is not admitted, the datastore fails, or the cap counts the message a second
time. -/
theorem store_retries_converge (cfg : RelayConfig) {s : RelayState}
    (hforeign : Mailbox.Foreign s.stores.disk) (hempty : s.stores.transit = .empty)
    {calls : List AccountCall} (hcalls : ∀ c ∈ calls, c.KeepsMail) :
    (∀ env rx hash, copies cfg (Machine.run (RelayState.account cfg) s calls).stores env rx hash ≤
      1) ∧
    ∀ before w onionRelay senderAddr senderSig env hash after answer rec,
      calls = before ++ .accept w onionRelay senderAddr senderSig env hash :: after →
      (acceptEnvelope cfg w (Machine.run (RelayState.account cfg) s before) onionRelay senderAddr
        senderSig env hash).2 =
        .ok answer →
      w.resolve senderAddr = .ok rec →
      (∀ r ∈ env.recipients, permitted w r.addr senderAddr rec = true →
        copies cfg (Machine.run (RelayState.account cfg) s calls).stores env r.recipientXPub hash =
          1) ∧
      ∀ w' onionRelay',
        (∀ rec', w'.resolve senderAddr = .ok rec' → ∀ r ∈ env.recipients,
          permitted w' r.addr senderAddr rec' = true → permitted w r.addr senderAddr rec = true) →
        StoresNothing cfg w' (Machine.run (RelayState.account cfg) s calls) onionRelay' senderAddr
        senderSig env hash := by
  have hsound : s.stores.Sound cfg := by
    refine ⟨⟨_, [], hforeign, Mailbox.holds_base cfg.mb _⟩, [], ?_⟩
    rw [hempty]
    exact MessageStore.holds_empty
  have hend := grows_run hsound hcalls
  refine ⟨fun env rx hash => ?_, ?_⟩
  · rcases hend.sound.copies_eq env rx hash with ⟨hzero, -⟩ | ⟨hone, -⟩
    · omega
    · omega
  · intro before w onionRelay senderAddr senderSig env hash after answer rec heq haccepted hresolve
    -- what the successful attempt brought is still there at the end
    have hbefore : ∀ c ∈ before, c.KeepsMail :=
      fun c hc => hcalls c (heq ▸ List.mem_append_left _ hc)
    have hstart := grows_run hsound hbefore
    have hdone := has_of_accepted hstart.sound haccepted hresolve
    have hattempt : Grows cfg _ ((Machine.run (RelayState.account cfg) s before).account cfg
        (.accept w onionRelay senderAddr senderSig env hash)).stores :=
          grows_account hstart.sound trivial
    have hrest : ∀ c ∈ after, c.KeepsMail := fun c hc =>
      hcalls c (heq ▸ List.mem_append_right _ (List.mem_cons_of_mem _ hc))
    have hafter := grows_run hattempt.sound hrest
    have hrun : Machine.run (RelayState.account cfg) s calls = Machine.run (RelayState.account cfg)
        ((Machine.run (RelayState.account cfg) s before).account cfg
          (.accept w onionRelay senderAddr senderSig env hash)) after := by
      rw [heq, Machine.run_append]
      rfl
    rw [← hrun] at hafter
    have hhas : ∀ r ∈ env.recipients, permitted w r.addr senderAddr rec = true →
        Has cfg (Machine.run (RelayState.account cfg) s calls).stores env r.recipientXPub hash :=
      fun r hr hpermitted => hafter.has _ _ _ (hdone r hr hpermitted)
    refine ⟨fun r hr hpermitted => ?_, fun w' onionRelay' hsame => storesNothing_of_has ?_⟩
    · rcases hend.sound.copies_eq env r.recipientXPub hash with ⟨-, hno⟩ | ⟨hone, -⟩
      · exact absurd (hhas r hr hpermitted) hno
      · exact hone
    · intro rec' hresolve' r hr hpermitted
      exact hhas r hr (hsame rec' hresolve' r hr hpermitted)

namespace Repeated

open Oversized

noncomputable def cfg (quota : UInt64) : RelayConfig := { cfg₀ with storageQuota := quota }

def message : EncryptedEnvelope := envelope [1, 2, 3]

noncomputable def hash : Fixed 32 := envelopeHash cfg₀ message.toProto

noncomputable def attempt : AccountCall := .accept w₀ false "a@b" signature message hash

theorem durable_message (quota : UInt64) : durable (cfg quota) message = true := rfl

theorem admitted {s : RelayState} (quota : UInt64)
    (hallowed : (s.limiter.allow w₀.now "a@b").2 = true)
    (honion : s.onionRequired = s₀.onionRequired) :
    Admitted (cfg quota) w₀ s false "a@b" signature message hash sender where
  draining := rfl
  allowed := hallowed
  gate := by
    rw [honion]
    exact senderGate_envelope [1, 2, 3] hash

theorem usedBytes_s₀ (quota : UInt64) : usedBytes (cfg quota) s₀.stores.disk (.zero 32) = 0 := by
  have hholds : Mailbox.Holds (cfg quota).mb ∅ ∅ [] := Mailbox.holds_base _ _
  have hmail := hholds.statsOwner (show Mailbox.Foreign ∅ from fun _ _ => rfl) (.zero 32) []
  have hkv := kvUsed_eq ∅ (.zero 32)
  unfold usedBytes accountUsedBytes s₀
  rw [hmail, hkv]
  rfl

theorem first_attempt {quota : UInt64} (hroom : 3 ≤ quota) :
    acceptEnvelope (cfg quota) w₀ s₀ false "a@b" signature message hash =
      ({ s₀ with
          limiter := (s₀.limiter.allow w₀.now "a@b").1
          stores := ⟨.empty, putAll ∅
            (Mail.writes cfg₀.mb ⟨.zero 32, hash, message, Time.ofUnix 7⟩)⟩ }, .ok hash) := by
  have hadmitted := admitted quota allow_s₀ rfl
  have hgate : quotaGate (cfg quota) w₀ s₀.stores.disk 0 recipient.addr message = none := by
    have hused := usedBytes_s₀ quota
    unfold usedBytes at hused
    unfold quotaGate
    rw [show recipient.addr = Hex.encode (Fixed.zero 32).val from rfl, hused, zero_add,
      show Mailbox.entrySize message = 3 from rfl]
    have hwithin : ¬ 3 > (cfg quota).storageQuota := UInt64.not_lt.mpr hroom
    split
    · simp [w₀]
    · rfl
  have hbatch := Mail.storeBatch_eq cfg₀.mb ⟨.zero 32, hash, message, Time.ofUnix 7⟩
  have hone : storeOne (cfg quota) w₀ message hash 0 recipient.addr s₀.stores =
      .ok ⟨.empty, putAll ∅ (Mail.writes cfg₀.mb ⟨.zero 32, hash, message, Time.ofUnix 7⟩)⟩ := by
    rw [← hbatch]
    unfold storeOne
    rw [if_pos (durable_message quota), hgate]
    rfl
  have hloop : storeLoop (cfg quota) w₀ "a@b" sender message hash 0 message.recipients s₀.stores =
      (⟨.empty, putAll ∅ (Mail.writes cfg₀.mb ⟨.zero 32, hash, message, Time.ofUnix 7⟩)⟩,
        .ok ()) := by
    change storeLoop (cfg quota) w₀ "a@b" sender message hash 0 [recipient] s₀.stores = _
    rw [storeLoop, if_neg (by simp [permitted, w₀]), hone]
    rfl
  rw [acceptEnvelope_of_gate hadmitted.draining hadmitted.allowed hadmitted.gate, hloop]
  rfl

noncomputable def s₁ : RelayState :=
  { s₀ with
    limiter := (s₀.limiter.allow w₀.now "a@b").1
    stores := ⟨.empty, putAll ∅ (Mail.writes cfg₀.mb ⟨.zero 32, hash, message, Time.ofUnix 7⟩)⟩ }

theorem allow_s₁ : (s₁.limiter.allow w₀.now "a@b").2 = true := by
  change ((s₀.limiter.allow w₀.now "a@b").1.allow w₀.now "a@b").2 = true
  decide

theorem usedBytes_s₁ (quota : UInt64) : usedBytes (cfg quota) s₁.stores.disk (.zero 32) = 3 := by
  have hholds : Mailbox.Holds (cfg quota).mb ∅ ∅ [] := Mailbox.holds_base _ _
  have hput := @usedBytes_putMail (cfg quota) ∅ (.zero 32) ∅ [] (fun _ _ => rfl) hholds rfl
    ⟨.zero 32, hash, message, Time.ofUnix 7⟩ (by simp)
  have hbefore := usedBytes_s₀ quota
  rw [show s₀.stores.disk = ∅ from rfl] at hbefore
  rw [hbefore, if_pos rfl] at hput
  exact hput

theorem has_s₁ (quota : UInt64) : Has (cfg quota) s₁.stores message (.zero 32) hash := by
  unfold Has
  rw [if_pos (durable_message quota)]
  exact present_writes ∅ ⟨.zero 32, hash, message, Time.ofUnix 7⟩

/-- Under a cap that one copy fills, the message is stored, and the same STORE again is refused as
too much. -/
theorem retry_answered_full :
    (storeLocal (cfg 3) w₀ s₀ "a@b" signature message).2 = .ok hash ∧
    (storeLocal (cfg 3) w₀ (storeLocal (cfg 3) w₀ s₀ "a@b" signature message).1 "a@b" signature
      message).2 =
      .error .mailboxFull := by
  have hfirst : storeLocal (cfg 3) w₀ s₀ "a@b" signature message = (s₁, .ok hash) :=
    first_attempt (by decide)
  have hadmitted := admitted 3 allow_s₁ rfl
  have hnothing : StoresNothing (cfg 3) w₀ s₁ false "a@b" signature message hash := by
    apply storesNothing_of_has
    intro rec _ r hr _
    rw [show r = recipient from List.mem_singleton.mp hr]
    exact has_s₁ 3
  have hover : OverQuota (cfg 3) s₁.stores.disk message recipient.recipientXPub := by
    refine ⟨durable_message 3, by decide, ?_⟩
    rw [show recipient.recipientXPub = .zero 32 from rfl, usedBytes_s₁]
    decide
  rw [hfirst]
  refine ⟨rfl, ?_⟩
  rcases hnothing.answer sender hadmitted fun _ => ⟨rfl, rfl⟩ with ⟨hfull, -⟩ | ⟨-, hwithin⟩
  · exact hfull
  · exact absurd hover (hwithin recipient (List.mem_singleton.mpr rfl) rfl)

/-- Under a cap with room for two, the same STORE again succeeds, and there is one copy. -/
theorem retry_answered_again :
    copies (cfg 6) s₁.stores message (.zero 32) hash = 1 ∧
    StoresNothing (cfg 6) w₀ s₁ false "a@b" signature message hash ∧
    (acceptEnvelope (cfg 6) w₀ s₁ false "a@b" signature message hash).2 = .ok hash := by
  have hfirst := @first_attempt 6 (by decide)
  have hrun : Machine.run (RelayState.account (cfg 6)) s₀ [attempt] = s₁ := congrArg Prod.fst hfirst
  have hkeeps : ∀ c ∈ [attempt], c.KeepsMail := by
    intro c hc
    rw [List.mem_singleton.mp hc]
    trivial
  obtain ⟨-, hdone⟩ := store_retries_converge (cfg 6) (s := s₀) (fun _ _ => rfl) rfl hkeeps
  obtain ⟨hcopies, hnothing⟩ := hdone [] w₀ false "a@b" signature message hash [] hash sender rfl
    (congrArg Prod.snd hfirst) rfl
  rw [hrun] at hcopies hnothing
  have hagain := hnothing w₀ false fun _ _ _ _ _ => rfl
  refine ⟨hcopies recipient (List.mem_singleton.mpr rfl) rfl, hagain, ?_⟩
  rcases hagain.answer sender (admitted 6 allow_s₁ rfl) fun _ =>
    ⟨rfl, rfl⟩ with ⟨-, r, hr, -, -, -, hover⟩ | ⟨hok, -⟩
  · rw [show r = recipient from List.mem_singleton.mp hr, show recipient.recipientXPub =
      .zero 32 from rfl, usedBytes_s₁] at hover
    exact absurd hover (by decide)
  · exact hok

end Repeated

end Dmcn
