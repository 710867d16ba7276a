import OpenDmcn.IdealRuntime
import OpenDmcn.Relay.AcceptEnvelope

/-! The storage cap of an account (`relay.go`): mail and blobs count together. A STORE is checked
with the size that it will count for; a KvPut with the length of the blob, while the record that is
stored is what counts. -/

namespace Dmcn

open Go Datastore

inductive AccountCall where
  | accept (w : Surroundings) (onionRelay : Bool) (senderAddr : String) (senderSig : Bytes)
    (env : EncryptedEnvelope)
      (hash : Fixed 32)
  | kvPut (rx : Fixed 32) (key : String) (sealed : Bytes) (expectedVersion : UInt64)
  | mailboxDelete (rx hash : Fixed 32)
  | kvDelete (rx : Fixed 32) (key : String)

section Calls

variable (cfg : RelayConfig)

def RelayState.account (s : RelayState) : AccountCall → RelayState
  | .accept w onionRelay senderAddr senderSig env hash =>
    (acceptEnvelope cfg w s onionRelay senderAddr senderSig env hash).1
  | .kvPut rx key sealed expectedVersion =>
    match Dmcn.kvPut cfg s.stores.disk (Hex.encode rx.val) key sealed expectedVersion with
    | .error _ => s
    | .ok (disk, _) => { s with stores := { s.stores with disk := disk } }
  | .mailboxDelete rx hash =>
    { s with stores :=
      { s.stores with disk := Mailbox.delete s.stores.disk (Hex.encode rx.val) hash } }
  | .kvDelete rx key =>
    match Dmcn.kvDelete cfg s.stores.disk (Hex.encode rx.val) key with
    | .error _ => s
    | .ok disk => { s with stores := { s.stores with disk := disk } }

def usedBytes (disk : Disk) (rx : Fixed 32) : UInt64 :=
  accountUsedBytes cfg disk (Hex.encode rx.val)

/-- An accepted STORE leaves each account it was stored for within the cap, an accepted KvPut that
of its owner. -/
def KeepsQuota (s : RelayState) : AccountCall → Prop
  | .accept w onionRelay senderAddr senderSig env hash => durable cfg env = true →
      ∀ rec answer, w.resolve senderAddr = .ok rec →
        (acceptEnvelope cfg w s onionRelay senderAddr senderSig env hash).2 = .ok answer →
        ∀ r ∈ env.recipients, permitted w r.addr senderAddr rec = true →
          usedBytes cfg
            (acceptEnvelope cfg w s onionRelay senderAddr senderSig env hash).1.stores.disk
            r.recipientXPub ≤ cfg.storageQuota
  | .kvPut rx key sealed expectedVersion => ∀ disk version,
      kvPut cfg s.stores.disk (Hex.encode rx.val) key sealed expectedVersion = .ok (disk, version) →
        usedBytes cfg disk rx ≤ cfg.storageQuota
  | _ => True

def usedAfterPut (disk : Disk) (rx : Fixed 32) (k : Key) (sealed : Bytes) : UInt64 :=
  usedBytes cfg disk rx - UInt64.ofNat ((disk.lookup k).getD []).length +
    UInt64.ofNat (cfg.kv.marshal ⟨PersonalKv.storedVersion cfg.kv disk k + 1, sealed⟩).length

/-- A KvPut that is accepted has room for the record that it stores; and a STORE of a message that a
recipient has already finds the account within the cap. -/
def HasRoom (s : RelayState) : AccountCall → Prop
  | .accept w onionRelay senderAddr senderSig env hash => durable cfg env = true →
      ∀ rec answer, w.resolve senderAddr = .ok rec →
        (acceptEnvelope cfg w s onionRelay senderAddr senderSig env hash).2 = .ok answer →
        ∀ r ∈ env.recipients, permitted w r.addr senderAddr rec = true →
          Mailbox.Present s.stores.disk r.recipientXPub hash →
          usedBytes cfg s.stores.disk r.recipientXPub ≤ cfg.storageQuota
  | .kvPut rx key sealed expectedVersion => ∀ k,
      PersonalKv.kvKey (Hex.encode rx.val) key = .ok k →
        (kvPut cfg s.stores.disk (Hex.encode rx.val) key sealed expectedVersion).toOption.isSome =
          true →
        usedAfterPut cfg s.stores.disk rx k sealed ≤ cfg.storageQuota
  | _ => True

end Calls

def Mailbox.Kept (rt : MailboxRuntime) (disk : Disk) : Prop :=
  ∃ base q, Foreign base ∧ Holds rt base disk q

section Used

variable {cfg : RelayConfig} {disk : Disk} {rx : Fixed 32}

theorem sum_lengths (l : List (Key × Bytes)) (acc : UInt64 × UInt64) :
    (l.foldl (fun acc r => (acc.1 + 1, acc.2 + UInt64.ofNat r.2.length)) acc).2 =
      acc.2 + (l.map fun r => UInt64.ofNat r.2.length).sum := by
  induction l generalizing acc with
  | nil => simp
  | cons r l ih =>
    rw [List.foldl_cons, ih, List.map_cons, List.sum_cons, add_assoc]

theorem kvUsed_eq (disk : Disk) (rx : Fixed 32) :
    (PersonalKv.statsOwner [] disk (Hex.encode rx.val)).2 =
      ((query (PersonalKv.ownerKey rx) [] disk).map fun r => UInt64.ofNat r.2.length).sum := by
  unfold PersonalKv.statsOwner PersonalKv.statsPrefix
  rw [PersonalKv.newKey_ownerPrefix, sum_lengths, zero_add]

theorem kvUsed_of_agree {disk' : Disk}
    (h : ∀ key, under (PersonalKv.ownerKey rx) key = true → disk'.lookup key = disk.lookup key) :
    (PersonalKv.statsOwner [] disk' (Hex.encode rx.val)).2 =
      (PersonalKv.statsOwner [] disk (Hex.encode rx.val)).2 := by
  rw [kvUsed_eq, kvUsed_eq, ((perm_query_of_agree [] [] h).map _).sum_eq]

theorem kvUsed_put {k : Key} (value : Bytes) (hk : under (PersonalKv.ownerKey rx) k = true) :
    (PersonalKv.statsOwner [] (Datastore.put disk k value) (Hex.encode rx.val)).2 =
      (PersonalKv.statsOwner [] disk (Hex.encode rx.val)).2 - UInt64.ofNat
      ((disk.lookup k).getD []).length +
        UInt64.ofNat value.length := by
  have hafter : (query (PersonalKv.ownerKey rx) [] (Datastore.put disk k value)).Perm
      ((k, value) :: (query (PersonalKv.ownerKey rx) [] disk).filter fun r =>
        decide (r.1 ≠ k)) := by
    apply perm_query_cons [] [] hk
    · rw [lookup_put, if_pos rfl]
    · intro key hkey _
      rw [lookup_put, if_neg hkey]
  have hbefore :
      ((query (PersonalKv.ownerKey rx) [] disk).map fun r => UInt64.ofNat r.2.length).sum =
      UInt64.ofNat ((disk.lookup k).getD []).length +
        (((query (PersonalKv.ownerKey rx) [] disk).filter
        fun r => decide (r.1 ≠ k)).map fun r => UInt64.ofNat r.2.length).sum := by
    cases hold : disk.lookup k with
    | some old =>
      have hcons := perm_query_cons (d := disk) [] [] hk hold fun _ _ _ => rfl
      rw [(hcons.map _).sum_eq, List.map_cons, List.sum_cons]
      rfl
    | none =>
      rw [List.filter_eq_self.mpr]
      · simp
      · rintro ⟨key, value'⟩ hr
        apply decide_eq_true
        rintro rfl
        rw [mem_query, hold] at hr
        cases hr.1
  rw [kvUsed_eq, kvUsed_eq, (hafter.map _).sum_eq, List.map_cons, List.sum_cons, hbefore,
    add_sub_cancel_left, add_comm]

theorem mailUsed_of_agree {base base' disk' : Disk} {q : List Mail} (hbase : Mailbox.Foreign base)
    (hbase' : Mailbox.Foreign base') (h : Mailbox.Holds cfg.mb base disk q)
    (h' : Mailbox.Holds cfg.mb base' disk' q) :
    Mailbox.statsOwner cfg.mb [] disk' (Hex.encode rx.val) = Mailbox.statsOwner cfg.mb [] disk
      (Hex.encode rx.val) := by
  rw [h.statsOwner hbase, h'.statsOwner hbase']

theorem foreign_put {base : Disk} (h : Mailbox.Foreign base) {k : Key}
    (hk : under ["mbox"] k = false) (value : Bytes) :
    Mailbox.Foreign (Datastore.put base k value) := by
  intro key hunder
  rw [lookup_put, if_neg]
  · exact h key hunder
  · rintro rfl
    rw [hk] at hunder
    cases hunder

theorem foreign_erase {base : Disk} (h : Mailbox.Foreign base) (k : Key) : Mailbox.Foreign
    (base.erase k) := by
  intro key hunder
  by_cases hkey : key = k
  · rw [hkey, AList.lookup_erase]
  · rw [AList.lookup_erase_ne hkey]
    exact h key hunder

theorem notMem_writes {rt : MailboxRuntime} {m : Mail} {key : Key} {value : Bytes}
    (hk : under ["mbox"] key = false) : (key, value) ∉ m.writes rt := by
  intro hw
  have hunder := Mail.under_of_mem_keys (Mail.mem_keys_of_mem_writes hw)
  rw [hk] at hunder
  cases hunder

theorem holds_put {base : Disk} {q : List Mail} (h : Mailbox.Holds cfg.mb base disk q) {k : Key}
    (hk : under ["mbox"] k = false) (value : Bytes) :
    Mailbox.Holds cfg.mb (Datastore.put base k value) (Datastore.put disk k value) q := by
  refine ⟨h.once, fun key value' => ?_⟩
  rw [lookup_put, lookup_put]
  by_cases hkey : key = k
  · subst hkey
    simp only [if_pos]
    refine ⟨.inr, ?_⟩
    rintro (⟨m, -, hw⟩ | hvalue)
    · exact absurd hw (notMem_writes hk)
    · exact hvalue
  · rw [if_neg hkey, if_neg hkey]
    exact h.lookup key value'

theorem holds_erase {base : Disk} {q : List Mail} (h : Mailbox.Holds cfg.mb base disk q) {k : Key}
    (hk : under ["mbox"] k = false) : Mailbox.Holds cfg.mb (base.erase k) (disk.erase k) q := by
  refine ⟨h.once, fun key value' => ?_⟩
  by_cases hkey : key = k
  · subst hkey
    rw [AList.lookup_erase, AList.lookup_erase]
    refine ⟨.inr, ?_⟩
    rintro (⟨m, -, hw⟩ | hvalue)
    · exact absurd hw (notMem_writes hk)
    · exact hvalue
  · rw [AList.lookup_erase_ne hkey, AList.lookup_erase_ne hkey]
    exact h.lookup key value'

theorem holds_putMail {base : Disk} {q : List Mail} (hbase : Mailbox.Foreign base)
    (h : Mailbox.Holds cfg.mb base disk q) {m : Mail} (hnew : m.pair ∉ q.map Mail.pair) :
    Mailbox.Holds cfg.mb base (putAll disk (m.writes cfg.mb)) (q ++ [m]) := by
  have hput := h.putAll hbase (m := m) fun m' hm' hpair =>
    absurd (List.mem_map.mpr ⟨m', hm', hpair⟩) hnew
  rwa [Mailbox.replace_of_notMem hnew] at hput

theorem usedBytes_putMail {base : Disk} {q : List Mail} (hbase : Mailbox.Foreign base)
    (h : Mailbox.Holds cfg.mb base disk q) (hmailbox : cfg.mailbox = true) {m : Mail}
    (hnew : m.pair ∉ q.map Mail.pair) :
    usedBytes cfg (putAll disk (m.writes cfg.mb)) rx =
      usedBytes cfg disk rx + if m.rx = rx then Mailbox.entrySize m.env else 0 := by
  have hafter := holds_putMail hbase h hnew
  have hagree : ∀ key, under (PersonalKv.ownerKey rx) key = true →
      (putAll disk (m.writes cfg.mb)).lookup key = disk.lookup key := by
    intro key hunder
    apply lookup_putAll_of_notMem
    intro hmem
    rw [not_under_ownerKey hmem rx] at hunder
    cases hunder
  have hmail :
      (Mailbox.statsOwner cfg.mb [] (putAll disk (m.writes cfg.mb)) (Hex.encode rx.val)).2 =
      (Mailbox.statsOwner cfg.mb [] disk (Hex.encode rx.val)).2 +
        if m.rx = rx then Mailbox.entrySize m.env else 0 := by
    rw [hafter.statsOwner hbase, h.statsOwner hbase, Mailbox.sum_ones, Mailbox.sum_ones,
      List.filter_append, List.map_append, List.sum_append]
    dsimp only
    by_cases hrx : m.rx = rx
    · simp [hrx]
    · simp [hrx]
  unfold usedBytes accountUsedBytes
  rw [kvUsed_of_agree hagree, hmail, if_pos hmailbox, if_pos hmailbox, add_right_comm]

theorem usedBytes_kvPut {base : Disk} {q : List Mail} (hbase : Mailbox.Foreign base)
    (h : Mailbox.Holds cfg.mb base disk q) (hhosts : cfg.personalKv = true) {key : String} {k : Key}
    {sealed : Bytes} (hk : PersonalKv.kvKey (Hex.encode rx.val) key = .ok k) :
    usedBytes cfg (Datastore.put disk k
      (cfg.kv.marshal ⟨PersonalKv.storedVersion cfg.kv disk k + 1, sealed⟩)) rx =
      usedAfterPut cfg disk rx k sealed := by
  obtain rfl := PersonalKv.kvKey_eq_ok hk
  have hunder : under (PersonalKv.ownerKey rx) (PersonalKv.ownerKey rx ++ segments key) = true :=
    under_append (PersonalKv.segments_ne_nil key)
  have hmbox : under ["mbox"] (PersonalKv.ownerKey rx ++ segments key) = false := rfl
  unfold usedAfterPut usedBytes accountUsedBytes
  rw [mailUsed_of_agree hbase (foreign_put hbase hmbox _) h (holds_put h hmbox _),
    kvUsed_put _ hunder, if_pos hhosts, if_pos hhosts, add_sub_assoc, add_assoc]

end Used

section Store

variable {cfg : RelayConfig} {s s' : Stores} {w : Surroundings} {env : EncryptedEnvelope}
  {hash : Fixed 32}

theorem used_le_of_quotaGate (hquota : 0 < cfg.storageQuota) {disk : Disk} {i : ℕ}
    {r : RecipientRecord} (h : quotaGate cfg w disk i r.addr env = none) :
    usedBytes cfg disk r.recipientXPub + Mailbox.entrySize env ≤ cfg.storageQuota := by
  unfold quotaGate at h
  rw [if_pos hquota] at h
  split at h
  · cases h
  · split at h
    · cases h
    · next hle => exact UInt64.not_lt.mp hle

/-- What storing for a recipient keeps: the messages, and the accounts of those who have the message
already. -/
structure Stored (cfg : RelayConfig) (hash : Fixed 32) (s s' : Stores) : Prop where
  kept : Mailbox.Kept cfg.mb s'.disk
  present : ∀ rx, Mailbox.Present s.disk rx hash → Mailbox.Present s'.disk rx hash
  used : ∀ rx, Mailbox.Present s.disk rx hash → usedBytes cfg s'.disk rx = usedBytes cfg s.disk rx

theorem Stored.refl (h : Mailbox.Kept cfg.mb s.disk) : Stored cfg hash s s :=
  ⟨h, fun _ => id, fun _ _ => rfl⟩

theorem Stored.trans {s'' : Stores} (h : Stored cfg hash s s') (h' : Stored cfg hash s' s'') :
    Stored cfg hash s s'' where
  kept := h'.kept
  present rx hpresent := h'.present rx (h.present rx hpresent)
  used rx hpresent := (h'.used rx (h.present rx hpresent)).trans (h.used rx hpresent)

theorem present_iff {base : Disk} {q : List Mail} (hbase : Mailbox.Foreign base) {disk : Disk}
    (h : Mailbox.Holds cfg.mb base disk q) {rx : Fixed 32} :
    Mailbox.Present disk rx hash ↔ (rx, hash) ∈ q.map Mail.pair := by
  rw [Mailbox.Present, Ne, h.index_eq_none hbase, not_not]

theorem storeOne_stored (hquota : 0 < cfg.storageQuota) (hdurable : durable cfg env = true)
    (hkept : Mailbox.Kept cfg.mb s.disk) {i : ℕ} {r : RecipientRecord}
    (h : storeOne cfg w env hash i r.addr s = .ok s') :
    Stored cfg hash s s' ∧ Mailbox.Present s'.disk r.recipientXPub hash ∧
      (¬ Mailbox.Present s.disk r.recipientXPub hash → usedBytes cfg s'.disk r.recipientXPub ≤
        cfg.storageQuota) ∧
      ∀ rx, Mailbox.Present s'.disk rx hash → Mailbox.Present s.disk rx hash ∨
      rx = r.recipientXPub := by
  have hmailbox : cfg.mailbox = true := (Bool.and_eq_true _ _ ▸ hdurable).1
  rcases storeOne_eq_ok h with ⟨-, hgate, ⟨hpresent, rfl⟩ | ⟨habsent, rfl⟩⟩ | ⟨hnot, -⟩
  · exact ⟨Stored.refl hkept, hpresent, fun hno => absurd hpresent hno, fun rx => .inl⟩
  · obtain ⟨base, q, hbase, hholds⟩ := hkept
    have hnew : (Mail.pair ⟨r.recipientXPub, hash, env, w.storedAt i⟩) ∉ q.map Mail.pair :=
      (hholds.index_eq_none hbase).mp habsent
    have hafter := holds_putMail hbase hholds hnew
    have hpresent : ∀ rx, Mailbox.Present (putAll s.disk (Mail.writes cfg.mb
        ⟨r.recipientXPub, hash, env, w.storedAt i⟩)) rx hash ↔
        Mailbox.Present s.disk rx hash ∨ rx = r.recipientXPub := by
      intro rx
      rw [present_iff hbase hafter, present_iff hbase hholds]
      simp [Mail.pair]
    have hother : ∀ rx, Mailbox.Present s.disk rx hash → r.recipientXPub ≠ rx := by
      rintro rx hrx rfl
      exact hnew ((present_iff hbase hholds).mp hrx)
    refine ⟨⟨⟨base, _, hbase, hafter⟩, fun rx hrx => (hpresent rx).mpr (.inl hrx), fun rx hrx =>
      ?_⟩, (hpresent _).mpr (.inr rfl), fun _ => ?_, fun rx => (hpresent rx).mp⟩
    · dsimp only
      rw [usedBytes_putMail hbase hholds hmailbox hnew, if_neg (hother rx hrx), add_zero]
    · dsimp only
      rw [usedBytes_putMail hbase hholds hmailbox hnew, if_pos rfl]
      exact used_le_of_quotaGate hquota hgate
  · rw [hnot] at hdurable
    cases hdurable

theorem storeLoop_stored (hquota : 0 < cfg.storageQuota) (hdurable : durable cfg env = true)
    {senderAddr : String} {rec : IdentityRecord} {rs : List RecipientRecord} {i : ℕ}
    (hkept : Mailbox.Kept cfg.mb s.disk)
    (h : storeLoop cfg w senderAddr rec env hash i rs s = (s', .ok ())) :
    Stored cfg hash s s' ∧ ∀ r ∈ rs, permitted w r.addr senderAddr rec = true →
      ¬ Mailbox.Present s.disk r.recipientXPub hash → usedBytes cfg s'.disk r.recipientXPub ≤
      cfg.storageQuota := by
  induction rs generalizing i s with
  | nil =>
    cases h
    exact ⟨Stored.refl hkept, fun r hr => by cases hr⟩
  | cons r rs ih =>
    rw [storeLoop] at h
    split at h
    · next hfiltered =>
      obtain ⟨hstored, hrest⟩ := ih hkept h
      refine ⟨hstored, fun r' hr' hpermitted => ?_⟩
      rcases List.mem_cons.mp hr' with rfl | hr'
      · rw [hfiltered] at hpermitted
        cases hpermitted
      · exact hrest r' hr' hpermitted
    · split at h
      · cases h
      · next s₁ hone =>
        obtain ⟨hfirst, hpresent, hle, honly⟩ := storeOne_stored hquota hdurable hkept hone
        obtain ⟨hstored, hrest⟩ := ih hfirst.kept h
        refine ⟨hfirst.trans hstored, fun r' hr' hpermitted hnew => ?_⟩
        -- the first step that brings the message to the recipient decides; the later ones leave the
        -- account
        have hsettled : r'.recipientXPub = r.recipientXPub →
            usedBytes cfg s'.disk r'.recipientXPub ≤ cfg.storageQuota := by
          intro heq
          rw [heq, hstored.used _ hpresent]
          exact hle (heq ▸ hnew)
        rcases List.mem_cons.mp hr' with rfl | hr'
        · exact hsettled rfl
        · by_cases hpresent' : Mailbox.Present s₁.disk r'.recipientXPub hash
          · rcases honly _ hpresent' with hbefore | heq
            · exact absurd hbefore hnew
            · exact hsettled heq
          · exact hrest r' hr' hpermitted hpresent'

end Store

section Steps

variable {cfg : RelayConfig} {s : RelayState}

theorem kvDelete_eq_ok {disk disk' : Disk} {rxHex key : String}
    (h : kvDelete cfg disk rxHex key = .ok disk') :
    disk' = disk ∨ ∃ k, PersonalKv.kvKey rxHex key = .ok k ∧ disk' = disk.erase k := by
  unfold kvDelete PersonalKv.delete at h
  split at h
  · cases h
  · cases hk : PersonalKv.kvKey rxHex key with
    | error e =>
      rw [hk] at h
      cases e <;> cases h
      exact .inl rfl
    | ok k =>
      rw [hk] at h
      cases h
      exact .inr ⟨k, rfl, rfl⟩

theorem kept_storeOne {w : Surroundings} {env : EncryptedEnvelope} {hash : Fixed 32} {i : ℕ}
    {r : RecipientRecord} {s s' : Stores} (hkept : Mailbox.Kept cfg.mb s.disk)
    (h : storeOne cfg w env hash i r.addr s = .ok s') :
    Mailbox.Kept cfg.mb s'.disk := by
  rcases storeOne_eq_ok h with ⟨-, -, ⟨-, rfl⟩ | ⟨habsent, rfl⟩⟩ | ⟨-, rfl⟩
  · exact hkept
  · obtain ⟨base, q, hbase, hholds⟩ := hkept
    exact ⟨base, _, hbase, holds_putMail hbase hholds ((hholds.index_eq_none hbase).mp habsent)⟩
  · exact hkept

theorem kept_storeLoop {w : Surroundings} {senderAddr : String} {rec : IdentityRecord}
    {env : EncryptedEnvelope} {hash : Fixed 32} {rs : List RecipientRecord} {i : ℕ} {s : Stores}
    (hkept : Mailbox.Kept cfg.mb s.disk) :
    Mailbox.Kept cfg.mb (storeLoop cfg w senderAddr rec env hash i rs s).1.disk := by
  induction rs generalizing i s with
  | nil => exact hkept
  | cons r rs ih =>
    rw [storeLoop]
    split
    · exact ih hkept
    · split
      · exact hkept
      · next s₁ hone => exact ih (kept_storeOne hkept hone)

theorem kept_acceptEnvelope (hkept : Mailbox.Kept cfg.mb s.stores.disk)
    {w : Surroundings} {onionRelay : Bool} {senderAddr : String} {senderSig : Bytes}
    {env : EncryptedEnvelope} {hash : Fixed 32} :
    Mailbox.Kept cfg.mb
      (acceptEnvelope cfg w s onionRelay senderAddr senderSig env hash).1.stores.disk := by
  rcases stores_acceptEnvelope_cases cfg w s onionRelay senderAddr senderSig env hash with heq
    | ⟨rec, heq⟩
  · rwa [heq]
  · rw [heq]
    exact kept_storeLoop hkept

theorem kept_account (hkept : Mailbox.Kept cfg.mb s.stores.disk) (call : AccountCall) :
    Mailbox.Kept cfg.mb (s.account cfg call).stores.disk := by
  cases call with
  | accept w onionRelay senderAddr senderSig env hash => exact kept_acceptEnvelope hkept
  | kvPut rx key sealed expectedVersion =>
    unfold RelayState.account
    dsimp only
    split
    · exact hkept
    · next disk version hput =>
      obtain ⟨base, q, hbase, hholds⟩ := hkept
      obtain ⟨k, hk, -, -, rfl⟩ := kvPut_eq_ok hput
      obtain rfl := PersonalKv.kvKey_eq_ok hk
      exact ⟨_, q, foreign_put hbase rfl _, holds_put hholds rfl _⟩
  | mailboxDelete rx hash =>
    obtain ⟨base, q, hbase, hholds⟩ := hkept
    exact ⟨base, _, hbase, hholds.delete hbase rx hash⟩
  | kvDelete rx key =>
    obtain ⟨base, q, hbase, hholds⟩ := hkept
    unfold RelayState.account
    dsimp only
    split
    · exact ⟨base, q, hbase, hholds⟩
    · next disk hdelete =>
      rcases kvDelete_eq_ok hdelete with rfl | ⟨k, hk, rfl⟩
      · exact ⟨base, q, hbase, hholds⟩
      · obtain rfl := PersonalKv.kvKey_eq_ok hk
        exact ⟨_, q, foreign_erase hbase _, holds_erase hholds rfl⟩

theorem keepsQuota_iff (hquota : 0 < cfg.storageQuota) (hkept : Mailbox.Kept cfg.mb s.stores.disk)
    (call : AccountCall) :
    KeepsQuota cfg s call ↔ HasRoom cfg s call := by
  cases call with
  | accept w onionRelay senderAddr senderSig env hash =>
    unfold KeepsQuota HasRoom
    refine forall_congr' fun hdurable => forall_congr' fun rec => forall_congr' fun answer => ?_
    refine forall_congr' fun hresolve => forall_congr' fun haccepted => ?_
    refine forall_congr' fun r => forall_congr' fun hr => forall_congr' fun hpermitted => ?_
    obtain ⟨-, -, -, rec', hgate, hloop⟩ := acceptEnvelope_eq_ok haccepted
    obtain rfl : rec = rec' := Except.ok.inj (hresolve.symm.trans (sender_of_senderGate hgate).1)
    obtain ⟨hstored, hnew⟩ := storeLoop_stored hquota hdurable hkept hloop
    constructor
    · intro hle hpresent
      rwa [hstored.used _ hpresent] at hle
    · intro hroom
      by_cases hpresent : Mailbox.Present s.stores.disk r.recipientXPub hash
      · rw [hstored.used _ hpresent]
        exact hroom hpresent
      · exact hnew r hr hpermitted hpresent
  | kvPut rx key sealed expectedVersion =>
    obtain ⟨base, q, hbase, hholds⟩ := hkept
    unfold KeepsQuota HasRoom
    dsimp only
    cases hput : kvPut cfg s.stores.disk (Hex.encode rx.val) key sealed expectedVersion with
    | error e => simp [Except.toOption]
    | ok result =>
      obtain ⟨disk, version⟩ := result
      obtain ⟨k, hk, -, hhosts, rfl⟩ := kvPut_eq_ok hput
      have hused := @usedBytes_kvPut cfg s.stores.disk rx base q hbase hholds hhosts key k sealed hk
      simp [hk, hused, Except.toOption]
  | mailboxDelete rx hash => exact Iff.rfl
  | kvDelete rx key => exact Iff.rfl

end Steps

/-- In every run of STOREs, KvPuts and deletes from a datastore without mail, each accepted write
keeps its account within the cap exactly if each has room. -/
theorem quota_kept_iff (cfg : RelayConfig) (hquota : 0 < cfg.storageQuota) {s : RelayState}
    (hforeign : Mailbox.Foreign s.stores.disk) (calls : List AccountCall) :
    Machine.Along (RelayState.account cfg) (KeepsQuota cfg) s calls ↔
      Machine.Along (RelayState.account cfg) (HasRoom cfg) s calls := by
  have hkept : Machine.Throughout (RelayState.account cfg)
      (fun s => Mailbox.Kept cfg.mb s.stores.disk) s calls :=
    Machine.throughout_of_invariant ⟨_, [], hforeign, Mailbox.holds_base cfg.mb _⟩ fun s call hs =>
      kept_account hs call
  exact Machine.along_congr hkept fun s call hs => keepsQuota_iff hquota hs call

namespace Capped

noncomputable def cfg₀ (quota : UInt64) : RelayConfig where
  rt := Dmcn.idealRuntime [] []
  mb := Mailbox.idealRuntime
  kv := KvRecord.encoding
  recognizedBodyCID := fun _ => false
  mailbox := true
  personalKv := true
  storageQuota := quota

def s₀ : RelayState := ⟨⟨100, Duration.hour, fun _ => []⟩, fun _ => false, ⟨.empty, ∅⟩⟩

theorem foreign_s₀ : Mailbox.Foreign s₀.stores.disk := fun _ _ => rfl

def write (n : ℕ) : AccountCall := .kvPut (.zero 32) "doc" (List.replicate n 0) 0

theorem kvKey_doc :
    PersonalKv.kvKey (Hex.encode (Fixed.zero 32).val) "doc" =
      .ok (PersonalKv.ownerKey (.zero 32) ++ segments "doc") := by
  apply PersonalKv.kvKey_of_valid
  unfold PersonalKv.validKvKey
  rw [utf8_eq]
  decide

theorem usedBytes_s₀ (quota : UInt64) : usedBytes (cfg₀ quota) s₀.stores.disk (.zero 32) = 0 := by
  have hholds : Mailbox.Holds (cfg₀ quota).mb ∅ ∅ [] := Mailbox.holds_base _ _
  have hmail := hholds.statsOwner (show Mailbox.Foreign ∅ from fun _ _ => rfl) (.zero 32) []
  have hkv := kvUsed_eq ∅ (.zero 32)
  unfold usedBytes accountUsedBytes s₀
  rw [hmail, hkv]
  rfl

theorem kvPut_first {cfg : RelayConfig} {disk : Disk} {rxHex key : String} {k : Key}
    {sealed : Bytes} (hkv : cfg.personalKv = true) (hkey : PersonalKv.kvKey rxHex key = .ok k)
    (hused : accountUsedBytes cfg disk rxHex = 0)
    (hfree : PersonalKv.storedVersion cfg.kv disk k = 0) (hsealed : sealed.length ≠ 0)
    (hroom : UInt64.ofNat sealed.length ≤ cfg.storageQuota) :
    kvPut cfg disk rxHex key sealed 0 =
      .ok (Datastore.put disk k (cfg.kv.marshal ⟨1, sealed⟩), 1) := by
  unfold kvPut PersonalKv.put
  rw [if_neg (by simp [hkv]), hused, hkey, zero_add, if_neg]
  · dsimp only
    rw [if_neg hsealed, hfree, if_neg (by simp), zero_add]
  · rintro ⟨-, hover⟩
    exact absurd hover (UInt64.not_lt.mpr hroom)

theorem kvPut_write {quota : UInt64} {n : ℕ} (hn : n ≠ 0) (hroom : UInt64.ofNat n ≤ quota) :
    kvPut (cfg₀ quota) s₀.stores.disk (Hex.encode (Fixed.zero 32).val) "doc" (List.replicate n 0)
      0 =
      .ok (Datastore.put ∅ (PersonalKv.ownerKey (.zero 32) ++ segments "doc")
        (KvRecord.json ⟨1, List.replicate n 0⟩), 1) := by
  apply kvPut_first rfl kvKey_doc (usedBytes_s₀ quota) rfl
  · rw [List.length_replicate]
    exact hn
  · rw [List.length_replicate]
    exact hroom

theorem usedAfterPut_write (quota : UInt64) (n : ℕ) :
    usedAfterPut (cfg₀ quota) s₀.stores.disk (.zero 32)
      (PersonalKv.ownerKey (.zero 32) ++ segments "doc") (List.replicate n 0) =
      UInt64.ofNat (25 + 4 * ((n + 2) / 3)) := by
  have hlength := KvRecord.length_json ⟨1, List.replicate n 0⟩
  rw [List.length_replicate] at hlength
  unfold usedAfterPut
  rw [usedBytes_s₀]
  change 0 - UInt64.ofNat 0 + UInt64.ofNat (KvRecord.json ⟨1, List.replicate n 0⟩).length = _
  rw [hlength, show (Nat.toDigits 10 (1 : UInt64).toNat).length = 1 from by decide]
  simp

theorem kept_s₀ (quota : UInt64) : Mailbox.Kept (cfg₀ quota).mb s₀.stores.disk :=
  ⟨_, [], foreign_s₀, Mailbox.holds_base _ _⟩

/-- A blob of 40 bytes is accepted under a cap of 40, and 81 bytes are then in use. -/
theorem kvPut_exceeds_quota :
    (kvPut (cfg₀ 40) s₀.stores.disk (Hex.encode (Fixed.zero 32).val) "doc" (List.replicate 40 0)
      0).toOption.isSome = true ∧
    ¬ KeepsQuota (cfg₀ 40) s₀ (write 40) := by
  have hput := @kvPut_write 40 40 (by decide) (by decide)
  have haccepted : (kvPut (cfg₀ 40) s₀.stores.disk (Hex.encode (Fixed.zero 32).val) "doc"
      (List.replicate 40 0) 0).toOption.isSome = true := by
    rw [hput]
    rfl
  refine ⟨haccepted, fun hkeeps => ?_⟩
  have hroom := (keepsQuota_iff (by decide) (kept_s₀ 40) (write 40)).mp hkeeps _ kvKey_doc haccepted
  rw [usedAfterPut_write] at hroom
  exact absurd hroom (by decide)

/-- A blob of one byte has room under the same cap. -/
theorem kvPut_within_quota :
    (kvPut (cfg₀ 40) s₀.stores.disk (Hex.encode (Fixed.zero 32).val) "doc" (List.replicate 1 0)
      0).toOption.isSome = true ∧
    Machine.Along (RelayState.account (cfg₀ 40)) (KeepsQuota (cfg₀ 40)) s₀ [write 1] := by
  have hput := @kvPut_write 40 1 (by decide) (by decide)
  refine ⟨?_, (quota_kept_iff (cfg₀ 40) (by decide) foreign_s₀ [write 1]).mpr
    ⟨fun k hk _ => ?_, trivial⟩⟩
  · rw [hput]
    rfl
  · obtain rfl := Except.ok.inj (kvKey_doc.symm.trans hk)
    rw [usedAfterPut_write]
    decide

end Capped

end Dmcn
