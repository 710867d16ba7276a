import OpenDmcn.IdealRuntime
import OpenDmcn.Relay.AcceptEnvelope

/-! What is accepted against what can be read back. A read answers in one frame, and the frame has a
cap; what is stored is only bounded request by request. Reads fit as long as each recipient's queue,
each mailbox entry and each owner's blobs stay within the cap. -/

namespace Dmcn

open Go Datastore Protobuf

structure Offer where
  w : Surroundings
  senderAddr : String
  senderSig : Bytes
  env : EncryptedEnvelope
  hash : Fixed 32

inductive RelayCall where
  | store (w : Surroundings) (req : Pb.StoreRequest)
  | storeInit (w : Surroundings) (init : Pb.StoreInit) (frames : List Bytes)
  | storeLocal (w : Surroundings) (senderAddr : String) (senderSig : Bytes)
    (env : EncryptedEnvelope)
  | kvPut (rx : Fixed 32) (put : Pb.MailboxKvPutOp)

section Calls

variable (cfg : RelayConfig)

def RelayState.next (s : RelayState) : RelayCall → RelayState
  | .store w req =>
    match readRequest (.store req) with
    | .error _ => s
    | .ok _ => (handleStore cfg w s req).1
  | .storeInit w init frames =>
    match readRequest (.storeInit init) with
    | .error _ => s
    | .ok _ => (handleStoreInit cfg w s init frames).1
  | .storeLocal w senderAddr senderSig env => (storeLocal cfg w s senderAddr senderSig env).1
  | .kvPut rx put =>
    match Dmcn.kvPut cfg s.stores.disk (Hex.encode rx.val) put.key put.sealed put.expectedVersion
      with
    | .error _ => s
    | .ok (disk, _) => { s with stores := { s.stores with disk := disk } }

def RelayCall.offer : RelayCall → Option Offer
  | .store w req => do
    let _ ← (readRequest (.store req)).toOption
    let pb ← req.envelope
    let env ← (EncryptedEnvelope.fromProto pb).toOption
    return ⟨w, req.senderAddress, req.senderSignature, env, envelopeHash cfg pb⟩
  | .storeInit w init frames => do
    let _ ← (readRequest (.storeInit init)).toOption
    let body ← (readChunked init.bodyTotalSize frames).toOption
    let env ← (EncryptedEnvelope.fromProto (StoreInit.envelope init body)).toOption
    return ⟨w, init.senderAddress, init.senderSignature, env, envelopeHash cfg env.toProto⟩
  | .storeLocal w senderAddr senderSig env =>
    some ⟨w, senderAddr, senderSig, env, envelopeHash cfg env.toProto⟩
  | .kvPut _ _ => none

def Offer.sender (o : Offer) (s : RelayState) : Option IdentityRecord :=
  if o.w.draining ∨ (s.limiter.allow o.w.now o.senderAddr).2 = false then none
  else (senderGate cfg o.w s.onionRequired false o.senderAddr o.senderSig o.env o.hash).toOption

def Offer.stored (o : Offer) (s : RelayState) : Stores :=
  (o.sender cfg s).elim s.stores fun rec =>
    (storeLoop cfg o.w o.senderAddr rec o.env o.hash 0 o.env.recipients s.stores).1

variable {cfg}

theorem stores_acceptEnvelope (o : Offer) (s : RelayState) :
    (acceptEnvelope cfg o.w s false o.senderAddr o.senderSig o.env o.hash).1.stores =
      o.stored cfg s := by
  unfold acceptEnvelope Offer.stored Offer.sender
  by_cases hdraining : o.w.draining = true
  · simp [hdraining]
  · by_cases hallowed : (s.limiter.allow o.w.now o.senderAddr).2 = false
    · simp [hdraining, hallowed]
    · simp only [hdraining, hallowed, Bool.false_eq_true, if_false]
      cases senderGate cfg o.w s.onionRequired false o.senderAddr o.senderSig o.env o.hash with
      | error e => rfl
      | ok rec => rfl

theorem stores_next {s : RelayState} {call : RelayCall} (hkv : ∀ rx put, call ≠ .kvPut rx put) :
    (s.next cfg call).stores = (call.offer cfg).elim s.stores fun o => o.stored cfg s := by
  cases call with
  | store w req =>
    simp only [RelayState.next, RelayCall.offer]
    cases readRequest (.store req) with
    | error e => rfl
    | ok _ =>
      simp only [handleStore, Except.toOption]
      cases req.envelope with
      | none => rfl
      | some pb =>
        simp only [Option.bind_eq_bind, Option.bind_some]
        cases EncryptedEnvelope.fromProto pb with
        | error e => rfl
        | ok env =>
          exact stores_acceptEnvelope ⟨w, req.senderAddress, req.senderSignature, env,
            envelopeHash cfg pb⟩ s
  | storeInit w init frames =>
    simp only [RelayState.next, RelayCall.offer]
    cases readRequest (.storeInit init) with
    | error e => rfl
    | ok _ =>
      simp only [handleStoreInit, Except.toOption]
      cases readChunked init.bodyTotalSize frames with
      | error e => rfl
      | ok body =>
        simp only [Option.bind_eq_bind, Option.bind_some]
        cases EncryptedEnvelope.fromProto (StoreInit.envelope init body) with
        | error e => rfl
        | ok env =>
          exact stores_acceptEnvelope
            ⟨w, init.senderAddress, init.senderSignature, env, envelopeHash cfg env.toProto⟩ s
  | storeLocal w senderAddr senderSig env =>
    exact stores_acceptEnvelope ⟨w, senderAddr, senderSig, env, envelopeHash cfg env.toProto⟩ s
  | kvPut rx put => exact absurd rfl (hkv rx put)

end Calls

section Transit

variable {t : MessageStore EncryptedEnvelope}

def queueLoad (t : MessageStore EncryptedEnvelope) (addr : String) : ℕ :=
  ((t.queued addr).map fun se => fetchLoad se.envelope).sum

theorem queueLoad_store_self (now : Time) (addr : String) (env : EncryptedEnvelope)
    (hash : Fixed 32) :
    queueLoad (t.store now addr env hash) addr =
      if (t.find addr hash).isSome then queueLoad t addr else queueLoad t addr + fetchLoad env := by
  unfold MessageStore.store
  cases hfind : t.find addr hash with
  | some se => rfl
  | none =>
    simp [queueLoad, MessageStore.add, MessageStore.index, MessageStore.queued, Index.items_add]

theorem queueLoad_store_ne (now : Time) {addr addr' : String} (env : EncryptedEnvelope)
    (hash : Fixed 32) (hne : addr' ≠ addr) : queueLoad (t.store now addr env hash) addr' =
    queueLoad t addr' := by
  unfold MessageStore.store
  cases hfind : t.find addr hash with
  | some se => rfl
  | none =>
    simp [queueLoad, MessageStore.add, MessageStore.index, MessageStore.queued, Index.items_add,
      hne]

end Transit

section Fit

def Mail.Listable (m : Mail) : Prop :=
  framed 1 (Mailbox.entryOf m.hash m.env m.storedAt).marshal + framed 2 (utf8 (text m.header)) + 5 ≤
    maxMessageSize

/-- Each queue fits a frame, each header fits one with a cursor, and the blobs of each owner fit one
together with any cursor. -/
structure StoresFit (cfg : RelayConfig) (s : Stores) : Prop where
  queues : ∀ addr, queueLoad s.transit addr + 5 ≤ maxMessageSize
  headers : ∀ key value, s.disk.lookup key = some value → under mboxHeaderPrefix key = true →
    ∃ m : Mail, key = m.header ∧
      value = cfg.mb.entry.marshal (Mailbox.entryOf m.hash m.env m.storedAt) ∧ m.Listable
  blobs : ∀ rx key, s.disk.lookup key ≠ none → under (PersonalKv.ownerKey rx) key = true →
    PersonalKv.kvLoad cfg.kv s.disk rx + framed 2 (utf8 (text key)) + 6 ≤ maxMessageSize

def RoomFor (cfg : RelayConfig) (s : Stores) (env : EncryptedEnvelope) (hash : Fixed 32)
    (storedAt : Time) (r : RecipientRecord) : Prop :=
  if durable cfg env then Mail.Listable ⟨r.recipientXPub, hash, env, storedAt⟩
  else (s.transit.find r.addr hash).isSome = true ∨
    queueLoad s.transit r.addr + fetchLoad env + 5 ≤ maxMessageSize

def RoomForBlob (cfg : RelayConfig) (disk : Disk) (rx : Fixed 32) (put : Pb.MailboxKvPutOp) :
    Prop :=
  ∀ k, PersonalKv.kvKey (Hex.encode rx.val) put.key = .ok k →
    ∀ key, key = k ∨ disk.lookup key ≠ none ∧ under (PersonalKv.ownerKey rx) key = true →
      PersonalKv.kvLoadBut cfg.kv disk rx k +
        PersonalKv.itemLoad cfg.kv (Hex.encode rx.val)
          (k, cfg.kv.marshal ⟨PersonalKv.storedVersion cfg.kv disk k + 1, put.sealed⟩) +
        framed 2 (utf8 (text key)) + 6 ≤ maxMessageSize

/-- A call that is accepted leaves room for the reads: each recipient it stores for has room for the
message, and the owner of a blob has room for it. -/
def LeavesRoom (cfg : RelayConfig) (s : RelayState) : RelayCall → Prop
  | .kvPut rx put =>
    (kvPut cfg s.stores.disk (Hex.encode rx.val) put.key put.sealed
      put.expectedVersion).toOption.isSome = true →
      RoomForBlob cfg s.stores.disk rx put
  | call => ∀ o rec, call.offer cfg = some o → o.sender cfg s = some rec →
    ∀ i r, o.env.recipients[i]? = some r →
      permitted o.w r.addr o.senderAddr rec = true →
        RoomFor cfg s.stores o.env o.hash (o.w.storedAt i) r

def ReadsFit (cfg : RelayConfig) (s : Stores) : Prop :=
  ∀ rx, Writable (fetchResponse s rx) ∧
    (∀ limit cursor, Writable (listResponse cfg s rx limit cursor)) ∧
    ∀ pick pre limit cursor values, Writable (kvListResponse cfg s pick rx pre limit cursor values)

variable {cfg : RelayConfig} {s s' : Stores}

theorem eq_header_of_under {m : Mail} {key : Key} (h : key ∈ m.keys)
    (hunder : under mboxHeaderPrefix key = true) :
    key = m.header := by
  simp only [Mail.keys, List.mem_cons, List.not_mem_nil, or_false] at h
  rcases h with rfl | rfl | rfl
  · rfl
  · exact absurd hunder (by simp [under, mboxHeaderPrefix, Mail.body])
  · exact absurd hunder (by simp [under, mboxHeaderPrefix, Mail.index])

theorem StoresFit.putMail (h : StoresFit cfg s) {m : Mail} (hlist : m.Listable) :
    StoresFit cfg { s with disk := putAll s.disk (m.writes cfg.mb) } where
  queues := h.queues
  headers := by
    intro key value hlookup hunder
    by_cases hmem : key ∈ (m.writes cfg.mb).map Prod.fst
    · obtain rfl := eq_header_of_under hmem hunder
      have hnodup : ((m.writes cfg.mb).map Prod.fst).Nodup := m.nodup_keys
      have hput := lookup_putAll_of_mem (d := s.disk) hnodup (List.mem_cons_self ..)
      exact ⟨m, rfl, Option.some.inj (hlookup.symm.trans hput), hlist⟩
    · rw [lookup_putAll_of_notMem hmem] at hlookup
      exact h.headers key value hlookup hunder
  blobs := by
    have hsame : ∀ rx key, under (PersonalKv.ownerKey rx) key = true →
        (putAll s.disk (m.writes cfg.mb)).lookup key = s.disk.lookup key := by
      intro rx key hunder
      apply lookup_putAll_of_notMem
      intro hmem
      rw [not_under_ownerKey hmem rx] at hunder
      cases hunder
    intro rx key hlookup hunder
    dsimp only at hlookup ⊢
    rw [hsame rx key hunder] at hlookup
    rw [PersonalKv.kvLoad_eq (hsame rx)]
    exact h.blobs rx key hlookup hunder

theorem StoresFit.storeOne (h : StoresFit cfg s) {w : Surroundings} {env : EncryptedEnvelope}
    {hash : Fixed 32} {i : ℕ} {r : RecipientRecord}
    (hroom : RoomFor cfg s env hash (w.storedAt i) r)
    (hstore : storeOne cfg w env hash i r.addr s = .ok s') : StoresFit cfg s' := by
  unfold RoomFor at hroom
  rcases storeOne_eq_ok hstore with ⟨hdurable, -, ⟨-, rfl⟩ | ⟨-, rfl⟩⟩ | ⟨hdurable, rfl⟩
  · exact h
  · rw [if_pos hdurable] at hroom
    exact h.putMail hroom
  · rw [if_neg (by simp [hdurable])] at hroom
    refine ⟨fun addr => ?_, h.headers, h.blobs⟩
    have hqueue := h.queues addr
    by_cases haddr : addr = r.addr
    · subst haddr
      dsimp only
      rw [queueLoad_store_self]
      split
      · exact hqueue
      · next hnew =>
        rcases hroom with hfound | hroom
        · exact absurd hfound hnew
        · exact hroom
    · dsimp only
      rw [queueLoad_store_ne _ _ _ haddr]
      exact hqueue

theorem RoomFor.storeOne {w : Surroundings} {env : EncryptedEnvelope} {hash : Fixed 32} {i : ℕ}
    {storedAt : Time} {r r' : RecipientRecord} (h : RoomFor cfg s env hash storedAt r')
    (hstore : storeOne cfg w env hash i r.addr s = .ok s') :
    RoomFor cfg s' env hash storedAt r' := by
  unfold RoomFor at h ⊢
  rcases storeOne_eq_ok hstore with ⟨hdurable, -⟩ | ⟨hdurable, rfl⟩
  · rw [if_pos hdurable] at h ⊢
    exact h
  · rw [if_neg (by simp [hdurable])] at h ⊢
    dsimp only
    rcases h with hfound | hroom
    · exact .inl (MessageStore.find_store_of_find _ _ _ _ hfound)
    · by_cases haddr : r'.addr = r.addr
      · rw [haddr]
        exact .inl (MessageStore.find_store_self _ _ _ _)
      · rw [queueLoad_store_ne _ _ _ haddr]
        exact .inr hroom

theorem StoresFit.storeLoop (h : StoresFit cfg s) {w : Surroundings} {senderAddr : String}
    {rec : IdentityRecord} {env : EncryptedEnvelope} {hash : Fixed 32} {rs : List RecipientRecord}
    {i : ℕ} (hroom : ∀ j r, rs[j]? = some r → permitted w r.addr senderAddr rec = true →
      RoomFor cfg s env hash (w.storedAt (i + j)) r) :
    StoresFit cfg (storeLoop cfg w senderAddr rec env hash i rs s).1 := by
  induction rs generalizing i s with
  | nil => exact h
  | cons r rs ih =>
    have hlater : ∀ j r', rs[j]? = some r' → permitted w r'.addr senderAddr rec = true →
        RoomFor cfg s env hash (w.storedAt (i + 1 + j)) r' := by
      intro j r' hr' hpermitted
      rw [show i + 1 + j = i + (j + 1) by omega]
      exact hroom (j + 1) r' hr' hpermitted
    rw [Dmcn.storeLoop]
    split
    · exact ih h hlater
    · next hpermitted =>
      have hfirst := hroom 0 r rfl (by simpa using hpermitted)
      split
      · exact h
      · next s' hstore =>
        exact ih (h.storeOne hfirst hstore) fun j r' hr' hp => (hlater j r' hr' hp).storeOne hstore

theorem StoresFit.kvPut (h : StoresFit cfg s) {rx : Fixed 32} {put : Pb.MailboxKvPutOp}
    {disk' : Disk} {version : UInt64} (hroom : RoomForBlob cfg s.disk rx put)
    (hput : kvPut cfg s.disk (Hex.encode rx.val) put.key put.sealed put.expectedVersion =
      .ok (disk', version)) :
    StoresFit cfg { s with disk := disk' } := by
  obtain ⟨k, hk, -, -, rfl⟩ := kvPut_eq_ok hput
  have hroom := hroom k hk
  obtain rfl := PersonalKv.kvKey_eq_ok hk
  refine ⟨h.queues, fun key value hlookup hunder => ?_, fun rx' key hlookup hunder => ?_⟩
  · have hne : key ≠ PersonalKv.ownerKey rx ++ segments put.key := by
      rintro rfl
      cases hunder
    dsimp only at hlookup
    rw [lookup_put, if_neg hne] at hlookup
    exact h.headers key value hlookup hunder
  · dsimp only at hlookup ⊢
    by_cases hrx : rx' = rx
    · subst hrx
      rw [PersonalKv.kvLoad_put _ (under_append (PersonalKv.segments_ne_nil _))]
      apply hroom
      rw [lookup_put] at hlookup
      split at hlookup
      · next heq => exact .inl heq
      · exact .inr ⟨hlookup, hunder⟩
    · -- the blob is not one of this owner's
      have hsame : ∀ key', under (PersonalKv.ownerKey rx') key' = true → (Datastore.put s.disk
          (PersonalKv.ownerKey rx ++ segments put.key) (cfg.kv.marshal
            ⟨PersonalKv.storedVersion cfg.kv s.disk (PersonalKv.ownerKey rx ++ segments put.key) +
              1, put.sealed⟩)).lookup key' = s.disk.lookup key' := by
        intro key' hunder'
        rw [lookup_put, if_neg]
        rintro rfl
        exact hrx (PersonalKv.under_ownerKey hunder')
      rw [hsame key hunder] at hlookup
      rw [PersonalKv.kvLoad_eq hsame]
      exact h.blobs rx' key hlookup hunder

theorem StoresFit.next {s : RelayState} (h : StoresFit cfg s.stores) {call : RelayCall}
    (hroom : LeavesRoom cfg s call) : StoresFit cfg (s.next cfg call).stores := by
  have hoffer : (∀ rx put, call ≠ .kvPut rx put) →
      (∀ o rec, call.offer cfg = some o → o.sender cfg s = some rec →
      ∀ i r, o.env.recipients[i]? = some r → permitted o.w r.addr o.senderAddr rec = true →
        RoomFor cfg s.stores o.env o.hash (o.w.storedAt i) r) →
          StoresFit cfg (s.next cfg call).stores := by
    intro hkv hroom
    rw [stores_next hkv]
    cases ho : call.offer cfg with
    | none => exact h
    | some o =>
      rw [Option.elim_some, Offer.stored]
      cases hrec : o.sender cfg s with
      | none => exact h
      | some rec =>
        apply h.storeLoop
        intro j r hr hpermitted
        rw [Nat.zero_add]
        exact hroom o rec ho hrec j r hr hpermitted
  cases call with
  | store w req => exact hoffer (fun _ _ => nofun) hroom
  | storeInit w init frames => exact hoffer (fun _ _ => nofun) hroom
  | storeLocal w senderAddr senderSig env => exact hoffer (fun _ _ => nofun) hroom
  | kvPut rx put =>
    unfold LeavesRoom at hroom
    unfold RelayState.next
    dsimp only
    split
    · exact h
    · next disk' version hput =>
      exact h.kvPut (hroom (by rw [hput]; rfl)) hput

end Fit

section Reads

variable {cfg : RelayConfig} {s : Stores}

def EntrySized (mb : MailboxRuntime) : Prop := ∀ e, (mb.entry.marshal e).length = e.marshal.length

theorem StoresFit.fetch (h : StoresFit cfg s) (rx : Fixed 32) : Writable (fetchResponse s rx) := by
  have hqueue := h.queues (Hex.encode rx.val)
  unfold fetchResponse MessageStore.fetch
  dsimp only
  rw [writable_fetch (by rw [List.length_map, List.length_map]), List.map_map]
  exact hqueue

theorem listLoop_size {rt : MailboxRuntime} {limit : ℤ} (skip : String → Bool)
    {rs : List (Key × Bytes)}
    (hread : ∀ r ∈ rs, ∀ e, rt.entry.unmarshal r.2 = some e → e.marshal.length = r.2.length)
    (entries : List (Key × Pb.MailboxEntry)) (size : ℕ) (lastKey : String)
    (hsize : (entries.map fun e => e.2.marshal.length).sum = size)
    (hlimit : (entries.length : ℤ) ≤ limit)
    (hbudget : entries.length ≤ 1 ∨ size ≤ Mailbox.listByteBudget) :
    ((Mailbox.listLoop rt limit skip rs entries size lastKey).entries.length ≤ 1 ∨
      ((Mailbox.listLoop rt limit skip rs entries size lastKey).entries.map fun e =>
        e.2.marshal.length).sum ≤
        Mailbox.listByteBudget) ∧
    ((Mailbox.listLoop rt limit skip rs entries size lastKey).entries.length : ℤ) ≤ limit := by
  induction rs generalizing entries size lastKey with
  | nil =>
    rw [← hsize] at hbudget
    exact ⟨hbudget, hlimit⟩
  | cons r rs ih =>
    have ih := ih fun r' hr' => hread r' (List.mem_cons_of_mem _ hr')
    rw [Mailbox.listLoop]
    split
    · exact ih _ _ _ hsize hlimit hbudget
    · split
      · rw [← hsize] at hbudget
        exact ⟨hbudget, hlimit⟩
      · next hfull =>
        rw [not_or, not_and, not_le, not_lt] at hfull
        split
        · exact ih _ _ _ hsize hlimit hbudget
        · next e he =>
          have hlength := hread r (List.mem_cons_self ..) e he
          apply ih
          · rw [List.map_append, List.sum_append, hsize, List.map_singleton, List.sum_singleton,
              hlength]
          · rw [List.length_append, List.length_singleton]
            push_cast
            omega
          · rw [List.length_append, List.length_singleton]
            by_cases hempty : entries.length > 0
            · exact .inr (hfull.2 hempty)
            · omega

theorem framed_le {num : ℕ} (hnum : num < 16) {b : Bytes} (hb : b.length < 128 ^ 4) :
    framed num b ≤ b.length + 5 := by
  have htag : (varint (8 * num + 2)).length ≤ 1 := length_varint_le (by omega)
  have hlength : (varint b.length).length ≤ 4 := length_varint_le hb
  unfold framed
  omega

theorem length_text_header (m : Mail) : (utf8 (text m.header)).length ≤ 640 := by
  have hhex : ∀ x : Fixed 32, (Hex.encode x.val).toList.length = 64 := by
    intro x
    rw [Hex.encode, String.toList_ofList, Hex.length_encodeChars, x.length_val]
  have hparts : ∀ a b c : String, a.toList.length = 64 → b.toList.length ≤ 20 →
      c.toList.length = 64 →
      (text ["mbox", "h", a, b, c]).toList.length ≤ 160 := by
    intro a b c ha hb hc
    have hfixed : "mbox".toList.length = 4 ∧ "h".toList.length = 1 := by decide
    rw [toList_text (List.cons_ne_nil _ _)]
    simp only [List.flatMap_cons, List.flatMap_nil, List.length_append, List.length_cons,
      List.length_nil, ha, hc, hfixed]
    omega
  have hchars :=
    hparts _ _ _ (hhex m.rx) (Strings.length_padded_le m.storedAt.unixNano) (hhex m.hash)
  exact (length_utf8_le (text m.header)).trans (Nat.mul_le_mul_left 4 hchars)

theorem writable_error {code text : String} (h : code.toList.length + text.toList.length ≤ 250) :
    Writable (.error code text) := by
  have hcode := length_utf8_le code
  have htext := length_utf8_le text
  have hfield : ∀ (num : ℕ) (b : Bytes), num < 16 → b.length ≤ 1000 →
      (encode (bytes num b)).length ≤ b.length + 5 := by
    intro num b hnum hb
    rw [length_encode_bytes]
    split
    · omega
    · exact framed_le hnum (Nat.lt_of_le_of_lt hb (by decide))
  have hfirst := hfield 1 (utf8 code) (by decide) (by omega)
  have hsecond := hfield 2 (utf8 text) (by decide) (by omega)
  rw [writable_iff, Pb.RelayResponse.marshal, length_encode_message]
  refine (framed_le (by decide) ?_).trans ?_
  · rw [length_encode_append]
    exact Nat.lt_of_le_of_lt (show _ ≤ 2010 by omega) (by decide)
  · rw [length_encode_append]
    exact (show _ ≤ 2015 by omega).trans (by decide)

theorem writable_page {entries : List Pb.MailboxEntry} {cursor : String}
    (hsum : (entries.map fun e => e.marshal.length).sum ≤ Mailbox.listByteBudget)
    (hcount : entries.length ≤ 1000) (hcursor : (utf8 cursor).length ≤ 640) :
    Writable (.mailboxList entries (utf8 cursor)) := by
  have heach : ∀ e ∈ entries, framed 1 e.marshal ≤ e.marshal.length + 5 := by
    intro e he
    have hle : e.marshal.length ≤ (entries.map fun e => e.marshal.length).sum :=
      List.single_le_sum (fun _ _ => Nat.zero_le _) _ (List.mem_map_of_mem he)
    exact framed_le (by decide) (Nat.lt_of_le_of_lt (hle.trans hsum) (by decide))
  have htotal : (entries.map fun e => framed 1 e.marshal).sum ≤
      (entries.map fun e => e.marshal.length).sum + 5 * entries.length := by
    refine (List.sum_le_sum heach).trans ?_
    rw [List.sum_map_add, List.map_const', List.sum_replicate_nat, mul_comm]
  have hlast : cursorLoad cursor ≤ 645 := by
    refine (cursorLoad_le cursor).trans ((framed_le (by decide) ?_).trans ?_)
    · exact Nat.lt_of_le_of_lt hcursor (by decide)
    · omega
  rw [writable_mailboxList]
  unfold Mailbox.listByteBudget at hsum
  unfold maxMessageSize
  omega

theorem StoresFit.mail_of_lookup (h : StoresFit cfg s) {rx : Fixed 32} {key : Key} {value : Bytes}
    (hlookup : s.disk.lookup key = some value)
    (hunder : under (Mailbox.headerPrefix (Hex.encode rx.val)) key = true) :
    ∃ m : Mail, key = m.header ∧
      value = cfg.mb.entry.marshal (Mailbox.entryOf m.hash m.env m.storedAt) ∧
      m.Listable := by
  apply h.headers key value hlookup
  rw [headerPrefix_eq] at hunder
  unfold under at hunder ⊢
  rw [Bool.and_eq_true, List.isPrefixOf_iff_prefix, decide_eq_true_iff] at hunder ⊢
  refine ⟨List.IsPrefix.trans ⟨[Hex.encode rx.val], rfl⟩ hunder.1, ?_⟩
  exact Nat.lt_trans (show 2 < 3 by decide) hunder.2

theorem StoresFit.mail_of_page (h : StoresFit cfg s) {rx : Fixed 32} {limit : ℤ} {cursor : String}
    {e : Key × Pb.MailboxEntry}
    (he : e ∈ (Mailbox.list cfg.mb s.disk (Hex.encode rx.val) limit cursor .newestFirst).entries) :
    ∃ m : Mail, e = (m.header, Mailbox.entryOf m.hash m.env m.storedAt) ∧ m.Listable := by
  obtain ⟨taken, rest, hmem, -, hentries, -⟩ :=
    Mailbox.list_spec cfg.mb rx limit cursor .newestFirst s.disk
  obtain ⟨key, e⟩ := e
  rw [hentries] at he
  obtain ⟨value, hr, hvalue⟩ := Mailbox.mem_filterMap_readEntry.mp he
  obtain ⟨hlookup, hunder, -⟩ := (hmem key value).mp (List.mem_append_left _ hr)
  obtain ⟨m, rfl, rfl, hlist⟩ := h.mail_of_lookup hlookup hunder
  rw [cfg.mb.entry.unmarshal_marshal] at hvalue
  cases hvalue
  exact ⟨m, rfl, hlist⟩

theorem StoresFit.page_size (h : StoresFit cfg s) (hsized : EntrySized cfg.mb) (rx : Fixed 32)
    (limit : ℤ) (cursor : String) :
    ((Mailbox.list cfg.mb s.disk (Hex.encode rx.val) limit cursor .newestFirst).entries.length ≤ 1 ∨
      ((Mailbox.list cfg.mb s.disk (Hex.encode rx.val) limit cursor .newestFirst).entries.map
        fun e => e.2.marshal.length).sum ≤ Mailbox.listByteBudget) ∧
    (Mailbox.list cfg.mb s.disk (Hex.encode rx.val) limit cursor .newestFirst).entries.length ≤
      1000 := by
  have hread : ∀ r ∈ Mailbox.sortedQuery .newestFirst (Mailbox.headerPrefix (Hex.encode rx.val))
      s.disk, ∀ e,
      cfg.mb.entry.unmarshal r.2 = some e → e.marshal.length = r.2.length := by
    rintro ⟨key, value⟩ hr e he
    obtain ⟨hlookup, hunder⟩ := Mailbox.mem_sortedQuery.mp hr
    obtain ⟨m, rfl, rfl, -⟩ := h.mail_of_lookup hlookup hunder
    rw [cfg.mb.entry.unmarshal_marshal] at he
    cases he
    exact (hsized _).symm
  have hclamp : Mailbox.clampLimit limit ≤ 1000 := by
    unfold Mailbox.clampLimit Mailbox.maxListLimit Mailbox.defaultListLimit
    dsimp only
    split
    · split
      · omega
      · omega
    · split
      · omega
      · omega
  obtain ⟨hbudget, hlimit⟩ := listLoop_size
    (fun key => cursor != "" && !Mailbox.ListOrder.newestFirst.past cursor key) hread [] 0 "" rfl
    (Mailbox.clampLimit_pos limit).le (.inl (Nat.zero_le 1))
  exact ⟨hbudget, by exact_mod_cast hlimit.trans hclamp⟩

theorem StoresFit.list (h : StoresFit cfg s) (hsized : EntrySized cfg.mb) (rx : Fixed 32)
    (limit : UInt32) (cursor : String) : Writable (listResponse cfg s rx limit cursor) := by
  unfold listResponse
  split
  · exact writable_error (by decide)
  · obtain ⟨hbudget, hcount⟩ := h.page_size hsized rx limit.toNat cursor
    have hmail : ∀ e ∈
        (Mailbox.list cfg.mb s.disk (Hex.encode rx.val) limit.toNat cursor .newestFirst).entries,
        ∃ m : Mail, e = (m.header, Mailbox.entryOf m.hash m.env m.storedAt) ∧ m.Listable :=
      fun e he => h.mail_of_page he
    have hnext : (Mailbox.list cfg.mb s.disk (Hex.encode rx.val) limit.toNat cursor
      .newestFirst).nextCursor = "" ∨
        ∃ init last, (Mailbox.list cfg.mb s.disk (Hex.encode rx.val) limit.toNat cursor
          .newestFirst).entries =
          init ++ [last] ∧
          (Mailbox.list cfg.mb s.disk (Hex.encode rx.val) limit.toNat cursor
            .newestFirst).nextCursor =
            text last.1 := by
      obtain ⟨taken, rest, -, -, hentries, hend⟩ :=
        Mailbox.list_spec cfg.mb rx limit.toNat cursor .newestFirst s.disk
      rw [hentries]
      exact hend.imp (fun hlast => hlast.2) fun hmore => hmore.2
    generalize Mailbox.list cfg.mb s.disk (Hex.encode rx.val) limit.toNat cursor .newestFirst =
      page at *
    obtain ⟨entries, next⟩ := page
    dsimp only at *
    rcases hbudget with hone | hsum
    · rcases hnext with rfl | ⟨init, last, rfl, rfl⟩
      · rw [writable_mailboxList, cursorLoad_empty]
        rcases entries with - | ⟨e, rest⟩
        · decide
        · obtain rfl : rest = [] :=
            List.length_eq_zero_iff.mp (Nat.le_zero.mp (Nat.le_of_succ_le_succ hone))
          obtain ⟨m, rfl, hlist⟩ := hmail e (List.mem_cons_self ..)
          unfold Mail.Listable at hlist
          rw [List.map_singleton, List.map_singleton, List.sum_singleton]
          dsimp only
          omega
      · obtain rfl : init = [] := by
          rw [List.length_append, List.length_singleton] at hone
          exact List.length_eq_zero_iff.mp (by omega)
        obtain ⟨m, rfl, hlist⟩ := hmail last (by simp)
        have hcursor := cursorLoad_le (text m.header)
        unfold Mail.Listable at hlist
        rw [writable_mailboxList, List.nil_append, List.map_singleton, List.map_singleton,
          List.sum_singleton]
        dsimp only
        omega
    · apply writable_page
      · rwa [List.map_map]
      · rwa [List.length_map]
      · rcases hnext with rfl | ⟨init, last, rfl, rfl⟩
        · decide
        · obtain ⟨m, rfl, -⟩ := hmail last (by simp)
          exact length_text_header m

theorem StoresFit.kvLoad_le (h : StoresFit cfg s) (rx : Fixed 32) :
    PersonalKv.kvLoad cfg.kv s.disk rx + 6 ≤ maxMessageSize := by
  cases hquery : query (PersonalKv.ownerKey rx) [] s.disk with
  | nil =>
    unfold PersonalKv.kvLoad
    rw [hquery]
    exact (show 6 ≤ maxMessageSize by decide)
  | cons r rs =>
    have hr : (r.1, r.2) ∈ query (PersonalKv.ownerKey rx) [] s.disk := by
      rw [hquery]
      exact List.mem_cons_self ..
    obtain ⟨hlookup, hunder⟩ := mem_query.mp hr
    have hblob := h.blobs rx r.1 (by simp [hlookup]) hunder
    omega

theorem StoresFit.kvList (h : StoresFit cfg s) (pick : List Key) (rx : Fixed 32) (pre : String)
    (limit : UInt32) (cursor : String) (values : Bool) :
    Writable (kvListResponse cfg s pick rx pre limit cursor values) := by
  unfold kvListResponse
  split
  · exact writable_error (by decide)
  · split
    · exact writable_error (by decide)
    · split
      · exact writable_error (by decide)
      · next items next hlist =>
        obtain ⟨hload, hnext⟩ := PersonalKv.load_list hlist
        have hall := h.kvLoad_le rx
        rw [writable_mailboxKvList, List.map_map]
        change (items.map fun it => framed 1 it.toProto.marshal).sum + cursorLoad next + 6 ≤
          maxMessageSize
        rcases hnext with rfl | ⟨key, hlookup, hunder, rfl⟩
        · rw [cursorLoad_empty]
          omega
        · have hblob := h.blobs rx key hlookup hunder
          have hcursor := cursorLoad_le (text key)
          omega

theorem StoresFit.readsFit (h : StoresFit cfg s) (hsized : EntrySized cfg.mb) : ReadsFit cfg s :=
  fun rx => ⟨h.fetch rx, fun limit cursor => h.list hsized rx limit cursor,
    fun pick pre limit cursor values => h.kvList pick rx pre limit cursor values⟩

end Reads

structure Stores.Fresh (s : Stores) : Prop where
  transit : s.transit = .empty
  mail : ∀ key, under mboxHeaderPrefix key = true → s.disk.lookup key = none
  blobs : ∀ rx key, under (PersonalKv.ownerKey rx) key = true → s.disk.lookup key = none

theorem Stores.Fresh.fit {cfg : RelayConfig} {s : Stores} (h : s.Fresh) : StoresFit cfg s where
  queues := by
    intro addr
    rw [h.transit]
    exact (show 0 + 5 ≤ maxMessageSize by decide)
  headers := by
    intro key value hlookup hunder
    rw [h.mail key hunder] at hlookup
    cases hlookup
  blobs := fun rx key hlookup hunder => absurd (h.blobs rx key hunder) hlookup

/-- In a run whose calls all leave room, every state reached answers every FETCH, LIST and KV LIST
of every owner within one frame. -/
theorem reads_fit_of_room (cfg : RelayConfig) (hsized : EntrySized cfg.mb) {s : RelayState}
    (hfresh : s.stores.Fresh) {calls : List RelayCall}
    (hroom : Machine.Along (RelayState.next cfg) (LeavesRoom cfg) s calls) :
    Machine.Throughout (RelayState.next cfg) (fun s => ReadsFit cfg s.stores) s calls := by
  have hfit : Machine.Throughout (RelayState.next cfg) (fun s => StoresFit cfg s.stores) s calls :=
    Machine.throughout_of_along hfresh.fit (fun s call hs hcall => hs.next hcall) hroom
  exact hfit.imp fun s hs => hs.readsFit hsized

namespace Oversized

noncomputable def cfg₀ : RelayConfig where
  rt := Dmcn.idealRuntime [keyOf 1] []
  mb := ⟨Pb.MailboxEntry.codec, someCodec _⟩
  kv := (someCodec KvRecord).toEncoding
  recognizedBodyCID := fun _ => false
  mailbox := true
  personalKv := true
  storageQuota := 0

def sender : IdentityRecord := .ofMessage (plainRecord "a@b" 1) []

def w₀ : Surroundings where
  now := Time.ofUnix 7
  draining := false
  resolve := fun _ => .ok sender
  fetchPolicy := none
  storeVouchExempt := none
  permits := none
  quotaFails := fun _ => false
  storeFails := fun _ => false
  storedAt := fun _ => Time.ofUnix 7

def s₀ : RelayState := ⟨⟨100, Duration.hour, fun _ => []⟩, fun _ => false, ⟨.empty, ∅⟩⟩

theorem fresh_s₀ : s₀.stores.Fresh := ⟨rfl, fun _ _ => rfl, fun _ _ _ => rfl⟩

theorem entrySized_cfg₀ : EntrySized cfg₀.mb := fun _ => rfl

def recipient : RecipientRecord := ⟨.zero 16, .zero 32, .zero 32, [], .zero 12, .zero 16, 0⟩

def pbRecipient : Pb.RecipientRecord := ⟨[], (Fixed.zero 32).val, [], [], [], [], 0⟩

def envelope (header : Bytes) : EncryptedEnvelope :=
  ⟨0, .zero 16, [recipient], [], .zero 12, .zero 16, 0, 0, .zero 32, header, .zero 12, .zero 16, 0,
    [], .zero 12, .zero 16, 0, []⟩

def pbEnvelope (header : Bytes) : Pb.EncryptedEnvelope :=
  ⟨0, [], [pbRecipient], [], [], [], 0, 0, [], header, [], [], 0, [], [], [], 0, []⟩

def signature : Bytes := List.replicate 64 0

def request (header : Bytes) : Pb.StoreRequest := ⟨"a@b", signature, some (pbEnvelope header)⟩

variable {header : Bytes}

theorem fromProto_pbEnvelope (h : header ≠ []) :
    EncryptedEnvelope.fromProto (pbEnvelope header) = .ok (envelope header) := by
  obtain ⟨b, bs, rfl⟩ := List.exists_cons_of_ne_nil h
  rfl

theorem allow_s₀ : (s₀.limiter.allow w₀.now "a@b").2 = true := by decide

theorem senderGate_envelope (header : Bytes) (hash : Fixed 32) :
    senderGate cfg₀ w₀ s₀.onionRequired false "a@b" signature (envelope header) hash =
      .ok sender := by
  have hverify : Crypto.verify cfg₀.rt sender.ed25519Public hash.val signature = true := by
    simp [signature, Crypto.verify, Crypto.ed25519PublicKeySize, Crypto.ed25519SignatureSize, cfg₀,
      Dmcn.idealRuntime, Ideal.tableVerify, sender, IdentityRecord.ofMessage, plainRecord]
  have hbody : (envelope header).verifyBodyContentAddress cfg₀ = true := by
    simp [EncryptedEnvelope.verifyBodyContentAddress, envelope]
  simp [senderGate, s₀, w₀, hverify, hbody]

def mail (header : Bytes) (hash : Fixed 32) : Mail :=
  ⟨.zero 32, hash, envelope header, Time.ofUnix 7⟩

theorem storeLoop_envelope (h : header ≠ []) (hash : Fixed 32) :
    storeLoop cfg₀ w₀ "a@b" sender (envelope header) hash 0 (envelope header).recipients s₀.stores =
      (⟨.empty, putAll ∅ ((mail header hash).writes cfg₀.mb)⟩, .ok ()) := by
  have hsplit : (envelope header).isSplit = true := by
    simpa [EncryptedEnvelope.isSplit, envelope] using List.length_pos_of_ne_nil h
  have hbatch := Mail.storeBatch_eq cfg₀.mb (mail header hash)
  have hone : storeOne cfg₀ w₀ (envelope header) hash 0 recipient.addr s₀.stores =
      .ok ⟨.empty, putAll ∅ ((mail header hash).writes cfg₀.mb)⟩ := by
    rw [← hbatch]
    simp [storeOne, durable, hsplit, quotaGate, Mailbox.store, cfg₀, w₀, s₀, mail]
    rfl
  change storeLoop cfg₀ w₀ "a@b" sender (envelope header) hash 0 [recipient] s₀.stores = _
  rw [storeLoop, if_neg (by simp [permitted, w₀]), hone]
  rfl

theorem framed_large {num : ℕ} (hnum : num < 16) {b : Bytes} (hlow : 128 ^ 3 ≤ b.length)
    (hhigh : b.length < 128 ^ 4) : framed num b = b.length + 5 := by
  have htag : (varint (8 * num + 2)).length = 1 := length_varint_eq (by omega) (by omega)
  unfold framed
  rw [htag, length_varint_eq hlow hhigh]
  omega

theorem ne_nil_of_large (h : 128 ^ 3 ≤ header.length) : header ≠ [] := by
  rintro rfl
  simp at h

theorem length_sender : (encode (bytes 1 (utf8 "a@b"))).length = 5 := by
  have hbytes : utf8 "a@b" = [97, 64, 98] := by
    rw [utf8_eq]
    decide
  rw [hbytes, length_encode_bytes, if_neg (by decide), framed_small (by decide) (by decide)]
  rfl

theorem length_request (hlow : 128 ^ 3 ≤ header.length) (hhigh : header.length + 200 < 128 ^ 4) :
    (Pb.RelayRequest.store (request header)).marshal.length = header.length + 122 := by
  have hrecipient : (pbRecipient.marshal).length = 34 := by
    have hkey := length_bytes_fixed (show 2 < 16 by decide) (Fixed.zero 32) (by decide) (by decide)
    simpa [Pb.RecipientRecord.marshal, Pb.RecipientRecord.fields, pbRecipient] using hkey
  have henvelope : (pbEnvelope header).marshal.length = header.length + 41 := by
    have hheader := framed_large (show 10 < 16 by decide) hlow (by omega)
    have hrecord : framed 3 pbRecipient.marshal = 36 := by
      rw [framed_small (by decide) (by omega), hrecipient]
    have hfields : (pbEnvelope header).fields = repeated 3 [pbRecipient.marshal] ++
        bytes 10 header := by
      delta Pb.EncryptedEnvelope.fields pbEnvelope
      simp [show (Int64.toUInt64 0).toNat = 0 from rfl]
    rw [Pb.EncryptedEnvelope.marshal, hfields, length_encode_append, length_encode_repeated,
      length_encode_bytes, if_neg (ne_nil_of_large hlow), hheader, List.map_singleton,
        List.sum_singleton, hrecord]
    omega
  have hrequest : (request header).marshal.length = header.length + 117 := by
    have hinner := framed_large (show 3 < 16 by decide) (b := (pbEnvelope header).marshal)
      (by omega) (by omega)
    have hsig : (encode (bytes 2 signature)).length = 66 :=
      length_bytes_fixed (show 2 < 16 by decide) (Fixed.zero 64) (by decide) (by decide)
    rw [Pb.StoreRequest.marshal, length_encode_append, length_encode_append]
    dsimp only [request, Option.elim_some]
    rw [length_sender, hsig, length_encode_message, hinner, henvelope]
    omega
  have houter :=
    framed_large (show 1 < 16 by decide) (b := (request header).marshal) (by omega) (by omega)
  rw [Pb.RelayRequest.marshal, length_encode_message, houter, hrequest]

theorem length_entry (hlow : 128 ^ 3 ≤ header.length) (hhigh : header.length + 200 < 128 ^ 4)
    (hash : Fixed 32) :
    (Mailbox.entryOf hash (envelope header) (Time.ofUnix 7)).marshal.length = header.length +
      193 := by
  have hrecipient : recipient.toProto.marshal.length = 118 := by
    have hfields : recipient.toProto.fields = bytes 1 (Fixed.zero 16).val ++
        bytes 2 (Fixed.zero 32).val ++
        bytes 3 (Fixed.zero 32).val ++ bytes 5 (Fixed.zero 12).val ++
          bytes 6 (Fixed.zero 16).val := by
      simp [Pb.RecipientRecord.fields, RecipientRecord.toProto, recipient]
    rw [Pb.RecipientRecord.marshal, hfields]
    simp only [length_encode_append]
    rw [length_bytes_fixed (by decide) _ (by decide) (by decide),
      length_bytes_fixed (by decide) _ (by decide) (by decide),
      length_bytes_fixed (by decide) _ (by decide) (by decide),
      length_bytes_fixed (by decide) _ (by decide) (by decide),
      length_bytes_fixed (by decide) _ (by decide) (by decide)]
  have hrecord : framed 4 recipient.toProto.marshal = 120 := by
    rw [framed_small (by decide) (by omega), hrecipient]
  have hheader := framed_large (show 5 < 16 by decide) hlow (by omega)
  have hentry : Mailbox.entryOf hash (envelope header) (Time.ofUnix 7) =
      ⟨hash.val, 7, 0, [recipient.toProto], header, (Fixed.zero 12).val, (Fixed.zero 16).val, 0,
        []⟩ := by
    simp [Mailbox.entryOf, envelope]
  have hstored : (encode (int 2 (Int64.toUInt64 7).toNat)).length = 2 := by
    rw [show (Int64.toUInt64 7).toNat = 7 from rfl, length_encode_int]
    simp [varint]
  rw [hentry, Pb.MailboxEntry.marshal, Pb.MailboxEntry.fields]
  simp only [length_encode_append, List.map_singleton]
  rw [length_bytes_fixed (by decide) hash (by decide) (by decide), hstored, length_encode_repeated,
    length_encode_bytes 5, if_neg (ne_nil_of_large hlow), hheader,
      length_bytes_fixed (show 6 < 16 by decide) _ (by decide) (by decide),
    length_bytes_fixed (show 7 < 16 by decide) _ (by decide) (by decide), List.map_singleton,
      List.sum_singleton,
    hrecord]
  simp [encode]
  omega

theorem offer_request (hlow : 128 ^ 3 ≤ header.length)
    (hhigh : header.length + 122 ≤ maxMessageSize) :
    (RelayCall.store w₀ (request header)).offer cfg₀ =
      some ⟨w₀, "a@b", signature, envelope header, envelopeHash cfg₀ (pbEnvelope header)⟩ := by
  have hread : readRequest (.store (request header)) = .ok (.store (request header)) := by
    unfold readRequest
    rw [if_neg]
    rw [length_request hlow (by unfold maxMessageSize at hhigh; omega)]
    omega
  have hparse := fromProto_pbEnvelope (ne_nil_of_large hlow)
  simp only [RelayCall.offer, hread, Except.toOption]
  simp only [request, Option.bind_eq_bind, Option.bind_some, hparse]
  rfl

theorem stores_request (hlow : 128 ^ 3 ≤ header.length)
    (hhigh : header.length + 122 ≤ maxMessageSize) :
    (s₀.next cfg₀ (.store w₀ (request header))).stores =
      ⟨.empty, putAll ∅
        ((mail header (envelopeHash cfg₀ (pbEnvelope header))).writes cfg₀.mb)⟩ := by
  have hsender : Offer.sender cfg₀
      ⟨w₀, "a@b", signature, envelope header, envelopeHash cfg₀ (pbEnvelope header)⟩ s₀ =
      some sender := by
    unfold Offer.sender
    dsimp only
    have hopen : ¬ (w₀.draining = true ∨ (s₀.limiter.allow w₀.now "a@b").2 = false) := by
      rw [allow_s₀]
      simp [w₀]
    rw [if_neg hopen, senderGate_envelope]
    rfl
  have hkv : ∀ rx put, RelayCall.store w₀ (request header) ≠ .kvPut rx put := fun _ _ => nofun
  rw [stores_next hkv, offer_request hlow hhigh, Option.elim_some, Offer.stored, hsender,
    Option.elim_some]
  dsimp only
  rw [storeLoop_envelope (ne_nil_of_large hlow)]

theorem mem_page {m : Mail} {limit : ℤ} :
    (m.header, Mailbox.entryOf m.hash m.env m.storedAt) ∈
      (Mailbox.list cfg₀.mb (putAll ∅ (m.writes cfg₀.mb)) (Hex.encode m.rx.val) limit ""
        .newestFirst).entries := by
  obtain ⟨taken, rest, hmem, -, hentries, hend⟩ :=
    Mailbox.list_spec cfg₀.mb m.rx limit "" .newestFirst (putAll ∅ (m.writes cfg₀.mb))
  have hlookup : ∀ key value, (putAll ∅ (m.writes cfg₀.mb)).lookup key = some value →
      under (Mailbox.headerPrefix (Hex.encode m.rx.val)) key = true → key = m.header := by
    intro key value hlookup hunder
    rw [headerPrefix_eq] at hunder
    by_cases hkey : key ∈ (m.writes cfg₀.mb).map Prod.fst
    · apply eq_header_of_under hkey
      unfold under at hunder ⊢
      rw [Bool.and_eq_true, List.isPrefixOf_iff_prefix, decide_eq_true_iff] at hunder ⊢
      refine ⟨List.IsPrefix.trans ⟨[Hex.encode m.rx.val], rfl⟩ hunder.1, ?_⟩
      exact Nat.lt_trans (show 2 < 3 by decide) hunder.2
    · rw [lookup_putAll_of_notMem hkey] at hlookup
      cases hlookup
  have hheader : (putAll ∅ (m.writes cfg₀.mb)).lookup m.header =
      some (cfg₀.mb.entry.marshal (Mailbox.entryOf m.hash m.env m.storedAt)) :=
    lookup_putAll_of_mem (show ((m.writes cfg₀.mb).map Prod.fst).Nodup from m.nodup_keys)
      (List.mem_cons_self ..)
  have hread : ∀ e ∈ taken.filterMap (Mailbox.readEntry cfg₀.mb),
      e = (m.header, Mailbox.entryOf m.hash m.env m.storedAt) := by
    rintro ⟨key, e⟩ he
    obtain ⟨value, hr, hvalue⟩ := Mailbox.mem_filterMap_readEntry.mp he
    obtain ⟨hvalue', hunder, -⟩ := (hmem key value).mp (List.mem_append_left _ hr)
    obtain rfl := hlookup key value hvalue' hunder
    obtain rfl := Option.some.inj (hheader.symm.trans hvalue')
    rw [cfg₀.mb.entry.unmarshal_marshal] at hvalue
    cases hvalue
    rfl
  rw [hentries]
  rcases hend with ⟨rfl, -⟩ | ⟨-, init, last, hlast, -⟩
  · refine Mailbox.mem_filterMap_readEntry.mpr ⟨_, ?_, cfg₀.mb.entry.unmarshal_marshal _⟩
    have hunder : under (Mailbox.headerPrefix (Hex.encode m.rx.val)) m.header = true := by
      rw [headerPrefix_eq]
      have hheader : m.header = ["mbox", "h", Hex.encode m.rx.val] ++
          [m.seq, Hex.encode m.hash.val] := rfl
      rw [hheader]
      exact under_append (List.cons_ne_nil _ _)
    have hin := (hmem m.header _).mpr ⟨hheader, hunder, by simp [Paging.After, Mailbox.cursorOf]⟩
    rwa [List.append_nil] at hin
  · have hin : last ∈ taken.filterMap (Mailbox.readEntry cfg₀.mb) := by simp [hlast]
    rw [← hread last hin]
    exact hin

theorem load_le_of_writable {entries : List Pb.MailboxEntry} {cursor : String} {e : Pb.MailboxEntry}
    (h : Writable (.mailboxList entries (utf8 cursor))) (he : e ∈ entries) :
    e.marshal.length + 5 ≤ maxMessageSize := by
  have hone : framed 1 e.marshal ≤ (entries.map fun e => framed 1 e.marshal).sum :=
    List.single_le_sum (fun _ _ => Nat.zero_le _) _ (List.mem_map_of_mem he)
  have hframed := length_le_framed 1 e.marshal
  rw [writable_mailboxList] at h
  omega

theorem answer_request (h : header ≠ []) :
    (handleStore cfg₀ w₀ s₀ (request header)).2 = .ok (envelopeHash cfg₀ (pbEnvelope header)) := by
  have hopen : ¬ (s₀.limiter.allow w₀.now "a@b").2 = false := by simp [allow_s₀]
  have hgate := senderGate_envelope header (envelopeHash cfg₀ (pbEnvelope header))
  have hloop := storeLoop_envelope h (envelopeHash cfg₀ (pbEnvelope header))
  simp only [handleStore, request, fromProto_pbEnvelope h]
  unfold acceptEnvelope
  rw [if_neg (by simp [w₀])]
  dsimp only
  rw [if_neg hopen, hgate]
  dsimp only
  rw [hloop]
  rfl

theorem not_readsFit_of_large (hlow : 128 ^ 3 ≤ header.length)
    (hhigh : header.length + 122 ≤ maxMessageSize) (hlarge : maxMessageSize < header.length + 198) :
    ¬ ReadsFit cfg₀ (s₀.next cfg₀ (.store w₀ (request header))).stores := by
  intro hreads
  rw [stores_request hlow hhigh] at hreads
  have hpage := (hreads (.zero 32)).2.1 0 ""
  have hmem := @mem_page (mail header (envelopeHash cfg₀ (pbEnvelope header))) (0 : UInt32).toNat
  have hsize := length_entry hlow (by unfold maxMessageSize at hhigh; omega)
    (envelopeHash cfg₀ (pbEnvelope header))
  unfold listResponse at hpage
  rw [if_neg (by simp [cfg₀])] at hpage
  have hload := load_le_of_writable hpage (List.mem_map_of_mem hmem)
  change (Mailbox.entryOf (envelopeHash cfg₀ (pbEnvelope header)) (envelope header)
    (Time.ofUnix 7)).marshal.length + 5 ≤ maxMessageSize at hload
  omega

def bigHeader : Bytes := List.replicate 4194182 0

theorem length_bigHeader : bigHeader.length = 4194182 := List.length_replicate

/-- A STORE of one frame that is accepted, and whose mailbox can no longer be listed. -/
theorem listed_page_exceeds_frame :
    (handleStore cfg₀ w₀ s₀ (request bigHeader)).2 =
      .ok (envelopeHash cfg₀ (pbEnvelope bigHeader)) ∧
    (Pb.RelayRequest.store (request bigHeader)).marshal.length ≤ maxMessageSize ∧
    ¬ ReadsFit cfg₀ (s₀.next cfg₀ (.store w₀ (request bigHeader))).stores := by
  have hlength := length_bigHeader
  generalize bigHeader = header at hlength ⊢
  have hlow : 128 ^ 3 ≤ header.length := by omega
  have hhigh : header.length + 122 ≤ maxMessageSize := by
    unfold maxMessageSize
    omega
  refine ⟨answer_request (ne_nil_of_large hlow), ?_, not_readsFit_of_large hlow hhigh ?_⟩
  · rw [length_request hlow (by omega)]
    exact hhigh
  · unfold maxMessageSize
    omega

theorem leavesRoom_half (hlength : header.length = 2097152) :
    LeavesRoom cfg₀ s₀ (.store w₀ (request header)) := by
  have hlow : 128 ^ 3 ≤ header.length := by omega
  have hhigh : header.length + 122 ≤ maxMessageSize := by
    unfold maxMessageSize
    omega
  intro o rec ho hrec i r hr hpermitted
  rw [offer_request hlow hhigh] at ho
  cases ho
  obtain rfl : r = recipient := by
    have hmem : r ∈ [recipient] := List.mem_of_getElem? hr
    exact List.mem_singleton.mp hmem
  unfold RoomFor
  split
  · unfold Mail.Listable
    dsimp only
    have hentry := length_entry hlow (by omega) (envelopeHash cfg₀ (pbEnvelope header))
    have hcursor :=
      length_text_header ⟨recipient.recipientXPub, envelopeHash cfg₀ (pbEnvelope header),
      envelope header, w₀.storedAt i⟩
    have hframed := framed_le (show 1 < 16 by decide) (b := (Mailbox.entryOf
      (envelopeHash cfg₀ (pbEnvelope header)) (envelope header) (Time.ofUnix 7)).marshal) (by omega)
    have hcursor' :=
      framed_le (show 2 < 16 by decide) (b := utf8 (text (Mail.header ⟨recipient.recipientXPub,
      envelopeHash cfg₀ (pbEnvelope header), envelope header, w₀.storedAt i⟩))) (by omega)
    change framed 1 (Mailbox.entryOf (envelopeHash cfg₀ (pbEnvelope header)) (envelope header)
      (Time.ofUnix 7)).marshal + _ + 5 ≤ maxMessageSize
    unfold maxMessageSize
    omega
  · next hdurable =>
    refine absurd ?_ hdurable
    have hpos : 0 < header.length := by omega
    simp [durable, cfg₀, EncryptedEnvelope.isSplit, envelope, hpos]

def halfHeader : Bytes := List.replicate 2097152 0

theorem length_halfHeader : halfHeader.length = 2097152 := List.length_replicate

/-- The message is accepted, and its mailbox can be read. -/
theorem half_frame_read :
    (handleStore cfg₀ w₀ s₀ (request halfHeader)).2 =
      .ok (envelopeHash cfg₀ (pbEnvelope halfHeader)) ∧
    ReadsFit cfg₀ (s₀.next cfg₀ (.store w₀ (request halfHeader))).stores := by
  have hlength := length_halfHeader
  generalize halfHeader = header at hlength ⊢
  have hne : header ≠ [] := ne_nil_of_large (by omega)
  have hroom : Machine.Along (RelayState.next cfg₀) (LeavesRoom cfg₀) s₀
      [.store w₀ (request header)] :=
    ⟨leavesRoom_half hlength, trivial⟩
  have hrun := reads_fit_of_room cfg₀ entrySized_cfg₀ fresh_s₀ hroom
  exact ⟨answer_request hne, hrun.2⟩

end Oversized

end Dmcn
