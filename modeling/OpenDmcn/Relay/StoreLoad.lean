import OpenDmcn.Lib.Datastore
import OpenDmcn.Message.Envelope
import OpenDmcn.Relay.MessageStore

/-! The transit store on disk (`store.go`): its keys, the persisted form of a copy, and the load
that rebuilds the indexes from a datastore, clearing up after older versions on the way. -/

namespace Dmcn

open Go Datastore

/-- The on-disk form. `storedAt` is in Unix seconds and zero when it is absent; `status` is read
from old entries only. -/
structure PersistedEnvelope where
  addr : String
  hash : Bytes
  storedAt : Int64
  status : Int64
  env : Bytes
  deriving DecidableEq, Inhabited

deriving instance Countable for PersistedEnvelope

structure StoreRuntime where
  json : Encoding PersistedEnvelope
  envelope : Codec Pb.EncryptedEnvelope

def relayStorePrefix : Key := ["dmcn", "relaystore"]

def relayStoreKey (addr : String) (hash : Fixed 32) : Key :=
  newKey (relayStorePrefix ++ [Hex.encode hash.val, addr])

def hashOnlyKey (hash : Fixed 32) : Key := newKey (relayStorePrefix ++ [Hex.encode hash.val])

def relayFetchedPrefix : Key := ["dmcn", "relayfetched"]

def relayFetchedKey (addr : String) (hash : Fixed 32) : Key :=
  newKey (relayFetchedPrefix ++ [Hex.encode hash.val, addr])

def legacyDelivered : Int64 := 1

structure Decoded where
  addr : String
  hash : Fixed 32
  envelope : EncryptedEnvelope
  storedAt : Time

def Decoded.pair (d : Decoded) : String × Fixed 32 := (d.addr, d.hash)

def Decoded.key (d : Decoded) : Key := relayStoreKey d.addr d.hash

def StoredEnvelope.decoded (se : StoredEnvelope EncryptedEnvelope) : Decoded :=
  ⟨se.addr, se.hash, se.envelope, se.storedAt⟩

def decode (rt : StoreRuntime) (now : Time) (pe : PersistedEnvelope) : Option Decoded := do
  let pb ← rt.envelope.unmarshal pe.env
  let env ← (EncryptedEnvelope.fromProto pb).toOption
  return ⟨pe.addr, Fixed.copy 32 pe.hash, env, if pe.storedAt ≠ 0 then Time.ofUnix pe.storedAt
    else now⟩

def persisted (rt : StoreRuntime) (d : Decoded) : Bytes :=
  rt.json.marshal ⟨d.addr, d.hash.val, d.storedAt.unix, 0, rt.envelope.marshal d.envelope.toProto⟩

/-- One start of the node: the clock when each entry is read, the orders of the two scans, and the
writes that fail: rewrites by the old key, deletes by their key. -/
structure Start where
  clock : Key → Time
  scanOrder : List Key
  markOrder : List Key
  rewriteFails : Key → Bool
  deleteFails : Key → Bool

structure Scan where
  store : MessageStore EncryptedEnvelope
  old : List (Key × Decoded)
  stale : List Key

def scanEntry (rt : StoreRuntime) (st : Start) (scan : Scan) (entry : Key × Bytes) : Scan :=
  match rt.json.unmarshal entry.2 with
  -- a corrupt entry is skipped
  | none => scan
  | some pe =>
    if pe.status = legacyDelivered then { scan with stale := scan.stale ++ [entry.1] }
    else
      match decode rt (st.clock entry.1) pe with
      | none => scan
      | some d =>
        if entry.1 ≠ d.key then { scan with old := scan.old ++ [(entry.1, d)] }
        else { scan with store := scan.store.store d.storedAt d.addr d.envelope d.hash }

structure Rewrite where
  store : MessageStore EncryptedEnvelope
  disk : Disk
  stale : List Key

def rewriteOld (rt : StoreRuntime) (st : Start) (rw : Rewrite) (o : Key × Decoded) : Rewrite :=
  match rw.store.find o.2.addr o.2.hash with
  | some _ => { rw with stale := rw.stale ++ [o.1] }
  | none =>
    let store := rw.store.add o.2.storedAt o.2.addr o.2.envelope o.2.hash
    if st.rewriteFails o.1 then { rw with store := store }
    else ⟨store, put rw.disk o.2.key (persisted rt o.2), rw.stale ++ [o.1]⟩

def deleteKeys (st : Start) (disk : Disk) (keys : List Key) : Disk :=
  deleteAll disk (keys.filter fun key => !st.deleteFails key)

def parseMark (key : Key) : Option (String × Fixed 32) :=
  match key with
  | [_, _, hashHex, addr] =>
    (Hex.decode hashHex).bind fun b => if h : b.length = 32 then some (addr, ⟨b, h⟩) else none
  | _ => none

def loadMark (marks : MessageStore EncryptedEnvelope × List Key) (entry : Key × Bytes) :
    MessageStore EncryptedEnvelope × List Key :=
  match parseMark entry.1 with
  | none => (marks.1, marks.2 ++ [entry.1])
  | some (addr, hash) =>
    match marks.1.find addr hash with
    | some se => ({ marks.1 with fetched := Function.update marks.1.fetched se.ptr true }, marks.2)
    | none => (marks.1, marks.2 ++ [entry.1])

def loadFetched (st : Start) (s : MessageStore EncryptedEnvelope) (disk : Disk) :
    MessageStore EncryptedEnvelope × Disk :=
  let marks := (query relayFetchedPrefix st.markOrder disk).foldl loadMark (s, [])
  (marks.1, deleteKeys st disk marks.2)

def load (rt : StoreRuntime) (st : Start) (disk : Disk) : MessageStore EncryptedEnvelope × Disk :=
  let scan := (query relayStorePrefix st.scanOrder disk).foldl (scanEntry rt st) ⟨.empty, [], []⟩
  let rw := scan.old.foldl (rewriteOld rt st) ⟨scan.store, disk, scan.stale⟩
  loadFetched st rw.store (deleteKeys st rw.disk rw.stale)

theorem plain_relayStorePrefix : ∀ part ∈ relayStorePrefix, Plain part := by decide

theorem plain_relayFetchedPrefix : ∀ part ∈ relayFetchedPrefix, Plain part := by decide

section Keys

variable {addr addr' : String} {hash hash' : Fixed 32}

theorem relayStoreKey_of_plain (h : Plain addr) :
    relayStoreKey addr hash = relayStorePrefix ++ [Hex.encode hash.val, addr] :=
  newKey_prefix plain_relayStorePrefix (by simp [plain_hash, h])

theorem hashOnlyKey_eq (hash : Fixed 32) :
    hashOnlyKey hash = relayStorePrefix ++ [Hex.encode hash.val] :=
  newKey_prefix plain_relayStorePrefix (by simp [plain_hash])

theorem relayFetchedKey_of_plain (h : Plain addr) :
    relayFetchedKey addr hash = relayFetchedPrefix ++ [Hex.encode hash.val, addr] :=
  newKey_prefix plain_relayFetchedPrefix (by simp [plain_hash, h])

theorem under_relayStoreKey (h : Plain addr) : under relayStorePrefix
    (relayStoreKey addr hash) = true := by
  rw [relayStoreKey_of_plain h]
  exact under_append (by simp)

theorem under_relayFetchedKey (h : Plain addr) :
    under relayFetchedPrefix (relayFetchedKey addr hash) = true := by
  rw [relayFetchedKey_of_plain h]
  exact under_append (by simp)

theorem under_hashOnlyKey (hash : Fixed 32) : under relayStorePrefix (hashOnlyKey hash) = true := by
  rw [hashOnlyKey_eq]
  exact under_append (by simp)

theorem hex_val_injective (h : Hex.encode hash.val = Hex.encode hash'.val) : hash = hash' :=
  Fixed.ext (Hex.encode_injective h)

theorem relayStoreKey_inj (h : Plain addr) (h' : Plain addr')
    (heq : relayStoreKey addr hash = relayStoreKey addr' hash') :
    (addr, hash) = (addr', hash') := by
  rw [relayStoreKey_of_plain h, relayStoreKey_of_plain h', List.append_cancel_left_eq] at heq
  simp only [List.cons.injEq, and_true] at heq
  rw [heq.2, hex_val_injective heq.1]

theorem hashOnlyKey_inj (heq : hashOnlyKey hash = hashOnlyKey hash') : hash = hash' := by
  rw [hashOnlyKey_eq, hashOnlyKey_eq, List.append_cancel_left_eq] at heq
  simp only [List.cons.injEq, and_true] at heq
  exact hex_val_injective heq

theorem relayStoreKey_ne_hashOnlyKey (h : Plain addr) :
    relayStoreKey addr hash ≠ hashOnlyKey hash' := by
  rw [relayStoreKey_of_plain h, hashOnlyKey_eq]
  intro heq
  have hlength := congrArg List.length heq
  simp at hlength

theorem parseMark_relayFetchedKey (h : Plain addr) :
    parseMark (relayFetchedKey addr hash) = some (addr, hash) := by
  rw [relayFetchedKey_of_plain h]
  change (Hex.decode (Hex.encode hash.val)).bind _ = _
  rw [Hex.decode_encode, Option.bind_some, dif_pos hash.length_val]

theorem not_under_both {key : Key} (h : under relayFetchedPrefix key = true) :
    under relayStorePrefix key = false := by
  rw [Bool.eq_false_iff]
  intro h'
  unfold under at h h'
  rw [Bool.and_eq_true, List.isPrefixOf_iff_prefix] at h h'
  rcases List.prefix_or_prefix_of_prefix h.1 h'.1 with hpre | hpre
  · exact absurd hpre (by decide)
  · exact absurd hpre (by decide)

end Keys

namespace MessageStore

theorem find_add {Env : Type} (s : MessageStore Env) (now : Time) (addr addr' : String) (env : Env)
    (hash hash' : Fixed 32) : (s.add now addr env hash).find addr' hash' = (s.find addr' hash').or
      (if (addr', hash') = (addr, hash) then some ⟨s.allocated, env, hash, addr, now⟩
        else none) := by
  unfold find MessageStore.add index
  dsimp only
  rw [Index.items_add]
  split
  · next hh =>
    subst hh
    rw [List.find?_append]
    congr 1
    by_cases ha : addr' = addr
    · subst ha
      simp
    · rw [if_neg (by simp [ha]), List.find?_singleton, if_neg (by simp [Ne.symm ha])]
  · next hh => rw [if_neg (by simp [hh]), Option.or_none]

def at_ (s : MessageStore EncryptedEnvelope) (addr : String) (hash : Fixed 32) : Option Decoded :=
  (s.find addr hash).map StoredEnvelope.decoded

def storeAll (s : MessageStore EncryptedEnvelope) (ds : List Decoded) :
    MessageStore EncryptedEnvelope :=
  ds.foldl (fun s d => s.store d.storedAt d.addr d.envelope d.hash) s

theorem at_store (s : MessageStore EncryptedEnvelope) (d : Decoded) (addr : String)
    (hash : Fixed 32) :
    (s.store d.storedAt d.addr d.envelope d.hash).at_ addr hash =
      (s.at_ addr hash).or (if d.pair = (addr, hash) then some d else none) := by
  unfold at_ MessageStore.store
  cases hfind : s.find d.addr d.hash with
  | some se =>
    by_cases hpair : d.pair = (addr, hash)
    · cases hpair
      rw [hfind]
      rfl
    · rw [if_neg hpair, Option.or_none]
  | none =>
    dsimp only
    rw [find_add]
    by_cases hpair : d.pair = (addr, hash)
    · cases hpair
      rw [hfind, if_pos rfl, if_pos (show d.pair = (d.addr, d.hash) from rfl)]
      rfl
    · rw [if_neg hpair, if_neg (fun h => hpair h.symm), Option.or_none, Option.or_none]

theorem at_storeAll (s : MessageStore EncryptedEnvelope) (ds : List Decoded) (addr : String)
    (hash : Fixed 32) : (s.storeAll ds).at_ addr hash =
      (s.at_ addr hash).or (ds.find? fun d => decide (d.pair = (addr, hash))) := by
  induction ds generalizing s with
  | nil => simp [storeAll]
  | cons d ds ih =>
    change (MessageStore.storeAll (s.store d.storedAt d.addr d.envelope d.hash) ds).at_ addr hash =
      _
    rw [ih, at_store, Option.or_assoc, List.find?_cons]
    congr 1
    by_cases hpair : d.pair = (addr, hash)
    · simp [hpair]
    · simp [hpair]

theorem holds_storeAll {s : MessageStore EncryptedEnvelope}
    {q : List (StoredEnvelope EncryptedEnvelope)} (h : s.Holds q) (ds : List Decoded) : ∃ q',
    (s.storeAll ds).Holds q' := by
  induction ds generalizing s q with
  | nil => exact ⟨q, h⟩
  | cons d ds ih => exact ih (h.call (.store d.storedAt d.addr d.envelope d.hash))

end MessageStore

section Scan

variable (rt : StoreRuntime) (st : Start)

def pendingIn (now : Time) (value : Bytes) : Option Decoded :=
  (rt.json.unmarshal value).bind fun pe =>
    if pe.status = legacyDelivered then none else decode rt now pe

def deliveredIn (value : Bytes) : Bool :=
  (rt.json.unmarshal value).elim false fun pe => decide (pe.status = legacyDelivered)

def currents (es : List (Key × Bytes)) : List Decoded :=
  es.filterMap fun e => (pendingIn rt (st.clock e.1) e.2).bind fun d => if e.1 = d.key then some d
    else none

def olds (es : List (Key × Bytes)) : List (Key × Decoded) :=
  es.filterMap fun e =>
    (pendingIn rt (st.clock e.1) e.2).bind fun d => if e.1 = d.key then none else some (e.1, d)

def delivereds (es : List (Key × Bytes)) : List Key :=
  (es.filter fun e => deliveredIn rt e.2).map Prod.fst

theorem scan_eq (es : List (Key × Bytes)) (scan : Scan) : es.foldl (scanEntry rt st) scan =
    ⟨scan.store.storeAll (currents rt st es), scan.old ++ olds rt st es, scan.stale ++
      delivereds rt es⟩ := by
  induction es generalizing scan with
  | nil => simp [currents, olds, delivereds, MessageStore.storeAll]
  | cons e es ih =>
    rw [List.foldl_cons, ih]
    unfold scanEntry currents olds delivereds
    simp only [List.filterMap_cons, List.filter_cons]
    cases hjson : rt.json.unmarshal e.2 with
    | none => simp [pendingIn, deliveredIn, hjson]
    | some pe =>
      by_cases hstatus : pe.status = legacyDelivered
      · simp [pendingIn, deliveredIn, hjson, hstatus]
      · cases hdecode : decode rt (st.clock e.1) pe with
        | none => simp [pendingIn, deliveredIn, hjson, hstatus, hdecode]
        | some d =>
          by_cases hkey : e.1 = d.key
          · simp [pendingIn, deliveredIn, hjson, hstatus, hdecode, eq_true hkey,
              MessageStore.storeAll]
          · simp [pendingIn, deliveredIn, hjson, hstatus, hdecode, hkey]

def stampedIn (value : Bytes) : Bool :=
  (rt.json.unmarshal value).elim false fun pe => decide (pe.storedAt ≠ 0)

variable {rt st}

theorem pendingIn_now {now : Time} {value : Bytes} {d : Decoded}
    (h : pendingIn rt now value = some d) (now' : Time) : ∃ d', pendingIn rt now' value = some d' ∧
    d'.pair = d.pair ∧ d'.envelope = d.envelope ∧
      (stampedIn rt value = true → d' = d) := by
  obtain ⟨pe, hjson, hpending⟩ := Option.bind_eq_some_iff.mp h
  split at hpending
  · cases hpending
  · next hstatus =>
    obtain ⟨pb, hpb, hdecode⟩ := Option.bind_eq_some_iff.mp hpending
    obtain ⟨env, henv, hd⟩ := Option.bind_eq_some_iff.mp hdecode
    cases hd
    refine ⟨⟨pe.addr, Fixed.copy 32 pe.hash, env,
      if pe.storedAt ≠ 0 then Time.ofUnix pe.storedAt else now'⟩, ?_, rfl, rfl, ?_⟩
    · simp [pendingIn, hjson, hstatus, decode, hpb, henv]
    · intro hstamped
      have hne : pe.storedAt ≠ 0 := by simpa [stampedIn, hjson] using hstamped
      rw [if_pos hne, if_pos hne]

theorem storedAt_of_stamped {now : Time} {value : Bytes} {d : Decoded}
    (h : pendingIn rt now value = some d) (hstamped : stampedIn rt value = true) :
    d.storedAt.unix ≠ 0 ∧ Time.ofUnix d.storedAt.unix = d.storedAt := by
  obtain ⟨pe, hjson, hpending⟩ := Option.bind_eq_some_iff.mp h
  have hne : pe.storedAt ≠ 0 := by simpa [stampedIn, hjson] using hstamped
  split at hpending
  · cases hpending
  · obtain ⟨pb, -, hdecode⟩ := Option.bind_eq_some_iff.mp hpending
    obtain ⟨env, -, hd⟩ := Option.bind_eq_some_iff.mp hdecode
    cases hd
    rw [if_pos hne, Time.unix_ofUnix]
    exact ⟨hne, rfl⟩

theorem deliveredIn_of_pendingIn {now : Time} {value : Bytes} {d : Decoded}
    (h : pendingIn rt now value = some d) : deliveredIn rt value = false := by
  obtain ⟨pe, hjson, hpending⟩ := Option.bind_eq_some_iff.mp h
  split at hpending
  · cases hpending
  · next hstatus => simp [deliveredIn, hjson, hstatus]

theorem pendingIn_persisted (rt : StoreRuntime) (now : Time) (d : Decoded) :
    pendingIn rt now (persisted rt d) = some ⟨d.addr, d.hash, d.envelope.reread,
      if d.storedAt.unix ≠ 0 then Time.ofUnix d.storedAt.unix else now⟩ := by
  simp [pendingIn, persisted, decode, legacyDelivered, EncryptedEnvelope.fromProto_toProto,
    Except.toOption]

theorem mem_currents {disk : Disk} {d : Decoded} :
    d ∈ currents rt st (query relayStorePrefix st.scanOrder disk) ↔
      ∃ value, disk.lookup d.key = some value ∧ under relayStorePrefix d.key = true ∧
        pendingIn rt (st.clock d.key) value = some d := by
  unfold currents
  simp only [List.mem_filterMap, Prod.exists, mem_query, Option.bind_eq_some_iff]
  constructor
  · rintro ⟨key, value, ⟨hlookup, hunder⟩, d', hpending, hkey⟩
    split at hkey
    · next heq =>
      cases hkey
      subst heq
      exact ⟨value, hlookup, hunder, hpending⟩
    · cases hkey
  · rintro ⟨value, hlookup, hunder, hpending⟩
    exact ⟨d.key, value, ⟨hlookup, hunder⟩, d, hpending, if_pos rfl⟩

theorem mem_olds {disk : Disk} {key : Key} {d : Decoded} :
    (key, d) ∈ olds rt st (query relayStorePrefix st.scanOrder disk) ↔
      key ≠ d.key ∧ ∃ value, disk.lookup key = some value ∧ under relayStorePrefix key = true ∧
        pendingIn rt (st.clock key) value = some d := by
  unfold olds
  simp only [List.mem_filterMap, Prod.exists, mem_query, Option.bind_eq_some_iff]
  constructor
  · rintro ⟨key', value, ⟨hlookup, hunder⟩, d', hpending, hkey⟩
    split at hkey
    · cases hkey
    · next hne =>
      cases hkey
      exact ⟨hne, value, hlookup, hunder, hpending⟩
  · rintro ⟨hne, value, hlookup, hunder, hpending⟩
    exact ⟨key, value, ⟨hlookup, hunder⟩, d, hpending, if_neg hne⟩

theorem mem_delivereds {disk : Disk} {key : Key} :
    key ∈ delivereds rt (query relayStorePrefix st.scanOrder disk) ↔
      ∃ value, disk.lookup key = some value ∧ under relayStorePrefix key = true ∧
        deliveredIn rt value = true := by
  unfold delivereds
  simp only [List.mem_map, List.mem_filter, Prod.exists, mem_query]
  constructor
  · rintro ⟨key', value, ⟨⟨hlookup, hunder⟩, hdelivered⟩, rfl⟩
    exact ⟨value, hlookup, hunder, hdelivered⟩
  · rintro ⟨value, hlookup, hunder, hdelivered⟩
    exact ⟨key, value, ⟨⟨hlookup, hunder⟩, hdelivered⟩, rfl⟩

theorem nodup_olds (disk : Disk) :
    ((olds rt st (query relayStorePrefix st.scanOrder disk)).map Prod.fst).Nodup := by
  have hkeys := nodup_query relayStorePrefix st.scanOrder disk
  refine hkeys.sublist ?_
  unfold olds
  generalize query relayStorePrefix st.scanOrder disk = es
  induction es with
  | nil => exact List.Sublist.refl _
  | cons e es ih =>
    rw [List.filterMap_cons]
    cases hcase : (pendingIn rt (st.clock e.1) e.2).bind fun d =>
        if e.1 = d.key then none else some (e.1, d) with
    | none => exact ih.cons _
    | some o =>
      obtain ⟨d, -, ho⟩ := Option.bind_eq_some_iff.mp hcase
      split at ho
      · cases ho
      · cases ho
        exact ih.cons_cons _

end Scan

section Rewrite

variable {rt : StoreRuntime} {st : Start}

theorem store_rewriteOld (rw : Rewrite) (o : Key × Decoded) :
    (rewriteOld rt st rw o).store = rw.store.store o.2.storedAt o.2.addr o.2.envelope o.2.hash := by
  unfold rewriteOld MessageStore.store
  cases rw.store.find o.2.addr o.2.hash with
  | some se => rfl
  | none =>
    dsimp only
    split
    · rfl
    · rfl

theorem store_rewriteAll (os : List (Key × Decoded)) (rw : Rewrite) :
    (os.foldl (rewriteOld rt st) rw).store = rw.store.storeAll (os.map Prod.snd) := by
  induction os generalizing rw with
  | nil => rfl
  | cons o os ih =>
    rw [List.foldl_cons, ih, store_rewriteOld]
    rfl

theorem find_store_of_ne {s : MessageStore EncryptedEnvelope} {now : Time} {addr addr' : String}
    {env : EncryptedEnvelope} {hash hash' : Fixed 32} (h : (addr, hash) ≠ (addr', hash')) :
    (s.store now addr env hash).find addr' hash' = s.find addr' hash' := by
  unfold MessageStore.store
  cases s.find addr hash with
  | some se => rfl
  | none =>
    dsimp only
    rw [MessageStore.find_add, if_neg (Ne.symm h), Option.or_none]

def Rewrites (st : Start) (s : MessageStore EncryptedEnvelope) (o : Key × Decoded) : Prop :=
  s.find o.2.addr o.2.hash = none ∧ st.rewriteFails o.1 = false

theorem rewrites_of_ne {s : MessageStore EncryptedEnvelope} {o o' : Key × Decoded}
    (h : o.2.pair ≠ o'.2.pair) :
    Rewrites st (s.store o.2.storedAt o.2.addr o.2.envelope o.2.hash) o' ↔ Rewrites st s o' := by
  unfold Rewrites
  rw [find_store_of_ne h]

theorem mem_stale_rewriteAll {os : List (Key × Decoded)} (hpairs : (os.map fun o => o.2.pair).Nodup)
    (rw : Rewrite) {key : Key} : key ∈ (os.foldl (rewriteOld rt st) rw).stale ↔
      key ∈ rw.stale ∨ ∃ o ∈ os, o.1 = key ∧
        (rw.store.find o.2.addr o.2.hash ≠ none ∨ Rewrites st rw.store o) := by
  induction os generalizing rw with
  | nil => simp
  | cons o os ih =>
    obtain ⟨hnew, hrest⟩ := List.nodup_cons.mp hpairs
    have hhead : key ∈ (rewriteOld rt st rw o).stale ↔ key ∈ rw.stale ∨ (o.1 = key ∧
        (rw.store.find o.2.addr o.2.hash ≠ none ∨ Rewrites st rw.store o)) := by
      unfold rewriteOld Rewrites
      cases hfind : rw.store.find o.2.addr o.2.hash with
      | some se => simp [@eq_comm _ key]
      | none =>
        dsimp only
        split
        · next hfails => simp [hfails]
        · next hfails => simp [hfails, @eq_comm _ key]
    rw [List.foldl_cons, ih hrest, hhead, store_rewriteOld, List.exists_mem_cons_iff, or_assoc]
    refine or_congr_right (or_congr_right (exists_congr fun o' => and_congr_right fun ho' => ?_))
    have hne : o.2.pair ≠ o'.2.pair := by
      intro heq
      exact hnew (List.mem_map.mpr ⟨o', ho', heq.symm⟩)
    rw [find_store_of_ne hne, rewrites_of_ne hne]

theorem lookup_rewriteOld (rw : Rewrite) (o : Key × Decoded) (key : Key)
    [Decidable (Rewrites st rw.store o)] :
    (rewriteOld rt st rw o).disk.lookup key =
      if Rewrites st rw.store o ∧ key = o.2.key then some (persisted rt o.2)
      else rw.disk.lookup key := by
  unfold rewriteOld
  cases hfind : rw.store.find o.2.addr o.2.hash with
  | some se =>
    dsimp only
    rw [if_neg]
    rintro ⟨⟨hnone, -⟩, -⟩
    rw [hfind] at hnone
    cases hnone
  | none =>
    dsimp only
    split
    · next hfails =>
      rw [if_neg]
      rintro ⟨⟨-, hok⟩, -⟩
      rw [hfails] at hok
      cases hok
    · next hfails =>
      rw [lookup_put]
      simp [Rewrites, hfind, hfails]

theorem lookup_rewriteAll_of_ne {os : List (Key × Decoded)}
    (hpairs : (os.map fun o => o.2.pair).Nodup) (rw : Rewrite) {key : Key}
    (hkey : ∀ o ∈ os, Rewrites st rw.store o → key ≠ o.2.key) :
    (os.foldl (rewriteOld rt st) rw).disk.lookup key = rw.disk.lookup key := by
  classical
  induction os generalizing rw with
  | nil => rfl
  | cons o os ih =>
    obtain ⟨hnew, hrest⟩ := List.nodup_cons.mp hpairs
    rw [List.foldl_cons, ih hrest, lookup_rewriteOld, if_neg]
    · rintro ⟨hrewrites, heq⟩
      exact hkey o (List.mem_cons_self ..) hrewrites heq
    · intro o' ho' hrewrites
      have hne : o.2.pair ≠ o'.2.pair := fun heq => hnew (List.mem_map.mpr ⟨o', ho', heq.symm⟩)
      rw [store_rewriteOld, rewrites_of_ne hne] at hrewrites
      exact hkey o' (List.mem_cons_of_mem _ ho') hrewrites

theorem lookup_rewriteAll {os : List (Key × Decoded)} (hpairs : (os.map fun o => o.2.pair).Nodup)
    (hkeys : ∀ o ∈ os, ∀ o' ∈ os, o.2.key = o'.2.key → o.2.pair = o'.2.pair) (rw : Rewrite)
    {o : Key × Decoded} (ho : o ∈ os) (hrewrites : Rewrites st rw.store o) :
    (os.foldl (rewriteOld rt st) rw).disk.lookup o.2.key = some (persisted rt o.2) := by
  classical
  induction os generalizing rw with
  | nil => cases ho
  | cons o' os ih =>
    obtain ⟨hnew, hrest⟩ := List.nodup_cons.mp hpairs
    have hother : ∀ o'' ∈ os, o'.2.pair ≠ o''.2.pair :=
      fun o'' ho'' heq => hnew (List.mem_map.mpr ⟨o'', ho'', heq.symm⟩)
    rw [List.foldl_cons]
    rcases List.mem_cons.mp ho with rfl | ho
    · -- no later entry has this key
      rw [lookup_rewriteAll_of_ne hrest, lookup_rewriteOld, if_pos ⟨hrewrites, rfl⟩]
      intro o'' ho'' _ heq
      exact hother o'' ho'' (hkeys o (List.mem_cons_self ..) o'' (List.mem_cons_of_mem _ ho'') heq)
    · refine ih hrest ?_ _ ho ?_
      · exact fun a ha b hb => hkeys a (List.mem_cons_of_mem _ ha) b (List.mem_cons_of_mem _ hb)
      · rw [store_rewriteOld, rewrites_of_ne (hother o ho)]
        exact hrewrites

end Rewrite

section Marks

variable {s : MessageStore EncryptedEnvelope} {q : List (StoredEnvelope EncryptedEnvelope)}

theorem find_markOne {Env : Type} (s : MessageStore Env) (addr addr' : String)
    (hash hash' : Fixed 32) :
    (MessageStore.markOne addr s hash).find addr' hash' = s.find addr' hash' := by
  unfold MessageStore.markOne
  cases s.find addr hash with
  | none => rfl
  | some se =>
    dsimp only
    split
    · rfl
    · rfl

theorem fst_loadMark (marks : MessageStore EncryptedEnvelope × List Key) (e : Key × Bytes) :
    (loadMark marks e).1 =
      (parseMark e.1).elim marks.1 fun p => MessageStore.markOne p.1 marks.1 p.2 := by
  unfold loadMark
  cases parseMark e.1 with
  | none => rfl
  | some p =>
    simp only [Option.elim_some, MessageStore.markOne]
    cases marks.1.find p.1 p.2 with
    | none => rfl
    | some se =>
      dsimp only
      split
      · next hset => rw [Function.update_eq_self_iff.mpr hset.symm]
      · rfl

theorem mem_snd_loadMark (marks : MessageStore EncryptedEnvelope × List Key) (e : Key × Bytes)
    {key : Key} :
    key ∈ (loadMark marks e).2 ↔ key ∈ marks.2 ∨ (e.1 = key ∧
      ∀ p, parseMark e.1 = some p → marks.1.find p.1 p.2 = none) := by
  unfold loadMark
  cases parseMark e.1 with
  | none => simp [@eq_comm _ key]
  | some p =>
    dsimp only
    cases hfind : marks.1.find p.1 p.2 with
    | none => simp [hfind, @eq_comm _ key]
    | some se => simp [hfind]

/-- What the markers do to a store: they flag the copies they name, and those that name none are
stale. -/
theorem loadMarks_spec (h : s.Holds q) (es : List (Key × Bytes)) (stale : List Key) :
    (es.foldl loadMark (s, stale)).1.Holds q ∧
    (∀ addr hash, (es.foldl loadMark (s, stale)).1.find addr hash = s.find addr hash) ∧
    (∀ x ∈ q, (es.foldl loadMark (s, stale)).1.fetched x.ptr = true ↔
      s.fetched x.ptr = true ∨ ∃ e ∈ es, parseMark e.1 = some x.pair) ∧
    ∀ key, key ∈ (es.foldl loadMark (s, stale)).2 ↔ key ∈ stale ∨ ∃ e ∈ es, e.1 = key ∧
      ∀ p, parseMark e.1 = some p → s.find p.1 p.2 = none := by
  induction es generalizing s stale with
  | nil => simp [h]
  | cons e es ih =>
    have hone : (loadMark (s, stale) e).1.Holds q ∧
        (∀ addr hash, (loadMark (s, stale) e).1.find addr hash = s.find addr hash) ∧
        ∀ x ∈ q, (loadMark (s, stale) e).1.fetched x.ptr = true ↔
          s.fetched x.ptr = true ∨ parseMark e.1 = some x.pair := by
      rw [fst_loadMark]
      cases parseMark e.1 with
      | none => simp [h]
      | some p =>
        obtain ⟨hholds, -, hflags⟩ := h.markOne p.1 p.2
        refine ⟨hholds, fun addr hash => find_markOne s p.1 addr p.2 hash, fun x hx => ?_⟩
        rw [Option.elim_some, hflags x hx, Option.some.injEq, @eq_comm _ p]
    obtain ⟨hholds, hfind, hflags⟩ := hone
    obtain ⟨hholds', hfind', hflags', hstale'⟩ := ih hholds (loadMark (s, stale) e).2
    refine ⟨hholds', fun addr hash => (hfind' addr hash).trans (hfind addr hash), fun x hx =>
      ?_, ?_⟩
    · rw [List.foldl_cons, hflags' x hx, hflags x hx, List.exists_mem_cons_iff, or_assoc]
    · intro key
      rw [List.foldl_cons, hstale' key, mem_snd_loadMark, List.exists_mem_cons_iff, or_assoc]
      simp only [hfind]

theorem fetched_storeAll (s : MessageStore EncryptedEnvelope) (ds : List Decoded)
    (h : ∀ n, s.fetched n = false) : ∀ n, (s.storeAll ds).fetched n = false := by
  induction ds generalizing s with
  | nil => exact h
  | cons d ds ih =>
    refine ih _ fun n => ?_
    change (s.store d.storedAt d.addr d.envelope d.hash).fetched n = false
    unfold MessageStore.store
    cases s.find d.addr d.hash with
    | some se => exact h n
    | none =>
      change Function.update s.fetched s.allocated false n = false
      by_cases hn : n = s.allocated
      · rw [hn, Function.update_self]
      · rw [Function.update_of_ne hn, h]

end Marks

section Load

variable (rt : StoreRuntime) (st : Start) (disk : Disk)

def scanned : List (Key × Bytes) := query relayStorePrefix st.scanOrder disk

def rewritten : Rewrite :=
  (olds rt st (scanned st disk)).foldl (rewriteOld rt st)
    ⟨MessageStore.storeAll .empty (currents rt st (scanned st disk)), disk,
      delivereds rt (scanned st disk)⟩

def swept : Disk := deleteKeys st (rewritten rt st disk).disk (rewritten rt st disk).stale

theorem load_eq : load rt st disk = loadFetched st (rewritten rt st disk).store
    (swept rt st disk) := by
  unfold load swept rewritten
  rw [show query relayStorePrefix st.scanOrder disk = scanned st disk from rfl, scan_eq]
  rfl

theorem store_rewritten : (rewritten rt st disk).store = MessageStore.storeAll .empty
    (currents rt st (scanned st disk) ++ (olds rt st (scanned st disk)).map Prod.snd) := by
  unfold rewritten
  rw [store_rewriteAll]
  unfold MessageStore.storeAll
  rw [List.foldl_append]

theorem lookup_deleteKeys (d : Disk) (keys : List Key) (key : Key) :
    (deleteKeys st d keys).lookup key =
    if key ∈ keys ∧ st.deleteFails key = false then none else d.lookup key := by
  unfold deleteKeys
  rw [lookup_deleteAll]
  simp [List.mem_filter]

theorem load_spec : ∃ q, (load rt st disk).1.Holds q ∧
    (∀ addr hash, (load rt st disk).1.find addr hash = (rewritten rt st disk).store.find addr
      hash) ∧
    (∀ x ∈ q, (load rt st disk).1.fetched x.ptr = true ↔
      ∃ key, (swept rt st disk).lookup key ≠ none ∧ under relayFetchedPrefix key = true ∧
        parseMark key = some x.pair) ∧
    ∀ key,
      (((under relayFetchedPrefix key = true ∧
          ∀ p, parseMark key = some p → (rewritten rt st disk).store.find p.1 p.2 = none) ∧
        st.deleteFails key = false) → (load rt st disk).2.lookup key = none) ∧
      (¬ ((under relayFetchedPrefix key = true ∧
          ∀ p, parseMark key = some p → (rewritten rt st disk).store.find p.1 p.2 = none) ∧
        st.deleteFails key = false) → (load rt st disk).2.lookup key =
          (swept rt st disk).lookup key) := by
  obtain ⟨q, h⟩ : ∃ q, (rewritten rt st disk).store.Holds q := by
    rw [store_rewritten]
    exact MessageStore.holds_storeAll MessageStore.holds_empty _
  have hunset : ∀ n, (rewritten rt st disk).store.fetched n = false := by
    rw [store_rewritten]
    exact fetched_storeAll _ _ fun _ => rfl
  obtain ⟨hholds, hfind, hflags, hstale⟩ :=
    loadMarks_spec h (query relayFetchedPrefix st.markOrder (swept rt st disk)) []
  rw [load_eq]
  refine ⟨q, hholds, hfind, ?_, ?_⟩
  · intro x hx
    refine (hflags x hx).trans ?_
    rw [hunset]
    constructor
    · rintro (hset | ⟨⟨key, value⟩, hmem, hparse⟩)
      · cases hset
      · obtain ⟨hlookup, hunder⟩ := mem_query.mp hmem
        exact ⟨key, by simp [hlookup], hunder, hparse⟩
    · rintro ⟨key, hlookup, hunder, hparse⟩
      obtain ⟨value, hvalue⟩ := Option.ne_none_iff_exists'.mp hlookup
      exact .inr ⟨(key, value), mem_query.mpr ⟨hvalue, hunder⟩, hparse⟩
  · intro key
    unfold loadFetched
    dsimp only
    rw [lookup_deleteKeys]
    have hiff : (key ∈ ((query relayFetchedPrefix st.markOrder (swept rt st disk)).foldl loadMark
        ((rewritten rt st disk).store, [])).2) ↔ (swept rt st disk).lookup key ≠ none ∧
          under relayFetchedPrefix key = true ∧
          ∀ p, parseMark key = some p → (rewritten rt st disk).store.find p.1 p.2 = none := by
      rw [hstale]
      constructor
      · rintro (hnil | ⟨⟨key', value⟩, hmem, rfl, hnone⟩)
        · cases hnil
        · obtain ⟨hlookup, hunder⟩ := mem_query.mp hmem
          exact ⟨by simp [hlookup], hunder, hnone⟩
      · rintro ⟨hlookup, hunder, hnone⟩
        obtain ⟨value, hvalue⟩ := Option.ne_none_iff_exists'.mp hlookup
        exact .inr ⟨(key, value), mem_query.mpr ⟨hvalue, hunder⟩, rfl, hnone⟩
    constructor
    · rintro ⟨hmark, hdelete⟩
      by_cases hlookup : (swept rt st disk).lookup key = none
      · rw [hlookup, ite_self]
      · rw [if_pos ⟨hiff.mpr ⟨hlookup, hmark⟩, hdelete⟩]
    · intro hno
      rw [if_neg]
      exact fun h => hno ⟨(hiff.mp h.1).2, h.2⟩

end Load

end Dmcn
