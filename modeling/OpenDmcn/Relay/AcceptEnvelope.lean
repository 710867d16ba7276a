import OpenDmcn.Registry.Service
import OpenDmcn.Relay.AcceptRecord
import OpenDmcn.Relay.MailboxList
import OpenDmcn.Relay.MessageStore
import OpenDmcn.Relay.PersonalKv

/-! Accepting mail and blobs (`relay.go`): the gates of a STORE, the loop over its recipients, the
storage cap, and the reads an owner makes. What other parts of the node answer meanwhile is an input
of each call. -/

namespace Dmcn

open Go Datastore

structure RelayConfig where
  rt : Runtime
  mb : MailboxRuntime
  kv : Encoding KvRecord
  /-- `recognizedBodyCID`: a CIDv1 with the raw codec and a SHA-256 multihash. -/
  recognizedBodyCID : Bytes → Bool
  /-- The relay has a mailbox. -/
  mailbox : Bool
  personalKv : Bool
  /-- Zero is no cap. -/
  storageQuota : UInt64

structure Stores where
  transit : MessageStore EncryptedEnvelope
  disk : Disk

structure RelayState where
  limiter : RateLimiter
  /-- The mailboxes seen to demand onion delivery. -/
  onionRequired : String → Bool
  stores : Stores

/-- What the rest of the node answers while one envelope is accepted. A hook that is not wired is
none. -/
structure Surroundings where
  now : Time
  draining : Bool
  resolve : String → Except LookupError IdentityRecord
  fetchPolicy : Option (IdentityRecord → Bool)
  storeVouchExempt : Option (IdentityRecord → EncryptedEnvelope → Bool)
  /-- `recipientPermits` of a recipient, the sender's address and record. -/
  permits : Option (String → String → IdentityRecord → Bool)
  /-- The datastore fails to tell the usage of the `i`-th recipient. -/
  quotaFails : ℕ → Bool
  /-- The datastore fails to file the message of the `i`-th recipient. -/
  storeFails : ℕ → Bool
  storedAt : ℕ → Time

inductive StoreRefusal where
  | nodeDraining | rateLimited | onionRequired | unregisteredSender | lookupFailed
  | invalidSignature
  | senderNotVouched | bodyMismatch | mailboxFull | storageFailed | invalidEnvelope | invalidRequest
  deriving DecidableEq

def StoreRefusal.code : StoreRefusal → String
  | nodeDraining => "NODE_DRAINING"
  | rateLimited => "RATE_LIMITED"
  | onionRequired => "ONION_REQUIRED"
  | unregisteredSender => "UNREGISTERED_SENDER"
  | lookupFailed => "LOOKUP_FAILED"
  | invalidSignature => "INVALID_SIGNATURE"
  | senderNotVouched => "SENDER_NOT_VOUCHED"
  | bodyMismatch => "INVALID_ENVELOPE"
  | mailboxFull => "MAILBOX_FULL"
  | storageFailed => "STORAGE_FAILED"
  | invalidEnvelope => "INVALID_ENVELOPE"
  | invalidRequest => "INVALID_REQUEST"

namespace EncryptedEnvelope

def bodyBlob (e : EncryptedEnvelope) : Bytes := e.bodyNonce.val ++ e.encryptedBody ++ e.bodyTag.val

def bodyContentAddressOf (cfg : RelayConfig) (e : EncryptedEnvelope) : Bytes :=
  [0x01, 0x55, 0x12, 0x20] ++ cfg.rt.sha256 e.bodyBlob

def verifyBodyContentAddress (cfg : RelayConfig) (e : EncryptedEnvelope) : Bool :=
  e.isSplit == false || e.bodyContentAddress.isEmpty ||
    cfg.recognizedBodyCID e.bodyContentAddress == false ||
    e.bodyContentAddressOf cfg == e.bodyContentAddress

end EncryptedEnvelope

namespace RecipientRecord

def addr (r : RecipientRecord) : String := Hex.encode r.recipientXPub.val

end RecipientRecord

section Accept

variable (cfg : RelayConfig)

def accountUsedBytes (disk : Disk) (rxHex : String) : UInt64 :=
  (if cfg.mailbox then (Mailbox.statsOwner cfg.mb [] disk rxHex).2 else 0) +
    (if cfg.personalKv then (PersonalKv.statsOwner [] disk rxHex).2 else 0)

def senderGate (w : Surroundings) (onionRequired : String → Bool) (onionRelay : Bool)
    (senderAddr : String) (senderSig : Bytes) (env : EncryptedEnvelope) (envHash : Fixed 32) :
    Except StoreRefusal IdentityRecord :=
  if onionRelay = false ∧ env.recipients.any (fun r => onionRequired r.addr) then
    .error .onionRequired
  else
    match w.resolve senderAddr with
    | .error .notFound => .error .unregisteredSender
    | .error .transient => .error .lookupFailed
    | .ok senderRec =>
      if Crypto.verify cfg.rt senderRec.ed25519Public envHash.val senderSig = false then
        .error .invalidSignature
      else if w.fetchPolicy.any (fun usable => !usable senderRec) ∧
          w.storeVouchExempt.all (fun exempt => !exempt senderRec env) then
        .error .senderNotVouched
      else if env.verifyBodyContentAddress cfg = false then .error .bodyMismatch
      else .ok senderRec

def quotaGate (w : Surroundings) (disk : Disk) (i : ℕ) (addr : String) (env : EncryptedEnvelope) :
    Option StoreRefusal :=
  if cfg.storageQuota > 0 then
    if w.quotaFails i then some .storageFailed
    else if accountUsedBytes cfg disk addr + Mailbox.entrySize env > cfg.storageQuota
      then some .mailboxFull
    else none
  else none

def permitted (w : Surroundings) (addr senderAddr : String) (senderRec : IdentityRecord) : Bool :=
  w.permits.all fun permits => permits addr senderAddr senderRec

def durable (env : EncryptedEnvelope) : Bool := cfg.mailbox && env.isSplit

def storeOne (w : Surroundings) (env : EncryptedEnvelope) (envHash : Fixed 32) (i : ℕ)
    (addr : String) (s : Stores) :
    Except StoreRefusal Stores :=
  if durable cfg env then
    match quotaGate cfg w s.disk i addr env with
    | some e => .error e
    | none =>
      if w.storeFails i then .error .storageFailed
      else
        match Mailbox.store cfg.mb s.disk addr envHash env (w.storedAt i) with
        | .error _ => .error .storageFailed
        | .ok disk => .ok { s with disk := disk }
  else .ok { s with transit := s.transit.store (w.storedAt i) addr env envHash }

def storeLoop (w : Surroundings) (senderAddr : String) (senderRec : IdentityRecord)
    (env : EncryptedEnvelope) (envHash : Fixed 32) : ℕ → List RecipientRecord → Stores →
    Stores × Except StoreRefusal Unit
  | _, [], s => (s, .ok ())
  | i, r :: rs, s =>
    if permitted w r.addr senderAddr senderRec = false then
      storeLoop w senderAddr senderRec env envHash (i + 1) rs s
    else
      match storeOne cfg w env envHash i r.addr s with
      | .error e => (s, .error e)
      | .ok s' => storeLoop w senderAddr senderRec env envHash (i + 1) rs s'

def acceptEnvelope (w : Surroundings) (s : RelayState) (onionRelay : Bool) (senderAddr : String)
    (senderSig : Bytes) (env : EncryptedEnvelope) (envHash : Fixed 32) :
    RelayState × Except StoreRefusal (Fixed 32) :=
  if w.draining then (s, .error .nodeDraining)
  else
    let (limiter, allowed) := s.limiter.allow w.now senderAddr
    let s := { s with limiter := limiter }
    if allowed = false then (s, .error .rateLimited)
    else
      match senderGate cfg w s.onionRequired onionRelay senderAddr senderSig env envHash with
      | .error e => (s, .error e)
      | .ok senderRec =>
        let (stores, answer) :=
          storeLoop cfg w senderAddr senderRec env envHash 0 env.recipients s.stores
        ({ s with stores := stores }, answer.map fun _ => envHash)

def envelopeHash (pb : Pb.EncryptedEnvelope) : Fixed 32 := Fixed.copy 32 (cfg.rt.sha256 pb.marshal)

def handleStore (w : Surroundings) (s : RelayState) (req : Pb.StoreRequest) :
    RelayState × Except StoreRefusal (Fixed 32) :=
  match req.envelope with
  | none => (s, .error .invalidEnvelope)
  | some pb =>
    match EncryptedEnvelope.fromProto pb with
    | .error _ => (s, .error .invalidEnvelope)
    | .ok env => acceptEnvelope cfg w s false req.senderAddress req.senderSignature env
      (envelopeHash cfg pb)

def StoreInit.envelope (init : Pb.StoreInit) (body : Bytes) : Pb.EncryptedEnvelope :=
  { (default : Pb.EncryptedEnvelope) with
    version := init.version
    messageId := init.messageId
    createdAt := init.createdAt
    recipients := init.recipients
    encryptedHeader := init.encryptedHeader
    headerNonce := init.headerNonce
    headerTag := init.headerTag
    headerSizeClass := init.headerSizeClass
    encryptedBody := body
    bodyNonce := init.bodyNonce
    bodyTag := init.bodyTag
    bodySizeClass := init.bodySizeClass
    bodyContentAddress := init.bodyContentAddress }

def handleStoreInit (w : Surroundings) (s : RelayState) (init : Pb.StoreInit)
    (frames : List Bytes) :
    RelayState × Except StoreRefusal (Fixed 32) :=
  match readChunked init.bodyTotalSize frames with
  | .error _ => (s, .error .invalidRequest)
  | .ok body =>
    match EncryptedEnvelope.fromProto (StoreInit.envelope init body) with
    | .error _ => (s, .error .invalidEnvelope)
    | .ok env =>
      acceptEnvelope cfg w s false init.senderAddress init.senderSignature env
        (envelopeHash cfg env.toProto)

def storeLocal (w : Surroundings) (s : RelayState) (senderAddr : String) (senderSig : Bytes)
    (env : EncryptedEnvelope) : RelayState × Except StoreRefusal (Fixed 32) :=
  acceptEnvelope cfg w s false senderAddr senderSig env (envelopeHash cfg env.toProto)

def kvPut (disk : Disk) (rxHex key : String) (sealed : Bytes) (expectedVersion : UInt64) :
    Except KvError (Disk × UInt64) :=
  if cfg.personalKv = false then .error .unsupported
  else if cfg.storageQuota > 0 ∧
      accountUsedBytes cfg disk rxHex + UInt64.ofNat sealed.length > cfg.storageQuota
        then .error .quotaExceeded
  else PersonalKv.put cfg.kv disk rxHex key sealed expectedVersion

def kvDelete (disk : Disk) (rxHex key : String) : Except KvError Disk :=
  if cfg.personalKv = false then .error .unsupported
  else
    match PersonalKv.delete disk rxHex key with
    | .error .badKey => .ok disk
    | .error e => .error e
    | .ok disk' => .ok disk'

def fetchResponse (s : Stores) (rx : Fixed 32) : Pb.RelayResponse :=
  let (envs, hashes) := s.transit.fetch (Hex.encode rx.val)
  .fetch (envs.map EncryptedEnvelope.toProto) (hashes.map Fixed.val)

def listResponse (s : Stores) (rx : Fixed 32) (limit : UInt32) (cursor : String) :
    Pb.RelayResponse :=
  if cfg.mailbox = false then .error "MAILBOX_UNAVAILABLE" "this node is not a mailbox"
  else
    let page := Mailbox.list cfg.mb s.disk (Hex.encode rx.val) limit.toNat cursor .newestFirst
    .mailboxList (page.entries.map Prod.snd) (utf8 page.nextCursor)

def kvListResponse (s : Stores) (pick : List Key) (rx : Fixed 32) (pre : String) (limit : UInt32)
    (cursor : String) (values : Bool) : Pb.RelayResponse :=
  if cfg.mailbox = false then .error "MAILBOX_UNAVAILABLE" "this node is not a mailbox"
  else if cfg.personalKv = false then
    .error "UNSUPPORTED" "relay: this relay does not host personal storage"
  else
    match PersonalKv.list cfg.kv pick s.disk (Hex.encode rx.val) pre limit.toNat cursor values with
    | .error _ => .error "INVALID_REQUEST" "invalid storage key"
    | .ok (items, next) => .mailboxKvList (items.map KvItem.toProto) (utf8 next)

end Accept

section Spec

variable {cfg : RelayConfig} {s s' : Stores}

theorem not_under_ownerKey {m : Mail} {key : Key} (h : key ∈ m.keys) (rx : Fixed 32) :
    under (PersonalKv.ownerKey rx) key = false := by
  simp only [Mail.keys, Mail.header, Mail.body, Mail.index, List.mem_cons, List.not_mem_nil,
    or_false] at h
  rcases h with rfl | rfl | rfl <;> rfl

variable {w : Surroundings} {env : EncryptedEnvelope}

theorem storeOne_eq_ok {hash : Fixed 32} {i : ℕ} {r : RecipientRecord}
    (h : storeOne cfg w env hash i r.addr s = .ok s') :
    durable cfg env = true ∧ quotaGate cfg w s.disk i r.addr env = none ∧
      ((s.disk.lookup (Mailbox.indexKey r.addr (Hex.encode hash.val)) ≠ none ∧ s' = s) ∨
        (s.disk.lookup (Mailbox.indexKey r.addr (Hex.encode hash.val)) = none ∧ s' = { s with
          disk := putAll s.disk (Mail.writes cfg.mb ⟨r.recipientXPub, hash, env, w.storedAt i⟩)
            })) ∨
    durable cfg env = false ∧
      s' = { s with transit := s.transit.store (w.storedAt i) r.addr env hash } := by
  unfold storeOne at h
  by_cases hdurable : durable cfg env = true
  · rw [if_pos hdurable] at h
    split at h
    · cases h
    · next hgate =>
      split at h
      · cases h
      · unfold Mailbox.store at h
        refine .inl ⟨hdurable, hgate, ?_⟩
        split at h
        · cases h
        · next hstore =>
          split at hstore
          · cases hstore
          · split at hstore
            · next hpresent =>
              cases hstore
              cases h
              exact .inl ⟨Option.isSome_iff_ne_none.mp hpresent, rfl⟩
            · next habsent =>
              cases hstore
              cases h
              have hbatch := Mail.storeBatch_eq cfg.mb ⟨r.recipientXPub, hash, env, w.storedAt i⟩
              rw [← hbatch]
              exact .inr ⟨by simpa using habsent, rfl⟩
  · rw [if_neg hdurable] at h
    cases h
    exact .inr ⟨by simpa using hdurable, rfl⟩

theorem kvPut_eq_ok {disk disk' : Disk} {rxHex key : String} {sealed : Bytes}
    {expected version : UInt64}
    (h : kvPut cfg disk rxHex key sealed expected = .ok (disk', version)) :
    ∃ k, PersonalKv.kvKey rxHex key = .ok k ∧ sealed.length ≠ 0 ∧ cfg.personalKv = true ∧
      disk' = Datastore.put disk k
      (cfg.kv.marshal ⟨PersonalKv.storedVersion cfg.kv disk k + 1, sealed⟩) := by
  unfold kvPut PersonalKv.put at h
  split at h
  · cases h
  · next hhosts =>
    split at h
    · cases h
    · split at h
      · cases h
      · next k hk =>
        dsimp only at h
        split at h
        · cases h
        · next hsealed =>
          split at h
          · cases h
          · cases h
            exact ⟨k, hk, hsealed, by simpa using hhosts, rfl⟩

theorem sender_of_senderGate {onionRequired : String → Bool} {onionRelay : Bool}
    {senderAddr : String} {senderSig : Bytes} {hash : Fixed 32} {rec : IdentityRecord}
    (h : senderGate cfg w onionRequired onionRelay senderAddr senderSig env hash = .ok rec) :
    w.resolve senderAddr = .ok rec ∧ Crypto.verify cfg.rt rec.ed25519Public hash.val senderSig =
      true := by
  unfold senderGate at h
  split at h
  · cases h
  · split at h
    · cases h
    · cases h
    · next senderRec hresolve =>
      split at h
      · cases h
      · next hverify =>
        split at h
        · cases h
        · split at h
          · cases h
          · cases h
            exact ⟨hresolve, by simpa using hverify⟩

theorem acceptEnvelope_of_gate {s : RelayState} {onionRelay : Bool} {senderAddr : String}
    {senderSig : Bytes} {hash : Fixed 32} {rec : IdentityRecord} (hdraining : w.draining = false)
    (hallowed : (s.limiter.allow w.now senderAddr).2 = true) (hgate : senderGate cfg w
      s.onionRequired onionRelay senderAddr senderSig env hash = .ok rec) :
    acceptEnvelope cfg w s onionRelay senderAddr senderSig env hash =
      ({ s with
          limiter := (s.limiter.allow w.now senderAddr).1
          stores := (storeLoop cfg w senderAddr rec env hash 0 env.recipients s.stores).1 },
        (storeLoop cfg w senderAddr rec env hash 0 env.recipients s.stores).2.map fun _ =>
          hash) := by
  unfold acceptEnvelope
  simp only [hdraining, hallowed, hgate, Bool.false_eq_true, Bool.true_eq_false, if_false]

theorem acceptEnvelope_of_refused {s : RelayState} {onionRelay : Bool} {senderAddr : String}
    {senderSig : Bytes} {hash : Fixed 32} {e : StoreRefusal} (hdraining : w.draining = false)
    (hallowed : (s.limiter.allow w.now senderAddr).2 = true) (hgate : senderGate cfg w
      s.onionRequired onionRelay senderAddr senderSig env hash = .error e) :
    (acceptEnvelope cfg w s onionRelay senderAddr senderSig env hash).2 = .error e := by
  unfold acceptEnvelope
  simp only [hdraining, hallowed, hgate, Bool.false_eq_true, Bool.true_eq_false, if_false]

theorem stores_acceptEnvelope_cases (cfg : RelayConfig) (w : Surroundings) (s : RelayState)
    (onionRelay : Bool) (senderAddr : String) (senderSig : Bytes) (env : EncryptedEnvelope)
    (hash : Fixed 32) :
    (acceptEnvelope cfg w s onionRelay senderAddr senderSig env hash).1.stores = s.stores ∨
      ∃ rec, (acceptEnvelope cfg w s onionRelay senderAddr senderSig env hash).1.stores =
        (storeLoop cfg w senderAddr rec env hash 0 env.recipients s.stores).1 := by
  unfold acceptEnvelope
  split
  · exact .inl rfl
  · dsimp only
    split
    · exact .inl rfl
    · split
      · exact .inl rfl
      · next rec hgate => exact .inr ⟨rec, rfl⟩

theorem acceptEnvelope_eq_ok {s : RelayState} {onionRelay : Bool} {senderAddr : String}
    {senderSig : Bytes} {hash answer : Fixed 32}
    (h : (acceptEnvelope cfg w s onionRelay senderAddr senderSig env hash).2 = .ok answer) :
    answer = hash ∧ w.draining = false ∧ (s.limiter.allow w.now senderAddr).2 = true ∧
      ∃ rec, senderGate cfg w s.onionRequired onionRelay senderAddr senderSig env hash = .ok rec ∧
        storeLoop cfg w senderAddr rec env hash 0 env.recipients s.stores =
          ((acceptEnvelope cfg w s onionRelay senderAddr senderSig env hash).1.stores, .ok ()) := by
  cases hdraining : w.draining with
  | true => simp [acceptEnvelope, hdraining] at h
  | false =>
    cases hallowed : (s.limiter.allow w.now senderAddr).2 with
    | false => simp [acceptEnvelope, hdraining, hallowed] at h
    | true =>
      cases hgate : senderGate cfg w s.onionRequired onionRelay senderAddr senderSig env hash with
      | error e => simp [acceptEnvelope, hdraining, hallowed, hgate] at h
      | ok rec =>
        rw [acceptEnvelope_of_gate hdraining hallowed hgate] at h ⊢
        dsimp only at h ⊢
        cases hresult : (storeLoop cfg w senderAddr rec env hash 0 env.recipients s.stores).2 with
        | error e =>
          rw [hresult] at h
          cases h
        | ok u =>
          rw [hresult] at h
          cases h
          exact ⟨rfl, rfl, rfl, rec, rfl, Prod.ext rfl hresult⟩

end Spec

end Dmcn
