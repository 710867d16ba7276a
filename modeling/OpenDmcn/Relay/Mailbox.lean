import OpenDmcn.Lib.Datastore
import OpenDmcn.Lib.Run
import OpenDmcn.Lib.Strings
import OpenDmcn.Lib.Time
import OpenDmcn.Message.Envelope
import Mathlib.Algebra.BigOperators.Group.List.Basic
import Mathlib.Algebra.Group.Prod

/-! The durable mailbox of a relay (`mailbox.go`). A message lies under three keys: its header under
one that begins with the store time, its body, and an index entry that holds the key of the
header. -/

namespace Dmcn.Pb

open Go

structure MailboxEntry where
  hash : Bytes
  storedAt : Int64
  bodySize : UInt64
  recipients : List RecipientRecord
  encryptedHeader : Bytes
  headerNonce : Bytes
  headerTag : Bytes
  headerSizeClass : UInt32
  bodyContentAddress : Bytes
  deriving DecidableEq, Inhabited

structure MailboxBody where
  encryptedBody : Bytes
  bodyNonce : Bytes
  bodyTag : Bytes
  bodySizeClass : UInt32
  bodyContentAddress : Bytes
  deriving DecidableEq, Inhabited

deriving instance Countable for MailboxEntry
deriving instance Countable for MailboxBody

end Dmcn.Pb

namespace Dmcn

open Go Datastore

structure MailboxRuntime where
  entry : Codec Pb.MailboxEntry
  body : Codec Pb.MailboxBody

inductive MailboxError where
  | notSplit
  deriving DecidableEq

def mboxHeaderPrefix : Key := ["mbox", "h"]

def mboxBodyPrefix : Key := ["mbox", "b"]

def mboxIndexPrefix : Key := ["mbox", "x"]

namespace Mailbox

def headerPrefix (rxHex : String) : Key := newKey (mboxHeaderPrefix ++ [rxHex])

def headerKey (rxHex seq hashHex : String) : Key :=
  newKey (mboxHeaderPrefix ++ [rxHex, seq, hashHex])

def bodyKey (rxHex hashHex : String) : Key := newKey (mboxBodyPrefix ++ [rxHex, hashHex])

def indexKey (rxHex hashHex : String) : Key := newKey (mboxIndexPrefix ++ [rxHex, hashHex])

def entrySize (env : EncryptedEnvelope) : UInt64 :=
  UInt64.ofNat env.encryptedBody.length + UInt64.ofNat env.encryptedHeader.length

def entryOf (hash : Fixed 32) (env : EncryptedEnvelope) (storedAt : Time) : Pb.MailboxEntry where
  hash := hash.val
  storedAt := storedAt.unix
  bodySize := UInt64.ofNat env.encryptedBody.length
  recipients := env.recipients.map RecipientRecord.toProto
  encryptedHeader := env.encryptedHeader
  headerNonce := env.headerNonce.val
  headerTag := env.headerTag.val
  headerSizeClass := env.headerSizeClass
  bodyContentAddress := env.bodyContentAddress

def bodyOf (env : EncryptedEnvelope) : Pb.MailboxBody where
  encryptedBody := env.encryptedBody
  bodyNonce := env.bodyNonce.val
  bodyTag := env.bodyTag.val
  bodySizeClass := env.bodySizeClass
  bodyContentAddress := env.bodyContentAddress

def storeBatch (rt : MailboxRuntime) (rxHex : String) (hash : Fixed 32) (env : EncryptedEnvelope)
    (storedAt : Time) : List (Key × Bytes) :=
  let hashHex := Hex.encode hash.val
  let hKey := headerKey rxHex (Strings.padded storedAt.unixNano) hashHex
  [(hKey, rt.entry.marshal (entryOf hash env storedAt)),
    (bodyKey rxHex hashHex, rt.body.marshal (bodyOf env)),
    (indexKey rxHex hashHex, utf8 (text hKey))]

def store (rt : MailboxRuntime) (disk : Disk) (rxHex : String) (hash : Fixed 32)
    (env : EncryptedEnvelope) (storedAt : Time) : Except MailboxError Disk :=
  if env.isSplit = false then .error .notSplit
  else if (disk.lookup (indexKey rxHex (Hex.encode hash.val))).isSome then .ok disk
  else .ok (putAll disk (storeBatch rt rxHex hash env storedAt))

def deleteBatch (rxHex : String) (hash : Fixed 32) (hKeyBytes : Bytes) : List Key :=
  let hashHex := Hex.encode hash.val
  [newKey [ofUtf8 hKeyBytes], bodyKey rxHex hashHex, indexKey rxHex hashHex]

def delete (disk : Disk) (rxHex : String) (hash : Fixed 32) : Disk :=
  match disk.lookup (indexKey rxHex (Hex.encode hash.val)) with
  | none => disk
  | some hKeyBytes => deleteAll disk (deleteBatch rxHex hash hKeyBytes)

def statsEntry (rt : MailboxRuntime) (acc : UInt64 × UInt64) (r : Key × Bytes) : UInt64 × UInt64 :=
  match rt.entry.unmarshal r.2 with
  | none => acc
  | some e => (acc.1 + 1, acc.2 + (e.bodySize + UInt64.ofNat e.encryptedHeader.length))

def statsPrefix (rt : MailboxRuntime) (pick : List Key) (disk : Disk) (pre : Key) :
    UInt64 × UInt64 :=
  (query pre pick disk).foldl (statsEntry rt) (0, 0)

def stats (rt : MailboxRuntime) (pick : List Key) (disk : Disk) : UInt64 × UInt64 :=
  statsPrefix rt pick disk mboxHeaderPrefix

def statsOwner (rt : MailboxRuntime) (pick : List Key) (disk : Disk) (rxHex : String) :
    UInt64 × UInt64 :=
  statsPrefix rt pick disk (headerPrefix rxHex)

end Mailbox

inductive MailboxCall where
  | store (rx : Fixed 32) (hash : Fixed 32) (env : EncryptedEnvelope) (storedAt : Time)
  | delete (rx : Fixed 32) (hash : Fixed 32)

namespace Mailbox

def call (rt : MailboxRuntime) (disk : Disk) : MailboxCall → Disk
  | .store rx hash env storedAt =>
    (store rt disk (Hex.encode rx.val) hash env storedAt).toOption.getD disk
  | .delete rx hash => delete disk (Hex.encode rx.val) hash

abbrev run (rt : MailboxRuntime) (disk : Disk) (cs : List MailboxCall) : Disk :=
  Machine.run (call rt) disk cs

end Mailbox

structure Mail where
  rx : Fixed 32
  hash : Fixed 32
  env : EncryptedEnvelope
  storedAt : Time

namespace Mail

def pair (m : Mail) : Fixed 32 × Fixed 32 := (m.rx, m.hash)

/-- What the mailboxes are for: a message is held from the `Store` that brings it to the `Delete` of
its hash, once for each recipient. -/
def next (q : List Mail) : MailboxCall → List Mail
  | .store rx hash env storedAt =>
    if env.isSplit = false ∨ (rx, hash) ∈ q.map pair then q else q ++ [⟨rx, hash, env, storedAt⟩]
  | .delete rx hash => q.filter fun m => decide (m.pair ≠ (rx, hash))

def held (cs : List MailboxCall) : List Mail := Machine.run next [] cs

def rxHex (m : Mail) : String := Hex.encode m.rx.val

def seq (m : Mail) : String := Strings.padded m.storedAt.unixNano

def header (m : Mail) : Key := ["mbox", "h", m.rxHex, m.seq, Hex.encode m.hash.val]

def body (m : Mail) : Key := ["mbox", "b", m.rxHex, Hex.encode m.hash.val]

def index (m : Mail) : Key := ["mbox", "x", m.rxHex, Hex.encode m.hash.val]

def writes (rt : MailboxRuntime) (m : Mail) : List (Key × Bytes) :=
  [(m.header, rt.entry.marshal (Mailbox.entryOf m.hash m.env m.storedAt)),
    (m.body, rt.body.marshal (Mailbox.bodyOf m.env)), (m.index, utf8 (text m.header))]

end Mail

theorem plain_padded (n : Int64) : Plain (Strings.padded n) := by
  have hlength := Strings.length_padded n
  refine ⟨?_, ?_, ?_, Strings.slash_not_mem_padded n⟩
  · intro heq
    rw [heq] at hlength
    exact absurd hlength (by decide)
  · intro heq
    rw [heq] at hlength
    exact absurd hlength (by decide)
  · intro heq
    rw [heq] at hlength
    exact absurd hlength (by decide)

theorem under_mbox_cons (part : String) (rest : Key) : under ["mbox"]
    ("mbox" :: part :: rest) = true := by
  simp [under]

section Keys

theorem headerPrefix_eq (rx : Fixed 32) : Mailbox.headerPrefix
    (Hex.encode rx.val) = ["mbox", "h", Hex.encode rx.val] :=
  newKey_prefix (show ∀ part ∈ mboxHeaderPrefix, Plain part by decide) (by simp [plain_hash])

theorem headerKey_eq (rx hash : Fixed 32) (n : Int64) :
    Mailbox.headerKey (Hex.encode rx.val) (Strings.padded n) (Hex.encode hash.val) =
      ["mbox", "h", Hex.encode rx.val, Strings.padded n, Hex.encode hash.val] :=
  newKey_prefix (show ∀ part ∈ mboxHeaderPrefix, Plain part by decide)
    (by simp [plain_hash, plain_padded])

theorem bodyKey_eq (rx hash : Fixed 32) : Mailbox.bodyKey (Hex.encode rx.val)
    (Hex.encode hash.val) = ["mbox", "b", Hex.encode rx.val, Hex.encode hash.val] :=
  newKey_prefix (show ∀ part ∈ mboxBodyPrefix, Plain part by decide) (by simp [plain_hash])

theorem indexKey_eq (rx hash : Fixed 32) : Mailbox.indexKey (Hex.encode rx.val)
    (Hex.encode hash.val) = ["mbox", "x", Hex.encode rx.val, Hex.encode hash.val] :=
  newKey_prefix (show ∀ part ∈ mboxIndexPrefix, Plain part by decide) (by simp [plain_hash])

end Keys

namespace Mail

variable {rt : MailboxRuntime} {m m' : Mail}

def keys (m : Mail) : List Key := [m.header, m.body, m.index]

theorem keys_eq (rt : MailboxRuntime) (m : Mail) : (m.writes rt).map Prod.fst = m.keys := rfl

theorem nodup_keys (m : Mail) : m.keys.Nodup := by
  simp [keys, header, body, index]

theorem indexKey_eq (m : Mail) : Mailbox.indexKey m.rxHex (Hex.encode m.hash.val) = m.index :=
  Dmcn.indexKey_eq m.rx m.hash

theorem storeBatch_eq (rt : MailboxRuntime) (m : Mail) :
    Mailbox.storeBatch rt m.rxHex m.hash m.env m.storedAt = m.writes rt := by
  unfold Mailbox.storeBatch writes
  dsimp only
  rw [indexKey_eq, rxHex, headerKey_eq, bodyKey_eq]
  rfl

theorem newKey_header (m : Mail) : newKey [text m.header] = m.header := by
  apply newKey_text (by simp [header])
  have hmbox : Plain "mbox" ∧ Plain "h" := by decide
  simp [header, rxHex, seq, plain_hash, plain_padded, hmbox]

theorem deleteBatch_eq (m : Mail) :
    Mailbox.deleteBatch m.rxHex m.hash (utf8 (text m.header)) = m.keys := by
  unfold Mailbox.deleteBatch keys
  dsimp only
  rw [ofUtf8_utf8, newKey_header, indexKey_eq, rxHex, bodyKey_eq]
  rfl

theorem pair_of_mem_keys {key : Key} (h : key ∈ m.keys) (h' : key ∈ m'.keys) :
    m.pair = m'.pair := by
  have hhex : ∀ {a b : Fixed 32}, Hex.encode a.val = Hex.encode b.val → a = b :=
    fun h => Fixed.ext (Hex.encode_injective h)
  simp only [keys, header, body, index, rxHex, List.mem_cons, List.not_mem_nil, or_false] at h h'
  unfold pair
  rcases h with rfl | rfl | rfl <;> simp only [List.cons.injEq, and_true] at h'
  · rcases h' with h' | h' | h'
    · rw [hhex h'.2.2.1, hhex h'.2.2.2.2]
    · simp at h'
    · simp at h'
  · rcases h' with h' | h' | h'
    · simp at h'
    · rw [hhex h'.2.2.1, hhex h'.2.2.2]
    · simp at h'
  · rcases h' with h' | h' | h'
    · simp at h'
    · simp at h'
    · rw [hhex h'.2.2.1, hhex h'.2.2.2]

theorem keys_eq_of_header (hpair : m.pair = m'.pair) (hheader : m.header = m'.header) :
    m.keys = m'.keys := by
  have hrx : m.rx = m'.rx := congrArg Prod.fst hpair
  have hhash : m.hash = m'.hash := congrArg Prod.snd hpair
  unfold keys body index rxHex
  rw [hheader, hrx, hhash]

theorem under_of_mem_keys {key : Key} (h : key ∈ m.keys) : under ["mbox"] key = true := by
  simp only [keys, header, body, index, List.mem_cons, List.not_mem_nil, or_false] at h
  rcases h with rfl | rfl | rfl <;> exact under_mbox_cons _ _

theorem mem_keys_of_mem_writes {w : Key × Bytes} (h : w ∈ m.writes rt) : w.1 ∈ m.keys :=
  List.mem_map_of_mem h

theorem eq_of_mem_writes {key : Key} {value value' : Bytes} (h : (key, value) ∈ m.writes rt)
    (h' : (key, value') ∈ m.writes rt) : value = value' := by
  have hnodup : ((m.writes rt).map Prod.fst).Nodup := m.nodup_keys
  exact congrArg Prod.snd (List.inj_on_of_nodup_map hnodup h h' rfl)

end Mail

namespace Mailbox

def Foreign (base : Disk) : Prop := ∀ key, under ["mbox"] key = true → base.lookup key = none

/-- The datastore holds the messages `q`, each once, and what was there before. -/
structure Holds (rt : MailboxRuntime) (base disk : Disk) (q : List Mail) : Prop where
  once : (q.map Mail.pair).Nodup
  lookup : ∀ key value, disk.lookup key = some value ↔
    (∃ m ∈ q, (key, value) ∈ m.writes rt) ∨ base.lookup key = some value

section Holds

variable {rt : MailboxRuntime} {base disk : Disk} {q : List Mail}

theorem holds_base (rt : MailboxRuntime) (base : Disk) : Holds rt base base [] :=
  ⟨List.nodup_nil, by simp⟩

theorem Holds.eq_of_pair (h : Holds rt base disk q) {m m' : Mail} (hm : m ∈ q) (hm' : m' ∈ q)
    (hpair : m.pair = m'.pair) : m = m' := List.inj_on_of_nodup_map h.once hm hm' hpair

theorem Holds.nodup (h : Holds rt base disk q) : q.Nodup := h.once.of_map _

def replace (q : List Mail) (m : Mail) : List Mail :=
  (q.filter fun m' => decide (m'.pair ≠ m.pair)) ++ [m]

theorem nodup_filter_pair (h : (q.map Mail.pair).Nodup) (p : Mail → Bool) :
    ((q.filter p).map Mail.pair).Nodup := h.sublist (List.filter_sublist.map _)

theorem Holds.putAll (h : Holds rt base disk q) (hbase : Foreign base) {m : Mail}
    (hsame : ∀ m' ∈ q, m'.pair = m.pair → m'.header = m.header) :
    Holds rt base (putAll disk (m.writes rt)) (replace q m) := by
  have hothers : ∀ m', m' ∈ replace q m ↔ m' ∈ q ∧ m'.pair ≠ m.pair ∨ m' = m := by
    intro m'
    rw [replace, List.mem_append, List.mem_filter, decide_eq_true_iff, List.mem_singleton]
  refine ⟨?_, fun key value => ?_⟩
  · rw [replace, List.map_append, List.nodup_append]
    refine ⟨nodup_filter_pair h.once _, List.nodup_singleton _, ?_⟩
    intro p hp p' hp' heq
    obtain ⟨m', hm', rfl⟩ := List.mem_map.mp hp
    rw [List.map_singleton, List.mem_singleton] at hp'
    exact of_decide_eq_true (List.mem_filter.mp hm').2 (heq.trans hp')
  · by_cases hkey : key ∈ m.keys
    · rw [← Mail.keys_eq rt] at hkey
      obtain ⟨⟨key', value'⟩, hw, rfl⟩ := List.mem_map.mp hkey
      have hnodup : ((m.writes rt).map Prod.fst).Nodup := m.nodup_keys
      have hmem : key' ∈ m.keys := Mail.mem_keys_of_mem_writes (w := (key', value')) hw
      have hforeign := hbase key' (Mail.under_of_mem_keys hmem)
      dsimp only
      rw [lookup_putAll_of_mem hnodup hw, Option.some.injEq, hforeign]
      constructor
      · rintro rfl
        exact .inl ⟨m, (hothers m).mpr (.inr rfl), hw⟩
      · rintro (⟨m', hm', hw'⟩ | hnone)
        · rcases (hothers m').mp hm' with ⟨-, hne⟩ | rfl
          · exact absurd (Mail.pair_of_mem_keys (Mail.mem_keys_of_mem_writes hw') hmem) hne
          · exact Mail.eq_of_mem_writes hw hw'
        · cases hnone
    · have hnotMem : key ∉ (m.writes rt).map Prod.fst := hkey
      rw [lookup_putAll_of_notMem hnotMem, h.lookup]
      refine or_congr_left ⟨?_, ?_⟩
      · rintro ⟨m', hm', hw'⟩
        refine ⟨m', (hothers m').mpr (.inl ⟨hm', fun hpair => hkey ?_⟩), hw'⟩
        rw [← Mail.keys_eq_of_header hpair (hsame m' hm' hpair)]
        exact Mail.mem_keys_of_mem_writes hw'
      · rintro ⟨m', hm', hw'⟩
        rcases (hothers m').mp hm' with ⟨hmem, -⟩ | rfl
        · exact ⟨m', hmem, hw'⟩
        · exact absurd (Mail.mem_keys_of_mem_writes hw') hkey

theorem Holds.deleteAll (h : Holds rt base disk q) (hbase : Foreign base) {m : Mail}
    (hsame : ∀ m' ∈ q, m'.pair = m.pair → m'.header = m.header) :
    Holds rt base (deleteAll disk m.keys) (q.filter fun m' => decide (m'.pair ≠ m.pair)) := by
  refine ⟨nodup_filter_pair h.once _, fun key value => ?_⟩
  rw [lookup_deleteAll]
  by_cases hkey : key ∈ m.keys
  · rw [if_pos hkey, hbase key (Mail.under_of_mem_keys hkey)]
    refine ⟨fun hnone => absurd hnone (by simp), ?_⟩
    rintro (⟨m', hm', hw'⟩ | hnone)
    · have hne := of_decide_eq_true (List.mem_filter.mp hm').2
      exact absurd (Mail.pair_of_mem_keys (Mail.mem_keys_of_mem_writes hw') hkey) hne
    · exact absurd hnone (by simp)
  · rw [if_neg hkey, h.lookup]
    refine or_congr_left ⟨?_, ?_⟩
    · rintro ⟨m', hm', hw'⟩
      refine ⟨m', List.mem_filter.mpr ⟨hm', decide_eq_true fun hpair => hkey ?_⟩, hw'⟩
      rw [← Mail.keys_eq_of_header hpair (hsame m' hm' hpair)]
      exact Mail.mem_keys_of_mem_writes hw'
    · rintro ⟨m', hm', hw'⟩
      exact ⟨m', List.mem_of_mem_filter hm', hw'⟩

theorem Holds.lookup_index (h : Holds rt base disk q) (hbase : Foreign base) {rx hash : Fixed 32}
    {value : Bytes} :
    disk.lookup (indexKey (Hex.encode rx.val) (Hex.encode hash.val)) = some value ↔
      ∃ m ∈ q, m.pair = (rx, hash) ∧ value = utf8 (text m.header) := by
  have hindex : ∀ m : Mail, m.pair = (rx, hash) →
      m.index = ["mbox", "x", Hex.encode rx.val, Hex.encode hash.val] := by
    rintro m hpair
    cases hpair
    rfl
  have hforeign := hbase ["mbox", "x", Hex.encode rx.val, Hex.encode hash.val] (under_mbox_cons _ _)
  rw [indexKey_eq, h.lookup, hforeign]
  constructor
  · rintro (⟨m, hm, hw⟩ | hnone)
    · have hother : ["mbox", "x", Hex.encode rx.val, Hex.encode hash.val] ∈
          (⟨rx, hash, m.env, m.storedAt⟩ : Mail).keys := by simp [Mail.keys, Mail.index, Mail.rxHex]
      have hpair : m.pair = (rx, hash) :=
        Mail.pair_of_mem_keys (Mail.mem_keys_of_mem_writes hw) hother
      refine ⟨m, hm, hpair, Mail.eq_of_mem_writes hw ?_⟩
      rw [← hindex m hpair]
      simp [Mail.writes]
    · cases hnone
  · rintro ⟨m, hm, hpair, rfl⟩
    refine .inl ⟨m, hm, ?_⟩
    rw [← hindex m hpair]
    simp [Mail.writes]

theorem Holds.index_eq_none (h : Holds rt base disk q) (hbase : Foreign base) {rx hash : Fixed 32} :
    disk.lookup (indexKey (Hex.encode rx.val) (Hex.encode hash.val)) = none ↔
      (rx, hash) ∉ q.map Mail.pair := by
  rw [Option.eq_none_iff_forall_ne_some, List.mem_map]
  constructor
  · rintro hnone ⟨m, hm, hpair⟩
    exact hnone _ ((h.lookup_index hbase).mpr ⟨m, hm, hpair, rfl⟩)
  · intro hno value hvalue
    obtain ⟨m, hm, hpair, -⟩ := (h.lookup_index hbase).mp hvalue
    exact hno ⟨m, hm, hpair⟩

theorem replace_of_notMem {m : Mail} (h : m.pair ∉ q.map Mail.pair) : replace q m = q ++ [m] := by
  rw [replace, List.filter_eq_self.mpr]
  intro m' hm'
  refine decide_eq_true fun hpair => h ?_
  rw [← hpair]
  exact List.mem_map_of_mem hm'

theorem Holds.store (h : Holds rt base disk q) (hbase : Foreign base) (rx hash : Fixed 32)
    (env : EncryptedEnvelope) (storedAt : Time) :
    Holds rt base (call rt disk (.store rx hash env storedAt))
      (Mail.next q (.store rx hash env storedAt)) := by
  unfold call Mail.next Mailbox.store
  dsimp only
  by_cases hsplit : env.isSplit = false
  · rw [if_pos hsplit, if_pos (.inl hsplit)]
    exact h
  · rw [if_neg hsplit]
    cases hindex : disk.lookup (indexKey (Hex.encode rx.val) (Hex.encode hash.val)) with
    | some value =>
      obtain ⟨m, hm, hpair, -⟩ := (h.lookup_index hbase).mp hindex
      rw [if_pos Option.isSome_some, if_pos (.inr (List.mem_map.mpr ⟨m, hm, hpair⟩))]
      exact h
    | none =>
      have hnew := (h.index_eq_none hbase).mp hindex
      rw [if_neg (by simp), if_neg (not_or.mpr ⟨hsplit, hnew⟩)]
      have hput := h.putAll hbase (m := ⟨rx, hash, env, storedAt⟩) fun m' hm' hpair =>
        absurd (List.mem_map.mpr ⟨m', hm', hpair⟩) hnew
      rw [replace_of_notMem hnew] at hput
      rw [← Mail.storeBatch_eq] at hput
      exact hput

theorem Holds.delete (h : Holds rt base disk q) (hbase : Foreign base) (rx hash : Fixed 32) :
    Holds rt base (call rt disk (.delete rx hash)) (Mail.next q (.delete rx hash)) := by
  unfold call Mail.next Mailbox.delete
  dsimp only
  cases hindex : disk.lookup (indexKey (Hex.encode rx.val) (Hex.encode hash.val)) with
  | none =>
    have hnew := (h.index_eq_none hbase).mp hindex
    rw [List.filter_eq_self.mpr]
    · exact h
    · exact fun m hm => decide_eq_true fun hpair => hnew (List.mem_map.mpr ⟨m, hm, hpair⟩)
  | some value =>
    obtain ⟨m, hm, hpair, rfl⟩ := (h.lookup_index hbase).mp hindex
    cases hpair
    dsimp only
    rw [show Hex.encode m.rx.val = m.rxHex from rfl, Mail.deleteBatch_eq]
    exact h.deleteAll hbase fun m' hm' hpair => congrArg Mail.header (h.eq_of_pair hm' hm hpair)

theorem Holds.call (h : Holds rt base disk q) (hbase : Foreign base) (c : MailboxCall) :
    Holds rt base (call rt disk c) (Mail.next q c) := by
  cases c with
  | store rx hash env storedAt => exact h.store hbase rx hash env storedAt
  | delete rx hash => exact h.delete hbase rx hash

theorem holds_run (rt : MailboxRuntime) (hbase : Foreign base) (cs : List MailboxCall) :
    Holds rt base (run rt base cs) (Mail.held cs) := by
  have hrun : ∀ cs disk q, Holds rt base disk q →
      Holds rt base (run rt disk cs) (Machine.run Mail.next q cs) := by
    intro cs
    induction cs with
    | nil => exact fun _ _ h => h
    | cons c cs ih => exact fun _ _ h => ih _ _ (h.call hbase c)
  exact hrun cs base [] (holds_base rt base)

end Holds

section Stats

variable {rt : MailboxRuntime} {base disk : Disk} {q : List Mail}

def weigh (e : Pb.MailboxEntry) : UInt64 × UInt64 :=
  (1, e.bodySize + UInt64.ofNat e.encryptedHeader.length)

theorem foldl_statsEntry (rt : MailboxRuntime) (es : List (Key × Bytes)) (acc : UInt64 × UInt64) :
    es.foldl (statsEntry rt) acc = acc +
      ((es.filterMap fun r => rt.entry.unmarshal r.2).map weigh).sum := by
  induction es generalizing acc with
  | nil => simp
  | cons r es ih =>
    rw [List.foldl_cons, ih, List.filterMap_cons, statsEntry]
    cases rt.entry.unmarshal r.2 with
    | none => rfl
    | some e =>
      have hone : (acc.1 + 1, acc.2 + (e.bodySize + UInt64.ofNat e.encryptedHeader.length)) = acc +
          weigh e := rfl
      dsimp only
      rw [List.map_cons, List.sum_cons, ← add_assoc acc, hone]

def filedHeader (rt : MailboxRuntime) (m : Mail) : Key × Bytes :=
  (m.header, rt.entry.marshal (entryOf m.hash m.env m.storedAt))

theorem statsPrefix_eq {pre : Key} (pick : List Key) {l : List Mail}
    (hnodup : (l.map Mail.header).Nodup)
    (hmem : ∀ key value, (key, value) ∈ l.map (filedHeader rt) ↔
      disk.lookup key = some value ∧ under pre key = true) :
    statsPrefix rt pick disk pre = (l.map fun m => ((1 : UInt64), entrySize m.env)).sum := by
  have hperm : (query pre pick disk).Perm (l.map (filedHeader rt)) := by
    refine perm_query pick ?_ hmem
    rw [List.map_map]
    exact hnodup
  have hdecoded := ((hperm.filterMap fun r => rt.entry.unmarshal r.2).map weigh).sum_eq
  unfold statsPrefix
  rw [foldl_statsEntry, hdecoded, List.filterMap_map]
  have hentries : (fun r => rt.entry.unmarshal r.2) ∘ filedHeader rt =
      fun m : Mail => some (entryOf m.hash m.env m.storedAt) := by
    funext m
    exact rt.entry.unmarshal_marshal _
  rw [hentries, List.filterMap_eq_map', List.map_map, Prod.mk_zero_zero, zero_add]
  rfl

theorem sum_ones {α : Type} (l : List α) (f : α → UInt64) :
    (l.map fun x => ((1 : UInt64), f x)).sum = (UInt64.ofNat l.length, (l.map f).sum) := by
  induction l with
  | nil => rfl
  | cons x l ih =>
    rw [List.map_cons, List.sum_cons, ih, List.map_cons, List.sum_cons, List.length_cons,
      UInt64.ofNat_add, UInt64.add_comm (UInt64.ofNat _)]
    rfl

theorem under_mbox {pre key : Key} (hpre : ["mbox"] <+: pre) (h : under pre key = true) :
    under ["mbox"] key = true := by
  unfold under at h ⊢
  rw [Bool.and_eq_true, List.isPrefixOf_iff_prefix, decide_eq_true_iff] at h ⊢
  exact ⟨hpre.trans h.1, lt_of_le_of_lt hpre.length_le h.2⟩

theorem mem_writes_header (m : Mail) : filedHeader rt m ∈ m.writes rt := by
  simp [Mail.writes, filedHeader]

theorem Holds.mem_headers (h : Holds rt base disk q) (hbase : Foreign base) {pre : Key}
    (hpre : mboxHeaderPrefix <+: pre) {key : Key} {value : Bytes} :
    (key, value) ∈ (q.filter fun m => under pre m.header).map (filedHeader rt) ↔
      disk.lookup key = some value ∧ under pre key = true := by
  rw [List.mem_map, h.lookup]
  constructor
  · rintro ⟨m, hm, heq⟩
    obtain ⟨hmem, hunder⟩ := List.mem_filter.mp hm
    cases heq
    exact ⟨.inl ⟨m, hmem, mem_writes_header m⟩, hunder⟩
  · rintro ⟨⟨m, hm, hw⟩ | hforeign, hunder⟩
    · have hother : key ≠ m.body ∧ key ≠ m.index := by
        unfold under at hunder
        rw [Bool.and_eq_true, List.isPrefixOf_iff_prefix] at hunder
        have hheader := hpre.trans hunder.1
        constructor
        · rintro rfl
          simp [mboxHeaderPrefix, Mail.body] at hheader
        · rintro rfl
          simp [mboxHeaderPrefix, Mail.index] at hheader
      have hfiled : (key, value) = filedHeader rt m := by
        simpa [Mail.writes, filedHeader, hother.1, hother.2] using hw
      refine ⟨m, List.mem_filter.mpr ⟨hm, ?_⟩, hfiled.symm⟩
      cases hfiled
      exact hunder
    · have hmbox : ["mbox"] <+: pre := (show ["mbox"] <+: mboxHeaderPrefix by decide).trans hpre
      rw [hbase key (under_mbox hmbox hunder)] at hforeign
      cases hforeign

theorem Holds.nodup_headers (h : Holds rt base disk q) (p : Mail → Bool) :
    ((q.filter p).map Mail.header).Nodup := by
  refine List.Nodup.map_on ?_ (h.nodup.filter p)
  intro m hm m' hm' hheader
  refine h.eq_of_pair (List.mem_of_mem_filter hm) (List.mem_of_mem_filter hm') ?_
  have hmem : m.header ∈ m'.keys := by simp [Mail.keys, hheader]
  exact Mail.pair_of_mem_keys (by simp [Mail.keys]) hmem

theorem Holds.statsPrefix (h : Holds rt base disk q) (hbase : Foreign base) {pre : Key}
    (hpre : mboxHeaderPrefix <+: pre) (pick : List Key) : statsPrefix rt pick disk pre =
      ((q.filter fun m => under pre m.header).map fun m => ((1 : UInt64), entrySize m.env)).sum :=
  statsPrefix_eq pick (h.nodup_headers _) fun _ _ => h.mem_headers hbase hpre

theorem under_headerPrefix (rx : Fixed 32) (m : Mail) :
    under (headerPrefix (Hex.encode rx.val)) m.header = decide (m.rx = rx) := by
  rw [headerPrefix_eq, Bool.eq_iff_iff, decide_eq_true_iff]
  unfold under
  rw [Bool.and_eq_true, List.isPrefixOf_iff_prefix]
  simp only [Mail.header, Mail.rxHex, List.cons_prefix_cons, List.nil_prefix, List.length_cons,
    List.length_nil]
  constructor
  · rintro ⟨⟨-, -, hrx, -⟩, -⟩
    exact (Fixed.ext (Hex.encode_injective hrx)).symm
  · rintro rfl
    simp

theorem Holds.statsOwner (h : Holds rt base disk q) (hbase : Foreign base) (rx : Fixed 32)
    (pick : List Key) :
    statsOwner rt pick disk (Hex.encode rx.val) =
      ((q.filter fun m => decide (m.rx = rx)).map fun m =>
        ((1 : UInt64), entrySize m.env)).sum := by
  have hpre : mboxHeaderPrefix <+: headerPrefix (Hex.encode rx.val) := by
    rw [headerPrefix_eq]
    exact ⟨[Hex.encode rx.val], rfl⟩
  rw [Mailbox.statsOwner, h.statsPrefix hbase hpre]
  simp only [under_headerPrefix]

theorem Holds.stats (h : Holds rt base disk q) (hbase : Foreign base) (pick : List Key) :
    stats rt pick disk = (q.map fun m => ((1 : UInt64), entrySize m.env)).sum := by
  rw [Mailbox.stats, h.statsPrefix hbase (List.prefix_refl _), List.filter_eq_self.mpr]
  intro m _
  simp [under, mboxHeaderPrefix, Mail.header]

theorem sum_by_owner {β : Type} [AddCommGroup β] (f : Mail → β) {rxs : List (Fixed 32)}
    (hnodup : rxs.Nodup) {q : List Mail} (hall : ∀ m ∈ q, m.rx ∈ rxs) :
    (rxs.map fun rx => ((q.filter fun m => decide (m.rx = rx)).map f).sum).sum = (q.map f).sum := by
  induction q with
  | nil => simp
  | cons m q ih =>
    have hsplit : ∀ rx, (((m :: q).filter fun m => decide (m.rx = rx)).map f).sum =
        (if rx = m.rx then f m else 0) + ((q.filter fun m => decide (m.rx = rx)).map f).sum := by
      intro rx
      rw [List.filter_cons]
      by_cases hrx : m.rx = rx
      · rw [if_pos (decide_eq_true hrx), if_pos hrx.symm, List.map_cons, List.sum_cons]
      · rw [if_neg (by simpa using hrx), if_neg (Ne.symm hrx), zero_add]
    have hone := List.sum_map_ite_eq rxs (fun _ => f m) (fun _ => 0) m.rx
    rw [List.count_eq_one_of_mem hnodup (hall m (List.mem_cons_self ..))] at hone
    simp only [hsplit, List.sum_map_add, hone, ih fun m' hm' =>
      hall m' (List.mem_cons_of_mem _ hm'), List.map_cons, List.sum_cons]
    simp [one_nsmul]

end Stats

def IsHeader (rx hash : Fixed 32) (key : Key) : Prop :=
  ∃ seq, key = ["mbox", "h", Hex.encode rx.val, seq, Hex.encode hash.val]

/-- The three entries of a hash are there together, and one of each: the index holds the key of the
header. -/
structure ThreeKeys (disk : Disk) : Prop where
  paired : ∀ rx hash,
    (disk.lookup (indexKey (Hex.encode rx.val) (Hex.encode hash.val)) = none ∧
      disk.lookup (bodyKey (Hex.encode rx.val) (Hex.encode hash.val)) = none ∧
      ∀ key, IsHeader rx hash key → disk.lookup key = none) ∨
    ∃ header, IsHeader rx hash header ∧ disk.lookup header ≠ none ∧
      disk.lookup (bodyKey (Hex.encode rx.val) (Hex.encode hash.val)) ≠ none ∧
      disk.lookup (indexKey (Hex.encode rx.val) (Hex.encode hash.val)) = some (utf8 (text header)) ∧
      ∀ key, IsHeader rx hash key → disk.lookup key ≠ none → key = header
  shaped : ∀ key, disk.lookup key ≠ none →
    (under mboxHeaderPrefix key = true → ∃ rx hash, IsHeader rx hash key) ∧
    (under mboxBodyPrefix key = true →
      ∃ rx hash : Fixed 32, key = bodyKey (Hex.encode rx.val) (Hex.encode hash.val)) ∧
    (under mboxIndexPrefix key = true →
      ∃ rx hash : Fixed 32, key = indexKey (Hex.encode rx.val) (Hex.encode hash.val))

section ThreeKeys

variable {rt : MailboxRuntime} {base disk : Disk} {q : List Mail}

theorem Mail.isHeader (m : Mail) : IsHeader m.rx m.hash m.header := ⟨m.seq, rfl⟩

theorem Holds.lookup_mail (h : Holds rt base disk q) {m : Mail} (hm : m ∈ q) {w : Key × Bytes}
    (hw : w ∈ m.writes rt) : disk.lookup w.1 = some w.2 := (h.lookup w.1 w.2).mpr (.inl ⟨m, hm, hw⟩)

theorem Holds.mail_of_lookup (h : Holds rt base disk q) (hbase : Foreign base) {key : Key}
    (hunder : under ["mbox"] key = true) (hlookup : disk.lookup key ≠ none) : ∃ m ∈ q,
    key ∈ m.keys := by
  obtain ⟨value, hvalue⟩ := Option.ne_none_iff_exists'.mp hlookup
  rcases (h.lookup key value).mp hvalue with ⟨m, hm, hw⟩ | hforeign
  · exact ⟨m, hm, Mail.mem_keys_of_mem_writes hw⟩
  · rw [hbase key hunder] at hforeign
    cases hforeign

theorem Holds.header_eq (h : Holds rt base disk q) (hbase : Foreign base) {rx hash : Fixed 32}
    {key : Key} (hkey : IsHeader rx hash key) (hlookup : disk.lookup key ≠ none) :
    ∃ m ∈ q, m.pair = (rx, hash) ∧ key = m.header := by
  obtain ⟨seq, rfl⟩ := hkey
  obtain ⟨m, hm, hmem⟩ := h.mail_of_lookup hbase (under_mbox_cons _ _) hlookup
  have hheader : ["mbox", "h", Hex.encode rx.val, seq, Hex.encode hash.val] = m.header := by
    simpa [Mail.keys, Mail.body, Mail.index] using hmem
  have hparts := hheader
  simp only [Mail.header, Mail.rxHex, List.cons.injEq, and_true, true_and] at hparts
  refine ⟨m, hm, ?_, hheader⟩
  exact Prod.ext (Fixed.ext (Hex.encode_injective hparts.1)).symm
    (Fixed.ext (Hex.encode_injective hparts.2.2)).symm

theorem Holds.threeKeys (h : Holds rt base disk q) (hbase : Foreign base) : ThreeKeys disk := by
  refine ⟨fun rx hash => ?_, fun key hlookup => ?_⟩
  · by_cases hheld : ∃ m ∈ q, m.pair = (rx, hash)
    · obtain ⟨m, hm, hpair⟩ := hheld
      cases hpair
      refine .inr ⟨m.header, Mail.isHeader m, ?_, ?_, ?_, ?_⟩
      · have hheader := h.lookup_mail hm (mem_writes_header m)
        exact fun hnone => Option.some_ne_none _ (hheader.symm.trans hnone)
      · have hbody :=
          h.lookup_mail hm (w := (m.body, rt.body.marshal (bodyOf m.env))) (by simp [Mail.writes])
        rw [bodyKey_eq]
        exact fun hnone => Option.some_ne_none _ (hbody.symm.trans hnone)
      · exact (h.lookup_index hbase).mpr ⟨m, hm, rfl, rfl⟩
      · intro key hkey hthere
        obtain ⟨m', hm', hpair', rfl⟩ := h.header_eq hbase hkey hthere
        rw [h.eq_of_pair hm' hm hpair']
    · refine .inl ⟨?_, ?_, ?_⟩
      · rw [h.index_eq_none hbase, List.mem_map]
        exact hheld
      · by_contra hthere
        rw [bodyKey_eq] at hthere
        obtain ⟨m, hm, hmem⟩ := h.mail_of_lookup hbase (under_mbox_cons _ _) hthere
        have hother : ["mbox", "b", Hex.encode rx.val, Hex.encode hash.val] ∈
            (⟨rx, hash, m.env, m.storedAt⟩ : Mail).keys := by
              simp [Mail.keys, Mail.body, Mail.rxHex]
        exact hheld ⟨m, hm, Mail.pair_of_mem_keys hmem hother⟩
      · intro key hkey
        by_contra hthere
        obtain ⟨m, hm, hpair, -⟩ := h.header_eq hbase hkey hthere
        exact hheld ⟨m, hm, hpair⟩
  · have hmail : ∀ {pre : Key}, ["mbox"] <+: pre → under pre key = true → ∃ m ∈ q, key ∈ m.keys ∧
        pre <+: key := by
      intro pre hpre hunder
      obtain ⟨m, hm, hmem⟩ := h.mail_of_lookup hbase (under_mbox hpre hunder) hlookup
      unfold under at hunder
      rw [Bool.and_eq_true, List.isPrefixOf_iff_prefix] at hunder
      exact ⟨m, hm, hmem, hunder.1⟩
    refine ⟨fun hunder => ?_, fun hunder => ?_, fun hunder => ?_⟩
    · obtain ⟨m, -, hmem, hpre⟩ := hmail (by decide) hunder
      refine ⟨m.rx, m.hash, m.seq, ?_⟩
      simp only [Mail.keys, List.mem_cons, List.not_mem_nil, or_false] at hmem
      rcases hmem with rfl | rfl | rfl
      · rfl
      · simp [mboxHeaderPrefix, Mail.body] at hpre
      · simp [mboxHeaderPrefix, Mail.index] at hpre
    · obtain ⟨m, -, hmem, hpre⟩ := hmail (by decide) hunder
      refine ⟨m.rx, m.hash, ?_⟩
      rw [bodyKey_eq]
      simp only [Mail.keys, List.mem_cons, List.not_mem_nil, or_false] at hmem
      rcases hmem with rfl | rfl | rfl
      · simp [mboxBodyPrefix, Mail.header] at hpre
      · rfl
      · simp [mboxBodyPrefix, Mail.index] at hpre
    · obtain ⟨m, -, hmem, hpre⟩ := hmail (by decide) hunder
      refine ⟨m.rx, m.hash, ?_⟩
      rw [indexKey_eq]
      simp only [Mail.keys, List.mem_cons, List.not_mem_nil, or_false] at hmem
      rcases hmem with rfl | rfl | rfl
      · simp [mboxIndexPrefix, Mail.header] at hpre
      · simp [mboxIndexPrefix, Mail.body] at hpre
      · rfl

def KeyOf (rx hash : Fixed 32) (key : Key) : Prop :=
  key = indexKey (Hex.encode rx.val) (Hex.encode hash.val) ∨
  key = bodyKey (Hex.encode rx.val) (Hex.encode hash.val) ∨ IsHeader rx hash key

theorem Mail.keyOf {m : Mail} {key : Key} (h : key ∈ m.keys) : KeyOf m.rx m.hash key := by
  unfold KeyOf
  rw [indexKey_eq, bodyKey_eq]
  simp only [Mail.keys, List.mem_cons, List.not_mem_nil, or_false] at h
  rcases h with rfl | rfl | rfl
  · exact .inr (.inr (Mail.isHeader m))
  · exact .inr (.inl rfl)
  · exact .inl rfl

theorem Holds.lookup_delete (h : Holds rt base disk q) (hbase : Foreign base) (rx hash : Fixed 32)
    (key : Key) :
    (KeyOf rx hash key → (Mailbox.delete disk (Hex.encode rx.val) hash).lookup key = none) ∧
    (¬ KeyOf rx hash key → (Mailbox.delete disk (Hex.encode rx.val) hash).lookup key =
      disk.lookup key) := by
  have hafter := (h.delete hbase rx hash).threeKeys hbase
  change ThreeKeys (Mailbox.delete disk (Hex.encode rx.val) hash) at hafter
  constructor
  · intro hkey
    have hgone : (Mailbox.delete disk (Hex.encode rx.val) hash).lookup
        (indexKey (Hex.encode rx.val) (Hex.encode hash.val)) = none := by
      refine ((h.delete hbase rx hash).index_eq_none hbase).mpr ?_
      rw [List.mem_map]
      rintro ⟨m, hm, hpair⟩
      exact of_decide_eq_true (List.mem_filter.mp hm).2 hpair
    rcases hafter.paired rx hash with ⟨hindex, hbody, hheader⟩ | ⟨header, -, -, -, hindex, -⟩
    · rcases hkey with rfl | rfl | hkey
      · exact hindex
      · exact hbody
      · exact hheader key hkey
    · rw [hgone] at hindex
      cases hindex
  · intro hkey
    unfold Mailbox.delete
    cases hindex : disk.lookup (indexKey (Hex.encode rx.val) (Hex.encode hash.val)) with
    | none => rfl
    | some value =>
      obtain ⟨m, hm, hpair, rfl⟩ := (h.lookup_index hbase).mp hindex
      cases hpair
      dsimp only
      rw [show Hex.encode m.rx.val = m.rxHex from rfl, Mail.deleteBatch_eq, lookup_deleteAll,
        if_neg]
      exact fun hmem => hkey (Mail.keyOf hmem)

end ThreeKeys

def Present (disk : Disk) (rx hash : Fixed 32) : Prop :=
  disk.lookup (indexKey (Hex.encode rx.val) (Hex.encode hash.val)) ≠ none

/-- Over every sequence of calls: the three entries of a message are there together; storing a
present hash again changes nothing; a delete takes the keys of its hash and no others; and the
statistics count the messages held and add up their sizes, for one recipient and over all. -/
theorem mailbox_three_keys (rt : MailboxRuntime) {base : Disk} (hbase : Foreign base)
    (cs : List MailboxCall) :
    ThreeKeys (run rt base cs) ∧
    ((Mail.held cs).map Mail.pair).Nodup ∧
    (∀ rx hash, Present (run rt base cs) rx hash ↔ ∃ m ∈ Mail.held cs, m.pair = (rx, hash)) ∧
    (∀ rx hash env storedAt, Present (run rt base cs) rx hash →
      call rt (run rt base cs) (.store rx hash env storedAt) = run rt base cs) ∧
    (∀ rx hash key,
      (KeyOf rx hash key → (call rt (run rt base cs) (.delete rx hash)).lookup key = none) ∧
      (¬ KeyOf rx hash key →
        (call rt (run rt base cs) (.delete rx hash)).lookup key = (run rt base cs).lookup key)) ∧
    (∀ pick rx, statsOwner rt pick (run rt base cs) (Hex.encode rx.val) =
      (UInt64.ofNat ((Mail.held cs).filter fun m => decide (m.rx = rx)).length,
        (((Mail.held cs).filter fun m => decide (m.rx = rx)).map fun m => entrySize m.env).sum)) ∧
    ∀ pick (picks : Fixed 32 → List Key) (rxs : List (Fixed 32)), rxs.Nodup →
      (∀ m ∈ Mail.held cs, m.rx ∈ rxs) → stats rt pick (run rt base cs) =
      (rxs.map fun rx => statsOwner rt (picks rx) (run rt base cs) (Hex.encode rx.val)).sum := by
  have h := holds_run rt hbase cs
  have hpresent : ∀ rx hash, Present (run rt base cs) rx hash ↔ ∃ m ∈ Mail.held cs,
      m.pair = (rx, hash) := by
    intro rx hash
    rw [Present, Ne, h.index_eq_none hbase, not_not, List.mem_map]
  refine ⟨h.threeKeys hbase, h.once, hpresent, ?_, h.lookup_delete hbase, ?_, ?_⟩
  · intro rx hash env storedAt hheld
    obtain ⟨value, hindex⟩ := Option.ne_none_iff_exists'.mp hheld
    unfold call store
    dsimp only
    split
    · rfl
    · rw [hindex, if_pos Option.isSome_some]
      rfl
  · intro pick rx
    rw [h.statsOwner hbase, sum_ones]
  · intro pick picks rxs hnodup hall
    rw [h.stats hbase, ← sum_by_owner _ hnodup hall]
    simp only [h.statsOwner hbase]

noncomputable def idealRuntime : MailboxRuntime :=
  ⟨Classical.choice (Codec.nonempty Pb.MailboxEntry),
    Classical.choice (Codec.nonempty Pb.MailboxBody)⟩

def smallEnvelope : EncryptedEnvelope :=
  ⟨0, .zero 16, [], [], .zero 12, .zero 16, 0, 0, .zero 32, [1], .zero 12, .zero 16, 0, [2, 3],
    .zero 12, .zero 16, 0, []⟩

def oneStore : List MailboxCall := [.store (.zero 32) (.zero 32) smallEnvelope (Time.ofUnix 7)]

theorem three_keys_of_one_message :
    ThreeKeys (run idealRuntime ∅ oneStore) ∧
      Present (run idealRuntime ∅ oneStore) (.zero 32) (.zero 32) ∧
    statsOwner idealRuntime [] (run idealRuntime ∅ oneStore) (Hex.encode (Fixed.zero 32).val) =
      (1, 3) := by
  have hheld : Mail.held oneStore = [⟨.zero 32, .zero 32, smallEnvelope, Time.ofUnix 7⟩] := rfl
  obtain ⟨hkeys, -, hpresent, -, -, howner, -⟩ :=
    mailbox_three_keys idealRuntime (show Foreign ∅ from fun _ _ => rfl) oneStore
  refine ⟨hkeys, (hpresent _ _).mpr ⟨_, by rw [hheld]; exact List.mem_singleton_self _, rfl⟩, ?_⟩
  rw [howner, hheld]
  rfl

end Mailbox

end Dmcn
