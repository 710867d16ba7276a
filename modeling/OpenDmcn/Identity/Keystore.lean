import OpenDmcn.Lib.Base64
import OpenDmcn.Lib.Guard
import OpenDmcn.Lib.Run
import OpenDmcn.Lib.Time
import OpenDmcn.Lib.Utf8
import OpenDmcn.Sealing
import Mathlib.Data.List.AList

/-! The keystore (`keystore.go`): one encrypted file with the key pairs of all addresses, which
every `Store` reads, changes and writes again. A write truncates the file first and may end at any
byte. -/

namespace Dmcn.Keystore

open Go Guard

structure KeyPair where
  ed25519Public : Bytes
  ed25519Private : Bytes
  x25519Public : Fixed 32
  x25519Private : Fixed 32
  createdAt : Time
  deviceID : Fixed 16
  deriving DecidableEq

structure KeystoreFile where
  version : ℤ
  salt : String
  nonce : String
  ciphertext : String
  tag : String
  deriving DecidableEq, Countable

structure StoredIdentity where
  ed25519Public : String
  ed25519Private : String
  x25519Public : String
  x25519Private : String
  deviceID : String
  createdAt : Int64
  deriving DecidableEq, Countable

abbrev Identities := AList fun _ : Bytes => StoredIdentity

/-- The forms in which the file and the map are written (`encoding/json`). No map is read as the
empty one. -/
structure Json where
  marshalFile : KeystoreFile → Bytes
  unmarshalFile : Bytes → Option KeystoreFile
  marshalIdentities : Identities → Bytes
  unmarshalIdentities : Bytes → Option Identities

/-- What is written is read again, a map if its keys are UTF-8; and no key that is read is anything
else. -/
structure Json.Lawful (j : Json) : Prop where
  file : ∀ kf, j.unmarshalFile (j.marshalFile kf) = some kf
  identities : ∀ m : Identities, (∀ a ∈ m, Utf8.valid a = true) →
    ∃ m', j.unmarshalIdentities (j.marshalIdentities m) = some m' ∧ ∀ a, m'.lookup a = m.lookup a
  keys : ∀ b m, j.unmarshalIdentities b = some m → ∀ a ∈ m, Utf8.valid a = true

inductive Err where
  | notExist | readFile | invalidFormat | decodeSalt | decodeNonce | decodeCiphertext | decodeTag
  | deriveKey
  | decryptionFailed | unmarshalIdentities | generateSalt | encrypt | writeFile | notFound
  | decodeEd25519Public
  | decodeEd25519Private | decodeX25519Public | decodeX25519Private | decodeDeviceID
  deriving DecidableEq

def hkdfInfo : Bytes := utf8 "dmcn-keystore-v1"

def encodeToString (b : Bytes) : String := String.ofList (Base64.encode b)

section Code

variable (j : Json) (p : Primitives) (passphrase : Bytes)

def loadAll (read : Except Err Bytes) : Except Err Identities := do
  let data ← read
  let kf ← need (j.unmarshalFile data) .invalidFormat
  let salt ← need (Base64.decodeString kf.salt) .decodeSalt
  let nonce ← need (Base64.decodeString kf.nonce) .decodeNonce
  let ciphertext ← need (Base64.decodeString kf.ciphertext) .decodeCiphertext
  let tag ← need (Base64.decodeString kf.tag) .decodeTag
  let key ← need (Crypto.deriveKey p passphrase salt hkdfInfo Crypto.aes256KeySize) .deriveKey
  let plaintext ← need (Crypto.aesGCMDecrypt p key nonce ciphertext tag) .decryptionFailed
  need (j.unmarshalIdentities plaintext) .unmarshalIdentities

def readFile (file : Option Bytes) : Except Err Bytes := need file .notExist

def KeyPair.stored (kp : KeyPair) : StoredIdentity where
  ed25519Public := encodeToString kp.ed25519Public
  ed25519Private := encodeToString kp.ed25519Private
  x25519Public := encodeToString kp.x25519Public.val
  x25519Private := encodeToString kp.x25519Private.val
  deviceID := encodeToString kp.deviceID.val
  createdAt := kp.createdAt.unix

def StoredIdentity.toKeyPair (s : StoredIdentity) : Except Err KeyPair := do
  let edPub ← need (Base64.decodeString s.ed25519Public) .decodeEd25519Public
  let edPriv ← need (Base64.decodeString s.ed25519Private) .decodeEd25519Private
  let xPub ← need (Base64.decodeString s.x25519Public) .decodeX25519Public
  let xPriv ← need (Base64.decodeString s.x25519Private) .decodeX25519Private
  let deviceID ← need (Base64.decodeString s.deviceID) .decodeDeviceID
  return {
    ed25519Public := edPub
    ed25519Private := edPriv
    x25519Public := .copy 32 xPub
    x25519Private := .copy 32 xPriv
    createdAt := .ofUnix s.createdAt
    deviceID := .copy 16 deviceID }

def load (file : Option Bytes) (address : Bytes) : Except Err KeyPair := do
  let identities ← match loadAll j p passphrase (readFile file) with
    | .error .notExist => .error .notFound
    | loaded => loaded
  let stored ← need (identities.lookup address) .notFound
  stored.toKeyPair

structure Draws where
  salt : Fixed 32
  nonce : Fixed 12

def sealedFile (draws : Draws) (identities : Identities) : Except Err Bytes := do
  let plaintext := j.marshalIdentities identities
  let key ← need (Crypto.deriveKey p passphrase draws.salt.val hkdfInfo Crypto.aes256KeySize)
      .deriveKey
  let (ciphertext, tag) ← need (Crypto.aesGCMEncrypt p key draws.nonce plaintext) .encrypt
  return j.marshalFile {
    version := 1
    salt := encodeToString draws.salt.val
    nonce := encodeToString draws.nonce.val
    ciphertext := encodeToString ciphertext
    tag := encodeToString tag }

/-- How far a `Store` gets: it cannot read the file, draw its bytes or open the file; or it
truncates the file and writes the first bytes and no more; or it writes all of them, and fails or is
interrupted behind that; or it returns. -/
inductive Fate where
  | unreadable
  | undrawn
  | unopened
  | torn (n : ℕ)
  | unreturned
  | done
  deriving DecidableEq

structure Call where
  address : Bytes
  kp : KeyPair
  draws : Draws
  fate : Fate

def writeFile (file : Option Bytes) (data : Bytes) : Fate → Option Bytes
  | .torn n => some (data.take n)
  | .unreturned | .done => some data
  | _ => file

def saveAll (file : Option Bytes) (c : Call) (identities : Identities) : Option Bytes × Bool :=
  let sealed : Except Err Bytes := do
    refuse (c.fate = .undrawn) .generateSalt
    sealedFile j p passphrase c.draws identities
  match sealed with
  | .ok data => (writeFile file data c.fate, decide (c.fate = .done))
  | .error _ => (file, false)

def store (file : Option Bytes) (c : Call) : Option Bytes × Bool :=
  match loadAll j p passphrase (if c.fate = .unreadable then .error .readFile else readFile file)
    with
  | .ok identities => saveAll j p passphrase file c (identities.insert c.address c.kp.stored)
  | .error .notExist =>
    saveAll j p passphrase file c ((∅ : Identities).insert c.address c.kp.stored)
  | .error _ => (file, false)

end Code

section Runs

variable (j : Json) (p : Primitives) (passphrase : Bytes)

/-- The file, and for each address the key pair of its last `Store` if that returned. -/
structure State where
  file : Option Bytes
  saved : Bytes → Option KeyPair

def start (file : Option Bytes) : State := ⟨file, fun _ => none⟩

def step (s : State) (c : Call) : State :=
  let (file, returned) := store j p passphrase s.file c
  ⟨file, fun a => if a = c.address then if returned then some c.kp else none else s.saved a⟩

def KeyPair.second (kp : KeyPair) : KeyPair := { kp with createdAt := kp.createdAt.wholeSecond }

def Kept (s : State) : Prop :=
  ∀ a kp, s.saved a = some kp → load j p passphrase s.file a = .ok kp.second

def Spared (s : State) (c : Call) : Prop :=
  (store j p passphrase s.file c).2 = false → ∀ a kp, a ≠ c.address → load j p passphrase s.file a =
    .ok kp →
    load j p passphrase (step j p passphrase s c).file a = .ok kp

/-- The address is UTF-8, and the write does not end between its first byte and its last one. -/
def Whole (c : Call) : Prop := Utf8.valid c.address = true ∧ ∀ n, c.fate ≠ .torn n

end Runs

section Stored

theorem decodeString_encodeToString (b : Bytes) : Base64.decodeString (encodeToString b) = some b :=
  Base64.decodeString_encode b

@[simp] theorem need_some {α : Type} (a : α) (e : Err) : need (some a) e = .ok a := rfl

theorem toKeyPair_stored (kp : KeyPair) : kp.stored.toKeyPair = .ok kp.second := by
  unfold KeyPair.stored StoredIdentity.toKeyPair KeyPair.second
  simp only [decodeString_encodeToString, need_some, ok_bind, Fixed.copy_val, Time.ofUnix_unix]
  rfl

variable {j : Json} {p : Primitives} {passphrase : Bytes}

theorem loadAll_sealedFile (hj : j.Lawful) (hp : p.Lawful) (draws : Draws) (m : Identities) :
    ∃ data, sealedFile j p passphrase draws m = .ok data ∧
      loadAll j p passphrase (.ok data) =
        need (j.unmarshalIdentities (j.marshalIdentities m)) .unmarshalIdentities := by
  have hderive : Crypto.deriveKey p passphrase draws.salt.val hkdfInfo Crypto.aes256KeySize =
      some (p.hkdf passphrase draws.salt.val hkdfInfo Crypto.aes256KeySize) := rfl
  have hencrypt : ∃ ciphertext tag, Crypto.aesGCMEncryptAAD p
      (p.hkdf passphrase draws.salt.val hkdfInfo Crypto.aes256KeySize) draws.nonce
        (j.marshalIdentities m) [] =
        some (ciphertext, tag) := aesGCMEncryptAAD_isSome (hp.length_hkdf ..)
  obtain ⟨ciphertext, tag, hencrypt⟩ := hencrypt
  have hdecrypt :
      Crypto.aesGCMDecrypt p (p.hkdf passphrase draws.salt.val hkdfInfo Crypto.aes256KeySize)
      draws.nonce.val ciphertext tag = some (j.marshalIdentities m) := decrypt_encrypt hp hencrypt
  have hsealed : sealedFile j p passphrase draws m = .ok (j.marshalFile {
      version := 1
      salt := encodeToString draws.salt.val
      nonce := encodeToString draws.nonce.val
      ciphertext := encodeToString ciphertext
      tag := encodeToString tag }) := by
    unfold sealedFile
    rw [hderive, need_some, ok_bind, Crypto.aesGCMEncrypt, hencrypt]
    rfl
  refine ⟨_, hsealed, ?_⟩
  unfold loadAll
  rw [ok_bind, hj.file]
  simp only [need_some, ok_bind, decodeString_encodeToString, hderive, hdecrypt]

theorem valid_of_loadAll (hj : j.Lawful) {read : Except Err Bytes} {m : Identities}
    (h : loadAll j p passphrase read = .ok m) : ∀ a ∈ m, Utf8.valid a = true := by
  unfold loadAll at h
  obtain ⟨data, -, h⟩ := bind_eq_ok.mp h
  obtain ⟨kf, -, h⟩ := bind_eq_ok.mp h
  obtain ⟨salt, -, h⟩ := bind_eq_ok.mp h
  obtain ⟨nonce, -, h⟩ := bind_eq_ok.mp h
  obtain ⟨ciphertext, -, h⟩ := bind_eq_ok.mp h
  obtain ⟨tag, -, h⟩ := bind_eq_ok.mp h
  obtain ⟨key, -, h⟩ := bind_eq_ok.mp h
  obtain ⟨plaintext, -, h⟩ := bind_eq_ok.mp h
  exact hj.keys plaintext m (need_eq_ok.mp h)

theorem load_of_loadAll {file : Option Bytes} {m : Identities}
    (h : loadAll j p passphrase (readFile file) = .ok m) (a : Bytes) : load j p passphrase file a =
    need (m.lookup a) .notFound >>= StoredIdentity.toKeyPair := by
  unfold load
  rw [h]
  rfl

def Before (j : Json) (p : Primitives) (passphrase : Bytes) (file : Option Bytes) (m : Identities) :
    Prop :=
  loadAll j p passphrase (readFile file) = .ok m ∨ loadAll j p passphrase (readFile file) =
    .error .notExist ∧ m = ∅

def After (j : Json) (p : Primitives) (passphrase : Bytes) (file : Option Bytes) (m : Identities)
    (c : Call) : Prop :=
  ∃ m', loadAll j p passphrase (readFile file) = .ok m' ∧
    ∀ a, m'.lookup a = (m.insert c.address c.kp.stored).lookup a

theorem saveAll_eq (hj : j.Lawful) (hp : p.Lawful) (file : Option Bytes) {c : Call}
    (hdrawn : c.fate ≠ .undrawn) (m : Identities) :
    ∃ data, saveAll j p passphrase file c m =
      (writeFile file data c.fate, decide (c.fate = .done)) ∧
      loadAll j p passphrase (.ok data) =
        need (j.unmarshalIdentities (j.marshalIdentities m)) .unmarshalIdentities := by
  obtain ⟨data, hsealed, hload⟩ := loadAll_sealedFile hj hp c.draws m
  refine ⟨data, ?_, hload⟩
  unfold saveAll
  dsimp only
  rw [refuse, if_neg hdrawn, ok_bind, hsealed]

theorem saveAll_whole (hj : j.Lawful) (hp : p.Lawful) {file : Option Bytes} {c : Call}
    (hc : Whole c) {m : Identities} (hm : ∀ a ∈ m, Utf8.valid a = true) :
    saveAll j p passphrase file c (m.insert c.address c.kp.stored) = (file, false) ∨
      After j p passphrase (saveAll j p passphrase file c (m.insert c.address c.kp.stored)).1 m
      c := by
  have hkeys : ∀ a ∈ m.insert c.address c.kp.stored, Utf8.valid a = true := by
    intro a ha
    rcases (AList.mem_insert m).mp ha with rfl | ha
    · exact hc.1
    · exact hm a ha
  by_cases hdrawn : c.fate = .undrawn
  · left
    unfold saveAll
    dsimp only
    rw [refuse, if_pos hdrawn]
    rfl
  · obtain ⟨data, hsaved, hload⟩ := saveAll_eq hj hp file hdrawn (m.insert c.address c.kp.stored)
    obtain ⟨m', hread, hlookup⟩ := hj.identities _ hkeys
    rw [hread, need_some] at hload
    have hwritten : After j p passphrase (some data) m c := ⟨m', hload, hlookup⟩
    rw [hsaved]
    cases hfate : c.fate with
    | torn n => exact absurd hfate (hc.2 n)
    | undrawn => exact absurd hfate hdrawn
    | unreadable => exact .inl rfl
    | unopened => exact .inl rfl
    | unreturned => exact .inr hwritten
    | done => exact .inr hwritten

theorem store_whole (hj : j.Lawful) (hp : p.Lawful) (file : Option Bytes) {c : Call}
    (hc : Whole c) :
    store j p passphrase file c = (file, false) ∨
      ∃ m, Before j p passphrase file m ∧ After j p passphrase (store j p passphrase file c).1 m
      c := by
  have hempty : ∀ a ∈ (∅ : Identities), Utf8.valid a = true :=
    fun a ha => absurd ha (AList.notMem_empty a)
  unfold store
  by_cases hread : c.fate = .unreadable
  · left
    rw [if_pos hread]
    rfl
  · rw [if_neg hread]
    cases hload : loadAll j p passphrase (readFile file) with
    | ok m =>
      dsimp only
      rcases saveAll_whole hj hp hc (valid_of_loadAll hj hload) with hsame | hafter
      · exact .inl hsame
      · exact .inr ⟨m, .inl hload, hafter⟩
    | error e =>
      cases e
      case notExist =>
        dsimp only
        rcases saveAll_whole hj hp hc hempty with hsame | hafter
        · exact .inl hsame
        · exact .inr ⟨∅, .inr ⟨hload, rfl⟩, hafter⟩
      all_goals exact .inl rfl

theorem After.own {file : Option Bytes} {m : Identities} {c : Call}
    (h : After j p passphrase file m c) :
    load j p passphrase file c.address = .ok c.kp.second := by
  obtain ⟨m', hload, hlookup⟩ := h
  rw [load_of_loadAll hload, hlookup, AList.lookup_insert, need_some, ok_bind, toKeyPair_stored]

theorem After.other {file file' : Option Bytes} {m : Identities} {c : Call}
    (hbefore : Before j p passphrase file m) (h : After j p passphrase file' m c) {a : Bytes}
    (ha : a ≠ c.address) {kp : KeyPair} (hkp : load j p passphrase file a = .ok kp) :
    load j p passphrase file' a = .ok kp := by
  obtain ⟨m', hload, hlookup⟩ := h
  rcases hbefore with hold | ⟨hnone, rfl⟩
  · rw [load_of_loadAll hload, hlookup, AList.lookup_insert_ne ha, ← load_of_loadAll hold]
    exact hkp
  · unfold load at hkp
    rw [hnone] at hkp
    cases hkp

theorem load_step (hj : j.Lawful) (hp : p.Lawful) (s : State) {c : Call} (hc : Whole c) {a : Bytes}
    (ha : a ≠ c.address) {kp : KeyPair} (hkp : load j p passphrase s.file a = .ok kp) :
    load j p passphrase (step j p passphrase s c).file a = .ok kp := by
  change load j p passphrase (store j p passphrase s.file c).1 a = .ok kp
  rcases store_whole hj hp s.file hc with hsame | ⟨m, hbefore, hafter⟩
  · rw [hsame]
    exact hkp
  · exact hafter.other hbefore ha hkp

theorem kept_step (hj : j.Lawful) (hp : p.Lawful) {s : State} {c : Call} (h : Kept j p passphrase s)
    (hc : Whole c) :
    Kept j p passphrase (step j p passphrase s c) := by
  intro a kp hsaved
  by_cases ha : a = c.address
  · subst ha
    change (if c.address = c.address then if (store j p passphrase s.file c).2 then some c.kp
      else none
      else s.saved c.address) = some kp at hsaved
    rw [if_pos rfl] at hsaved
    rcases store_whole hj hp s.file hc with hsame | ⟨m, -, hafter⟩
    · rw [hsame] at hsaved
      cases hsaved
    · split at hsaved
      · cases hsaved
        exact hafter.own
      · cases hsaved
  · change (if a = c.address then if (store j p passphrase s.file c).2 then some c.kp else none
      else s.saved a) =
      some kp
      at hsaved
    rw [if_neg ha] at hsaved
    exact load_step hj hp s hc ha (h a kp hsaved)

end Stored

section Results

variable {j : Json} {p : Primitives} {passphrase : Bytes}

/-- In a run whose writes are not cut off, what was stored is loaded, and a call that does not
return does no harm. -/
theorem keystore_keeps_identities (hj : j.Lawful) (hp : p.Lawful) (file : Option Bytes)
    {calls : List Call} (h : ∀ c ∈ calls, Whole c) :
    Machine.Throughout (step j p passphrase) (Kept j p passphrase) (start file) calls ∧
      Machine.Along (step j p passphrase) (Spared j p passphrase) (start file) calls := by
  have hwhole : Machine.Along (step j p passphrase) (fun _ c => Whole c) (start file) calls :=
    Machine.along_of_mem fun c hc _ => h c hc
  constructor
  · refine Machine.throughout_of_along (fun a kp hsaved => by cases hsaved) ?_ hwhole
    exact fun s c hs hc => kept_step hj hp hs hc
  · refine hwhole.imp fun s c hc _ a kp ha hkp => ?_
    exact load_step hj hp s hc ha hkp

end Results

section Concrete

def unary {α : Type} (f : α → ℕ) (a : α) : Bytes := List.replicate (f a + 1) 0

open Classical in
noncomputable def readUnary {α : Type} (f : α → ℕ) (P : α → Prop) (b : Bytes) : Option α :=
  if h : ∃ a, P a ∧ unary f a = b then some h.choose else none

variable {α : Type} {f : α → ℕ} {P : α → Prop}

theorem readUnary_unary (hf : Function.Injective f) {a : α} (ha : P a) : readUnary f P
    (unary f a) = some a := by
  have hexists : ∃ b, P b ∧ unary f b = unary f a := ⟨a, ha, rfl⟩
  have hsame := congrArg List.length hexists.choose_spec.2
  unfold readUnary
  rw [dif_pos hexists, Option.some.injEq]
  apply hf
  simpa [unary] using hsame

theorem of_readUnary {b : Bytes} {a : α} (h : readUnary f P b = some a) : P a := by
  unfold readUnary at h
  split at h
  · next hexists =>
    cases h
    exact hexists.choose_spec.1
  · cases h

theorem readUnary_nil : readUnary f P [] = none := by
  unfold readUnary
  refine dif_neg ?_
  rintro ⟨a, -, ha⟩
  exact absurd ha (List.cons_ne_nil _ _)

instance : Countable Identities := Function.Injective.countable (f := AList.entries) fun _ _ h =>
  AList.ext h

noncomputable def plainJson : Json where
  marshalFile := unary (exists_injective_nat KeystoreFile).choose
  unmarshalFile := readUnary (exists_injective_nat KeystoreFile).choose fun _ => True
  marshalIdentities := unary (exists_injective_nat Identities).choose
  unmarshalIdentities := readUnary (exists_injective_nat Identities).choose fun m =>
    ∀ a ∈ m, Utf8.valid a = true

theorem plainJson_lawful : plainJson.Lawful where
  file _ := readUnary_unary (exists_injective_nat KeystoreFile).choose_spec trivial
  identities m hm :=
    ⟨m, readUnary_unary (exists_injective_nat Identities).choose_spec hm, fun _ => rfl⟩
  keys _ _ h := of_readUnary h

def pair (b : UInt8) : KeyPair where
  ed25519Public := [b]
  ed25519Private := [b]
  x25519Public := .zero 32
  x25519Private := .zero 32
  createdAt := default
  deviceID := .zero 16

def call (a : UInt8) (fate : Fate) : Call := ⟨[a], pair a, ⟨.zero 32, .zero 12⟩, fate⟩

theorem store_first :
    ∃ file, store plainJson plainPrimitives [] none (call 97 .done) = (file, true) ∧
      ∃ m, loadAll plainJson plainPrimitives [] (readFile file) = .ok m := by
  have hdone : (call 97 .done).fate ≠ .undrawn := fun hfate => by cases hfate
  obtain ⟨data, hsaved, hload⟩ :=
    saveAll_eq plainJson_lawful plainPrimitives_ideal.toLawful none hdone
    ((∅ : Identities).insert (call 97 .done).address (call 97 .done).kp.stored)
  have hkeys : ∀ a ∈ (∅ : Identities).insert [97] (pair 97).stored, Utf8.valid a = true := by
    intro a ha
    rcases (AList.mem_insert _).mp ha with rfl | ha
    · exact Utf8.valid_iff.mpr ⟨['a'], rfl⟩
    · exact absurd ha (AList.notMem_empty a)
  obtain ⟨m, hread, -⟩ := plainJson_lawful.identities _ hkeys
  refine ⟨some data, hsaved, m, ?_⟩
  exact hload.trans (congrArg (need · Err.unmarshalIdentities) hread)

theorem saved_first (c : Call) (hc : c.address ≠ [97]) :
    (Machine.run (step plainJson plainPrimitives []) (start none) [call 97 .done, c]).saved [97] =
      some (pair 97) := by
  obtain ⟨file, hstore, -⟩ := store_first
  have hfirst : (step plainJson plainPrimitives [] (start none) (call 97 .done)).saved [97] =
      if (store plainJson plainPrimitives [] none (call 97 .done)).2 then some (pair 97)
        else none := rfl
  rw [hstore] at hfirst
  exact (if_neg hc.symm).trans hfirst

theorem keystore_keeps_identities_interrupted :
    load plainJson plainPrimitives [] (Machine.run (step plainJson plainPrimitives []) (start none)
      [call 97 .done, call 98 .unreturned]).file [97] = .ok (pair 97).second := by
  have hwhole : ∀ c ∈ [call 97 .done, call 98 .unreturned], Whole c := by
    intro c hc
    simp only [List.mem_cons, List.not_mem_nil, or_false] at hc
    rcases hc with rfl | rfl
    · exact ⟨Utf8.valid_iff.mpr ⟨['a'], rfl⟩, fun n hn => by cases hn⟩
    · exact ⟨Utf8.valid_iff.mpr ⟨['b'], rfl⟩, fun n hn => by cases hn⟩
  apply (keystore_keeps_identities plainJson_lawful plainPrimitives_ideal.toLawful none
    hwhole).1.last
  exact saved_first _ (by decide)

/-- The write of a second identity is cut off at its first byte, and the first one is gone. -/
theorem keystore_loses_identity :
    ¬ ∀ (j : Json) (p : Primitives) (passphrase : Bytes) (file : Option Bytes) (calls : List Call),
      j.Lawful →
      p.Lawful →
      Machine.Throughout (step j p passphrase) (Kept j p passphrase) (start file) calls ∧
        Machine.Along (step j p passphrase) (Spared j p passphrase) (start file) calls := by
  intro h
  have hkept :=
    (h plainJson plainPrimitives [] none [call 97 .done, call 98 (.torn 0)] plainJson_lawful
    plainPrimitives_ideal.toLawful).1.last [97] (pair 97) (saved_first _ (by decide))
  have hempty : (Machine.run (step plainJson plainPrimitives []) (start none)
      [call 97 .done, call 98 (.torn 0)]).file = some [] := by
    obtain ⟨file, hstore, m, hload⟩ := store_first
    have htorn : (call 98 (.torn 0)).fate ≠ .undrawn := fun hfate => by cases hfate
    obtain ⟨data, hsaved, -⟩ :=
      saveAll_eq plainJson_lawful plainPrimitives_ideal.toLawful file htorn
      (m.insert (call 98 (.torn 0)).address (call 98 (.torn 0)).kp.stored)
    change (store plainJson plainPrimitives []
      (store plainJson plainPrimitives [] none (call 97 .done)).1
      (call 98 (.torn 0))).1 = some []
    rw [hstore]
    unfold store
    rw [if_neg (by decide), hload]
    dsimp only
    rw [hsaved]
    rfl
  have hlost : load plainJson plainPrimitives [] (some []) [97] = .error .invalidFormat := by
    have hread : plainJson.unmarshalFile [] = none := readUnary_nil
    unfold load loadAll readFile
    rw [need_some, ok_bind, hread]
    rfl
  rw [hempty, hlost] at hkept
  cases hkept

end Concrete

end Dmcn.Keystore
