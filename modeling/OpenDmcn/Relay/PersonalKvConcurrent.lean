import OpenDmcn.IdealRuntime
import OpenDmcn.Lib.Register
import OpenDmcn.Lib.Run
import OpenDmcn.Relay.PersonalKv

/-! Concurrent calls of the personal store (`personalkv_store.go`). A `Put` reads the version and
then writes, with the lock held; a `Get`, a `List` and a `Delete` are one datastore call each and
take no lock. -/

namespace Dmcn.PersonalKv

open Go Datastore Register

structure Writing where
  k : Key
  sealed : Bytes
  expectedVersion : UInt64
  cur : UInt64

abbrev KvAct := Act Key KvRecord ℕ

def versionOf (rec : KvRecord) : ℕ := rec.version.toNat

structure Shared where
  disk : Disk
  /-- The `Put` that holds the lock. -/
  lock : Option Writing
  /-- What has taken effect so far. -/
  history : List KvAct

inductive KvEvent where
  | get (ownerHex key : String)
  | list (ownerHex pre : String) (limit : ℤ) (cursor : String) (values : Bool)
  | putRead (ownerHex key : String) (sealed : Bytes) (expectedVersion : UInt64)
  | putWrite (fails : Bool)
  | delete (ownerHex key : String)

namespace Writing

def record (w : Writing) : KvRecord := ⟨w.cur + 1, w.sealed⟩

def act (w : Writing) : KvAct :=
  .write w.k (if w.expectedVersion = 0 then none else some w.expectedVersion.toNat) w.record

end Writing

namespace Shared

variable (kv : Encoding KvRecord)

def putRead (s : Shared) (ownerHex key : String) (sealed : Bytes) (expectedVersion : UInt64) :
    Option Writing :=
  match s.lock with
  | some w => some w
  | none =>
    match kvKey ownerHex key with
    | .error _ => none
    | .ok k =>
      if sealed.length = 0 then none
      else
        let cur := storedVersion kv s.disk k
        if expectedVersion ≠ 0 ∧ cur ≠ expectedVersion then none
        else some ⟨k, sealed, expectedVersion, cur⟩

def step (s : Shared) : KvEvent → Shared
  | .get ownerHex key =>
    match kvKey ownerHex key with
    | .error _ => s
    | .ok k =>
      match get kv s.disk ownerHex key with
      | .ok (some rec) => { s with history := s.history ++ [.read k rec] }
      | _ => s
  | .list .. => s
  | .putRead ownerHex key sealed expectedVersion =>
    { s with lock := s.putRead kv ownerHex key sealed expectedVersion }
  | .putWrite fails =>
    match s.lock with
    | none => s
    | some w =>
      if fails then { s with lock := none }
      else ⟨Datastore.put s.disk w.k (kv.marshal w.record), none, s.history ++ [w.act]⟩
  | .delete ownerHex key =>
    match kvKey ownerHex key with
    | .error _ => s
    | .ok k =>
      { s with
        disk := s.disk.erase k
        history := if (s.disk.lookup k).isSome then s.history ++ [.remove k] else s.history }

def start (disk : Disk) : Shared := ⟨disk, none, []⟩

theorem step_putRead_putWrite {s : Shared} (hlock : s.lock = none) (ownerHex key : String)
    (sealed : Bytes) (expectedVersion : UInt64) :
    (PersonalKv.put kv s.disk ownerHex key sealed expectedVersion).toOption =
      (s.putRead kv ownerHex key sealed expectedVersion).map fun w =>
        (((s.step kv (.putRead ownerHex key sealed expectedVersion)).step kv
          (.putWrite false)).disk, w.record.version) := by
  unfold PersonalKv.put step putRead
  rw [hlock]
  dsimp only
  cases kvKey ownerHex key with
  | error e => rfl
  | ok k =>
    dsimp only
    split
    · rfl
    · split
      · rfl
      · rfl

/-- Each `Put` that writes began the life of its key if it found the key absent, does not pass the
last version, and if it compared with a version that some `Get` returned, the key is still there. -/
def Guarded (s : Shared) : KvEvent → Prop
  | .putWrite false => ∀ w, s.lock = some w →
      (w.cur = 0 → Act.remove w.k ∉ s.history) ∧ w.cur + 1 ≠ 0 ∧
      (w.expectedVersion ≠ 0 →
        (∃ rec, Act.read w.k rec ∈ s.history ∧ rec.version = w.expectedVersion) →
        s.disk.lookup w.k ≠ none)
  | _ => True

def Addressable (k : Key) : Prop := ∃ ownerHex key, kvKey ownerHex key = .ok k

def Fresh (disk : Disk) : Prop := ∀ k, Addressable k → disk.lookup k = none

/-- What the lock keeps true: the `Put` has found its key empty, and it is; or it has found the
highest version the key ever had. -/
structure Writing.Backed (history : List KvAct) (w : Writing) : Prop where
  addressable : Addressable w.k
  expected : w.expectedVersion ≠ 0 → w.expectedVersion = w.cur
  found : (w.cur = 0 ∧ held w.k history = none) ∨
    ((∃ e rec, Act.write w.k e rec ∈ history ∧ rec.version = w.cur) ∧
      ∀ e rec, Act.write w.k e rec ∈ history → versionOf rec ≤ w.cur.toNat)

structure Sound (s : Shared) : Prop where
  disk : ∀ k, Addressable k → s.disk.lookup k = (held k s.history).map kv.marshal
  truthful : Each Truthful s.history
  versions : ∀ k e rec, Act.write k e rec ∈ s.history → rec.version ≠ 0
  lock : ∀ w ∈ s.lock, Writing.Backed s.history w

section Step

variable {kv} {s : Shared}

theorem toNat_add_one {v : UInt64} (h : v + 1 ≠ 0) : (v + 1).toNat = v.toNat + 1 := by
  have hlt := v.toNat_lt
  have hsum := UInt64.toNat_add v 1
  rw [← UInt64.toNat_inj.ne] at h
  simp only [UInt64.reduceToNat] at hsum h
  omega

theorem Sound.storedVersion_eq (h : Sound kv s) {k : Key} (hk : Addressable k) :
    storedVersion kv s.disk k = ((held k s.history).map KvRecord.version).getD 0 := by
  unfold storedVersion
  rw [h.disk k hk]
  cases held k s.history with
  | none => rfl
  | some rec => simp

/-- The versions of a key rise past a write exactly if the write begins its life or finds the
highest of them, and that is not the last there is. -/
theorem Sound.rises_iff (h : Sound kv s) {w : Writing} (hw : w ∈ s.lock) :
    (∀ e rec, Act.write w.k e rec ∈ s.history → versionOf rec < versionOf w.record) ↔
      (w.cur = 0 → Act.remove w.k ∉ s.history) ∧ w.cur + 1 ≠ 0 := by
  have hback := h.lock w hw
  rcases hback.found with ⟨hzero, hnone⟩ | ⟨⟨e₀, rec₀, hmem₀, hcur⟩, htop⟩
  · have hrecord : versionOf w.record = 1 := by simp [versionOf, Writing.record, hzero]
    rw [hrecord, hzero, ← written_iff_removed h.truthful hnone]
    constructor
    · intro hall
      refine ⟨?_, by decide⟩
      rintro - ⟨e, rec, hmem⟩
      have hlt := hall e rec hmem
      have hpos : versionOf rec ≠ 0 := UInt64.toNat_inj.ne.mpr (h.versions w.k e rec hmem)
      omega
    · rintro ⟨hno, -⟩ e rec hmem
      exact absurd ⟨e, rec, hmem⟩ (hno rfl)
  · have hne : w.cur ≠ 0 := hcur ▸ h.versions w.k e₀ rec₀ hmem₀
    constructor
    · intro hall
      refine ⟨fun hzero => absurd hzero hne, fun hwrap => ?_⟩
      have hlt := hall e₀ rec₀ hmem₀
      have hrecord : versionOf w.record = 0 := by simp [versionOf, Writing.record, hwrap]
      omega
    · rintro ⟨-, hlast⟩ e rec hmem
      have hrecord : versionOf w.record = w.cur.toNat + 1 := toNat_add_one hlast
      have hle := htop e rec hmem
      omega

theorem Sound.lawful_iff (h : Sound kv s) (hlaw : NoLostUpdate versionOf s.history) {w : Writing}
    (hw : w ∈ s.lock) : Lawful versionOf s.history w.act ↔ s.Guarded (.putWrite false) := by
  have hback := h.lock w hw
  have hpresent : s.disk.lookup w.k ≠ none ↔ held w.k s.history ≠ none := by
    rw [h.disk w.k hback.addressable]
    simp
  have hguarded : s.Guarded (.putWrite false) ↔
      ((w.cur = 0 → Act.remove w.k ∉ s.history) ∧ w.cur + 1 ≠ 0) ∧
      (w.expectedVersion ≠ 0 →
        (∃ rec, Act.read w.k rec ∈ s.history ∧ rec.version = w.expectedVersion) →
        held w.k s.history ≠ none) := by
    unfold Guarded
    rw [Option.mem_def.mp hw, and_assoc, ← hpresent]
    simp
  rw [hguarded, ← h.rises_iff hw]
  unfold Writing.act Lawful
  dsimp only
  apply and_congr_right
  intro hall
  by_cases hexpected : w.expectedVersion = 0
  · simp [hexpected]
  · -- the version compared with is the highest the key ever had
    have hcur := hback.expected hexpected
    have htop : ∀ e rec, Act.write w.k e rec ∈ s.history →
        versionOf rec ≤ w.expectedVersion.toNat := by
      rcases hback.found with ⟨hzero, -⟩ | ⟨-, htop⟩
      · exact absurd (hcur.trans hzero) hexpected
      · rwa [hcur]
    have hiff := unchanged_since_read_iff hlaw h.truthful htop
    simp only [versionOf, UInt64.toNat_inj] at hiff
    rw [if_neg hexpected]
    constructor
    · intro hread _
      exact hiff.mp fun before rec since heq hv =>
        hread _ rfl before rec since heq (congrArg UInt64.toNat hv)
    · intro hstill v hv before rec since heq hrec
      cases hv
      exact hiff.mpr (hstill hexpected) before rec since heq (UInt64.toNat_inj.mp hrec)

theorem Writing.Backed.concat {history : List KvAct} {w : Writing} (h : Writing.Backed history w)
    {a : KvAct} (hwrite : ∀ k e rec, a ≠ .write k e rec) : Writing.Backed (history ++ [a]) w := by
  have hmem : ∀ e rec, Act.write w.k e rec ∈ history ++ [a] ↔ Act.write w.k e rec ∈ history := by
    intro e rec
    simp [(hwrite w.k e rec).symm]
  refine ⟨h.addressable, h.expected, ?_⟩
  simp only [hmem]
  apply h.found.imp_left
  rintro ⟨hzero, hnone⟩
  refine ⟨hzero, ?_⟩
  rw [held_concat, hnone]
  cases a with
  | read k rec => rfl
  | write k e rec => exact absurd rfl (hwrite k e rec)
  | remove k => exact ite_self none

theorem Sound.read (h : Sound kv s) {k : Key} {rec : KvRecord}
    (hheld : held k s.history = some rec) :
    Sound kv { s with history := s.history ++ [.read k rec] } where
  disk k' hk' := by
    rw [held_concat]
    exact h.disk k' hk'
  truthful := each_concat.mpr ⟨h.truthful, hheld⟩
  versions k' e rec' hmem := h.versions k' e rec' (by simpa using hmem)
  lock w hw := (h.lock w hw).concat fun _ _ _ => nofun

theorem Sound.remove (h : Sound kv s) {k : Key} (hk : Addressable k) :
    Sound kv { s with
      disk := s.disk.erase k
      history := if (s.disk.lookup k).isSome then s.history ++ [.remove k] else s.history } := by
  cases hheld : held k s.history with
  | none =>
    -- nothing was there, and nothing changes
    have habsent : s.disk.lookup k = none := by
      rw [h.disk k hk, hheld]
      rfl
    simp only [habsent, Option.isSome_none, Bool.false_eq_true, if_false]
    refine ⟨fun k' hk' => ?_, h.truthful, h.versions, h.lock⟩
    by_cases heq : k' = k
    · subst heq
      rw [AList.lookup_erase, hheld]
      rfl
    · rw [AList.lookup_erase_ne heq]
      exact h.disk k' hk'
  | some rec =>
    have hpresent : (s.disk.lookup k).isSome = true := by
      rw [h.disk k hk, hheld]
      rfl
    simp only [hpresent, if_true]
    refine ⟨fun k' hk' => ?_, each_concat.mpr ⟨h.truthful, ?_⟩, fun k' e rec' hmem =>
      ?_, fun w hw => ?_⟩
    · rw [held_concat]
      by_cases heq : k' = k
      · subst heq
        rw [AList.lookup_erase, after, if_pos rfl]
        rfl
      · rw [AList.lookup_erase_ne heq, after, if_neg (Ne.symm heq)]
        exact h.disk k' hk'
    · change held k s.history ≠ none
      simp [hheld]
    · exact h.versions k' e rec' (by simpa using hmem)
    · exact (h.lock w hw).concat fun _ _ _ hput => by cases hput

theorem Sound.putRead (h : Sound kv s) (hlaw : NoLostUpdate versionOf s.history)
    {ownerHex key : String} {sealed : Bytes} {expectedVersion : UInt64} {w : Writing}
    (hw : s.putRead kv ownerHex key sealed expectedVersion = some w) :
    Writing.Backed s.history w := by
  unfold Shared.putRead at hw
  split at hw
  · next w' hlock =>
    cases hw
    exact h.lock w hlock
  · split at hw
    · cases hw
    · next k hk =>
      have haddr : Addressable k := ⟨ownerHex, key, hk⟩
      dsimp only at hw
      split at hw
      · cases hw
      · split at hw
        · cases hw
        · next hversion =>
          cases hw
          refine ⟨haddr, fun hne => ?_, ?_⟩
          · by_contra hdiffer
            exact hversion ⟨hne, fun heq => hdiffer heq.symm⟩
          · dsimp only
            rw [h.storedVersion_eq haddr]
            cases hheld : held k s.history with
            | none => exact .inl ⟨rfl, rfl⟩
            | some rec =>
              obtain ⟨e, hmem⟩ := mem_of_held hheld
              exact .inr ⟨⟨e, rec, hmem, rfl⟩, fun e' rec' hmem' =>
                version_le_held hlaw hheld hmem'⟩

theorem Sound.putWrite (h : Sound kv s) {w : Writing} (hlast : w.cur + 1 ≠ 0) :
    Sound kv ⟨Datastore.put s.disk w.k (kv.marshal w.record), none, s.history ++ [w.act]⟩ where
  disk k hk := by
    rw [held_concat, lookup_put]
    unfold Writing.act after
    dsimp only
    by_cases hkey : k = w.k
    · subst hkey
      simp
    · rw [if_neg hkey, if_neg (Ne.symm hkey)]
      exact h.disk k hk
  truthful := each_concat.mpr ⟨h.truthful, trivial⟩
  versions k e rec hmem := by
    rcases List.mem_append.mp hmem with hmem | hmem
    · exact h.versions k e rec hmem
    · have hact := List.mem_singleton.mp hmem
      unfold Writing.act at hact
      cases hact
      exact hlast
  lock w' hw' := by cases hw'

theorem Sound.step_get (h : Sound kv s) (ownerHex key : String) :
    s.step kv (.get ownerHex key) = s ∨ ∃ k rec, held k s.history = some rec ∧
      s.step kv (.get ownerHex key) = { s with history := s.history ++ [.read k rec] } := by
  cases hkey : kvKey ownerHex key with
  | error e =>
    left
    simp only [step, hkey]
  | ok k =>
    have hdisk := h.disk k ⟨ownerHex, key, hkey⟩
    cases hheld : held k s.history with
    | none =>
      left
      simp only [step, get, hkey, hdisk, hheld, Option.map_none]
    | some rec =>
      refine .inr ⟨k, rec, hheld, ?_⟩
      simp only [step, get, hkey, hdisk, hheld, Option.map_some, Encoding.unmarshal_marshal]

theorem Sound.noLostUpdate_step_iff (h : Sound kv s) (hlaw : NoLostUpdate versionOf s.history)
    (e : KvEvent) :
    NoLostUpdate versionOf (s.step kv e).history ↔ s.Guarded e := by
  cases e with
  | get ownerHex key =>
    rcases h.step_get ownerHex key with heq | ⟨k, rec, -, heq⟩
    · rw [heq]
      exact ⟨fun _ => trivial, fun _ => hlaw⟩
    · rw [heq]
      exact ⟨fun _ => trivial, fun _ => each_concat.mpr ⟨hlaw, trivial⟩⟩
  | list ownerHex pre limit cursor values => exact ⟨fun _ => trivial, fun _ => hlaw⟩
  | putRead ownerHex key sealed expectedVersion => exact ⟨fun _ => trivial, fun _ => hlaw⟩
  | putWrite fails =>
    cases hlock : s.lock with
    | none =>
      have hguard : s.Guarded (.putWrite fails) := by
        cases fails with
        | true => trivial
        | false => exact fun w hw => nomatch hlock.symm.trans hw
      unfold step
      rw [hlock]
      exact ⟨fun _ => hguard, fun _ => hlaw⟩
    | some w =>
      unfold step
      rw [hlock]
      cases fails with
      | true => exact ⟨fun _ => trivial, fun _ => hlaw⟩
      | false =>
        have hlawful := h.lawful_iff hlaw hlock
        exact each_concat.trans ⟨fun hboth => hlawful.mp hboth.2, fun hguard =>
          ⟨hlaw, hlawful.mpr hguard⟩⟩
  | delete ownerHex key =>
    refine ⟨fun _ => trivial, fun _ => ?_⟩
    unfold step
    dsimp only
    split
    · exact hlaw
    · dsimp only
      split
      · exact each_concat.mpr ⟨hlaw, trivial⟩
      · exact hlaw

theorem Sound.step (h : Sound kv s) (hlaw : NoLostUpdate versionOf s.history) {e : KvEvent}
    (hguard : s.Guarded e) :
    Sound kv (s.step kv e) := by
  cases e with
  | get ownerHex key =>
    rcases h.step_get ownerHex key with heq | ⟨k, rec, hheld, heq⟩
    · rwa [heq]
    · rw [heq]
      exact h.read hheld
  | list ownerHex pre limit cursor values => exact h
  | putRead ownerHex key sealed expectedVersion =>
    exact ⟨h.disk, h.truthful, h.versions, fun w hw => h.putRead hlaw hw⟩
  | putWrite fails =>
    unfold Shared.step
    cases hlock : s.lock with
    | none => exact h
    | some w =>
      cases fails with
      | true => exact ⟨h.disk, h.truthful, h.versions, fun w' hw' => nomatch hw'⟩
      | false => exact h.putWrite (hguard w hlock).2.1
  | delete ownerHex key =>
    unfold Shared.step
    dsimp only
    split
    · exact h
    · next k hkey => exact h.remove ⟨ownerHex, key, hkey⟩

theorem sound_start {disk : Disk} (hfresh : Fresh disk) : Sound kv (start disk) where
  disk := hfresh
  truthful := each_nil
  versions k e rec hmem := by cases hmem
  lock w hw := by cases hw

end Step

/-- In every interleaving on a store that starts without blobs, no update is lost and the versions
of a key rise throughout, exactly if every write is guarded. -/
theorem kv_loses_no_update_iff {disk : Disk} (hfresh : Fresh disk) (events : List KvEvent) :
    Machine.Throughout (step kv) (fun s => NoLostUpdate versionOf s.history) (start disk) events ↔
      Machine.Along (step kv) Guarded (start disk) events := by
  have hstart : Sound kv (start disk) := sound_start hfresh
  apply Machine.throughout_iff_along_of_kept hstart each_nil
  · intro s e hs hlaw
    exact hs.noLostUpdate_step_iff hlaw e
  · intro s e hs hlaw hguard
    exact hs.step hlaw hguard

end Shared

namespace Recreated

open Shared

noncomputable def kv₀ : Encoding KvRecord := (someCodec KvRecord).toEncoding

def owner : String := Hex.encode (Fixed.zero 32).val

def k₀ : Key := ownerKey (.zero 32) ++ segments "doc"

theorem kvKey_doc : kvKey owner "doc" = .ok k₀ := by
  apply kvKey_of_valid
  unfold validKvKey
  rw [utf8_eq]
  decide

theorem fresh_empty : Fresh ∅ := fun _ _ => rfl

def put (sealed : Bytes) (expectedVersion : UInt64) : List KvEvent :=
  [.putRead owner "doc" sealed expectedVersion, .putWrite false]

/-- One device reads version 1; another deletes the document and writes a new one; the first then
writes over it. -/
def rewritten : List KvEvent := put [1] 0 ++ [.get owner "doc", .delete owner "doc"] ++ put
    [2] 0 ++ put [3] 1

def resurrected : List KvEvent :=
  put [1] 0 ++ [.get owner "doc", .putRead owner "doc" [3] 1, .delete owner "doc", .putWrite false]

-- The key and its owner are kept general here, so that no step computes the key's segments.
section Keyed

variable {kv : Encoding KvRecord} {ownerHex key : String} {k : Key}

theorem run_rewritten (hkey : kvKey ownerHex key = .ok k) :
    (Machine.run (step kv) (start ∅)
      [.putRead ownerHex key [1] 0, .putWrite false, .get ownerHex key,
      .delete ownerHex key, .putRead ownerHex key [2] 0, .putWrite false,
        .putRead ownerHex key [3] 1,
      .putWrite false]).history =
    [.write k none ⟨1, [1]⟩, .read k ⟨1, [1]⟩, .remove k, .write k none ⟨1, [2]⟩,
      .write k (some 1) ⟨2, [3]⟩] := by
  simp [step, Shared.putRead, start, hkey, storedVersion, PersonalKv.get, Writing.record,
    Writing.act, lookup_put]

theorem run_resurrected (hkey : kvKey ownerHex key = .ok k) :
    (Machine.run (step kv) (start ∅)
      [.putRead ownerHex key [1] 0, .putWrite false, .get ownerHex key,
      .putRead ownerHex key [3] 1, .delete ownerHex key, .putWrite false]).history =
    [.write k none ⟨1, [1]⟩, .read k ⟨1, [1]⟩, .remove k, .write k (some 1) ⟨2, [3]⟩] := by
  simp [step, Shared.putRead, start, hkey, storedVersion, PersonalKv.get, Writing.record,
    Writing.act, lookup_put]

theorem run_edited (hkey : kvKey ownerHex key = .ok k) :
    (Machine.run (step kv) (start ∅)
      [.putRead ownerHex key [1] 0, .putWrite false, .get ownerHex key,
      .putRead ownerHex key [3] 1, .putWrite false]).history =
    [.write k none ⟨1, [1]⟩, .read k ⟨1, [1]⟩, .write k (some 1) ⟨2, [3]⟩] := by
  simp [step, Shared.putRead, start, hkey, storedVersion, PersonalKv.get, Writing.record,
    Writing.act, lookup_put]

theorem guarded_edited (hkey : kvKey ownerHex key = .ok k) :
    Machine.Along (step kv) Guarded (start ∅)
      [.putRead ownerHex key [1] 0, .putWrite false, .get ownerHex key,
      .putRead ownerHex key [3] 1, .putWrite false] := by
  simp [Machine.Along, step, Shared.putRead, start, hkey, storedVersion, PersonalKv.get,
    Writing.record, Writing.act, lookup_put, Guarded]

end Keyed

theorem history_rewritten : (Machine.run (step kv₀) (start ∅) rewritten).history =
    [.write k₀ none ⟨1, [1]⟩, .read k₀ ⟨1, [1]⟩, .remove k₀, .write k₀ none ⟨1, [2]⟩,
      .write k₀ (some 1) ⟨2, [3]⟩] :=
  run_rewritten kvKey_doc

theorem history_resurrected : (Machine.run (step kv₀) (start ∅) resurrected).history =
    [.write k₀ none ⟨1, [1]⟩, .read k₀ ⟨1, [1]⟩, .remove k₀, .write k₀ (some 1) ⟨2, [3]⟩] :=
  run_resurrected kvKey_doc

/-- A write that expects version 1 replaces a document whose version 1 is another than the one that
was read, and two writes of the key return version 1; and such a write brings back a document that
was deleted meanwhile. -/
theorem update_lost_by_delete :
    ¬ NoLostUpdate versionOf (Machine.run (step kv₀) (start ∅) rewritten).history ∧
    ¬ NoLostUpdate versionOf (Machine.run (step kv₀) (start ∅) resurrected).history := by
  constructor
  · intro hlaw
    rw [history_rewritten] at hlaw
    have hsecond := hlaw [.write k₀ none ⟨1, [1]⟩, .read k₀ ⟨1, [1]⟩, .remove k₀] _ _ rfl
    have hlt := hsecond.1 none ⟨1, [1]⟩ (by simp)
    exact absurd hlt (by decide)
  · intro hlaw
    rw [history_resurrected] at hlaw
    have hlast := hlaw [.write k₀ none ⟨1, [1]⟩, .read k₀ ⟨1, [1]⟩, .remove k₀] _ _ rfl
    have hsame := hlast.2 1 rfl [.write k₀ none ⟨1, [1]⟩] ⟨1, [1]⟩ [.remove k₀] rfl rfl
    exact hsame _ (List.mem_singleton.mpr rfl) rfl

def edited : List KvEvent := put [1] 0 ++ [.get owner "doc"] ++ put [3] 1

theorem update_kept :
    (Machine.run (step kv₀) (start ∅) edited).history =
      [.write k₀ none ⟨1, [1]⟩, .read k₀ ⟨1, [1]⟩, .write k₀ (some 1) ⟨2, [3]⟩] ∧
    Machine.Throughout (step kv₀) (fun s => NoLostUpdate versionOf s.history) (start ∅) edited := by
  refine ⟨?_, (kv_loses_no_update_iff kv₀ fresh_empty edited).mpr ?_⟩
  · exact run_edited kvKey_doc
  · exact guarded_edited kvKey_doc

end Recreated

end Dmcn.PersonalKv
